import FilterQuery.Escape

set_option autoImplicit false

/-! # Text in queries

How texts are written into a query: as a literal between single quotes, in which a quote is written
twice, and as a pattern, in which `%` stands for any text, `_` for any one character, and a
backslash takes the meaning off the character behind it. -/

namespace FilterQuery

/-! ## Literals -/

/-- The single quote. -/
def quoteMark : Char := '\x27'

/-- A text with every single quote written twice. -/
def doubleQuotes : List Char → List Char
  | [] => []
  | c :: rest => if c = quoteMark then c :: c :: doubleQuotes rest else c :: doubleQuotes rest

/-- A literal of the query. -/
def quoted (cs : List Char) : List Char := quoteMark :: doubleQuotes cs ++ [quoteMark]

/-! ## Patterns

In the text of a filter a single `*` or `?` is a wildcard, and two of them stand for one of the
character itself. -/

/-- A character that is no wildcard, matched by itself only. -/
def patternChar (c : Char) : List Char :=
  if c = '\\' || c = '%' || c = '_' then ['\\', c] else [c]

/-- The pattern of a row of `n` equal wildcards: one alone is a wildcard, and more are a row of half
as many characters, rounded up. -/
def patternRow (c : Char) (n : Nat) : List Char :=
  if n = 1 then [if c = '*' then '%' else '_'] else List.replicate (n / 2 + n % 2) c

theorem length_dropWhile_le (p : Char → Bool) (cs : List Char) :
    (cs.dropWhile p).length ≤ cs.length := (List.dropWhile_sublist p).length_le

/-- The pattern that a resolved text denotes. -/
def likePattern : List Char → List Char
  | [] => []
  | c :: rest =>
    if Escape.isWildcard c then
      patternRow c ((rest.takeWhile (· == c)).length + 1) ++ likePattern (rest.dropWhile (· == c))
    else patternChar c ++ likePattern rest
termination_by cs => cs.length
decreasing_by
  · exact Nat.lt_succ_of_le (length_dropWhile_le _ rest)
  · exact Nat.lt_succ_self _

end FilterQuery
