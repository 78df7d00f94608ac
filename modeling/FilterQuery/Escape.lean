import FilterQuery.Text.Replace

set_option autoImplicit false

/-! # Escapes and wildcards in literal text

`$` is the escape mark. It protects the characters that would otherwise be read as structure, the
two wildcards, and itself. Resolved text keeps an escaped wildcard in doubled form (`**`, `??`), so
that it can still be told from a wildcard that stands for other characters.

`resolve` works in stages over the whole text: `$$` is set aside, the escaped wildcards are doubled,
the mark comes back, and then each structural character loses its mark in turn. A mark that came
from `$$` is therefore read again by the last stages. `escape` writes resolved text with its
escapes. -/

namespace FilterQuery.Escape

open FilterQuery.Text

/-- The escape mark. -/
def mark : Char := '$'

/-- The structural characters, in the order in which their escapes are resolved. -/
def structural : List Char := ['(', ')', ',', '[', ']', ':', '-', ' ']

def isStructural (c : Char) : Bool := structural.contains c

/-- `*` stands for any sequence of characters and `?` for any one of them. -/
def isWildcard (c : Char) : Bool := c == '*' || c == '?'

/-- The characters that may follow the escape mark. -/
def isEscapable (c : Char) : Bool := c == mark || isWildcard c || isStructural c

/-- Stands for an escaped mark while the wildcards are resolved. -/
def placeholder : List Char := ['\x00', 'E', 'S', 'C', '\x00']

/-- Set every escaped mark aside. -/
def protectMarks (cs : List Char) : List Char := replaceAll [mark, mark] placeholder cs

/-- Double every escaped wildcard. -/
def doubleWildcards (cs : List Char) : List Char :=
  replaceAll [mark, '?'] ['?', '?'] (replaceAll [mark, '*'] ['*', '*'] cs)

/-- Bring the marks back that were set aside. -/
def restoreMarks (cs : List Char) : List Char := replaceAll placeholder [mark] cs

/-- Remove the mark in front of structural characters, one character after the other. -/
def unmarkStructural (cs : List Char) : List Char :=
  structural.foldl (fun text c => replaceAll [mark, c] [c] text) cs

/-- Resolve the escapes of a literal. -/
def resolve (cs : List Char) : List Char :=
  unmarkStructural (restoreMarks (doubleWildcards (protectMarks cs)))

/-- Resolved text that holds a wildcard, doubled or not. -/
def hasWildcard (resolved : List Char) : Bool := resolved.any isWildcard

/-- Text without a wildcard is searched for anywhere in the field. -/
def containing (resolved : List Char) : List Char :=
  if hasWildcard resolved then resolved else '*' :: (resolved ++ ['*'])

/-- Write resolved text with its escapes. -/
def escape : List Char → List Char
  | [] => []
  | [c] => if c == mark || isStructural c then [mark, c] else [c]
  | c :: d :: rest =>
    if isWildcard c && d == c then mark :: c :: escape rest
    else if c == mark || isStructural c then mark :: c :: escape (d :: rest)
    else c :: escape (d :: rest)

end FilterQuery.Escape
