import FilterQuery.Escape
import FilterQuery.Position
import FilterQuery.Text.Ascii
import FilterQuery.Text.Blank

set_option autoImplicit false

/-! # Tokens

A filter is a row of tokens with blank characters between them. `tokenize` reads them off from the
left: the five marks, quoted literals, operators (`$`, letters, `:`) and bare literals, which run up
to the next blank, mark, quote or operator. A literal keeps its escapes, and a bare date-time may
carry a zone name in brackets.

Reading a token returns the characters behind it. `readToken_spelling` says that nothing is lost:
the text is the spelling of the token followed by that rest. -/

namespace FilterQuery

open FilterQuery.Text

inductive Token where
  /-- An operator by its text; whether it exists is decided later. -/
  | operator (text : String)
  | having
  /-- Literal text with its escapes, as it stands between the quotes if there are any. -/
  | literal (raw : String) (quoted : Bool)
  | openParen | closeParen | openBracket | closeBracket | comma
  | endOfInput
  deriving DecidableEq, Repr

/-- The characters a token is written with. -/
def Token.spelling : Token → List Char
  | .operator text => text.toList
  | .having => ['$', 'h', 'a', 'v', 'i', 'n', 'g', ':']
  | .literal raw true => '"' :: (raw.toList ++ ['"'])
  | .literal raw false => raw.toList
  | .openParen => ['(']
  | .closeParen => [')']
  | .openBracket => ['[']
  | .closeBracket => [']']
  | .comma => [',']
  | .endOfInput => ['E', 'O', 'F']

/-- A token and the byte offsets at which it starts and stops. -/
structure Lexeme where
  token : Token
  start : Nat
  stop : Nat
  deriving DecidableEq, Repr

/-- Why a text has no tokens. -/
inductive LexFault where
  | unexpectedChar (c : Char)
  | unterminatedString
  | invalidEscape
  deriving DecidableEq, Repr

structure LexError where
  cause : LexFault
  position : Position
  deriving DecidableEq, Repr

def LexError.message (e : LexError) : String :=
  match e.cause with
  | .unexpectedChar c => s!"unexpected character '{c}' {e.position.text}"
  | .unterminatedString => s!"unterminated string starting {e.position.text}"
  | .invalidEscape => s!"invalid escape sequence {e.position.text}"

namespace Token

/-! ## Bare literals -/

/-- Ends a bare literal. -/
def isDelimiter (c : Char) : Bool := isBlank c || ['(', ')', '[', ']', ',', '"'].contains c

/-- A bare literal that a bracketed zone name may follow: four digits, `T` at byte ten, a colon,
and sixteen bytes at least. -/
def looksLikeDateTime (raw : List Char) : Bool :=
  16 ≤ byteSize raw && areDigits 4 (raw.take 4) &&
    ((splitAtByte 10 raw).any fun (_, time) => time.head? == some 'T') && raw.contains ':'

/-- The longest bare literal, given what of it has been read (last character first) and whether the
reader stands inside a bracketed zone name. Returns the literal and the characters behind it; at an
invalid escape, the characters in front of its mark. -/
def bareRun (inZone : Bool) (seen : List Char) :
    List Char → Except (List Char) (List Char × List Char)
  | [] => .ok (seen.reverse, [])
  | c :: rest =>
    if inZone then bareRun (c != ']') (c :: seen) rest
    else if c == Escape.mark then
      match rest with
      | [] => .error seen.reverse
      | next :: rest' =>
        if isLetter next then .ok (seen.reverse, c :: next :: rest')
        else if Escape.isEscapable next then bareRun false (next :: c :: seen) rest'
        else .error seen.reverse
    else if c == '[' && looksLikeDateTime seen.reverse && rest.contains ']' then
      bareRun true (c :: seen) rest
    else if isDelimiter c then .ok (seen.reverse, c :: rest)
    else bareRun false (c :: seen) rest

theorem bareRun_append {inZone : Bool} {seen cs run after : List Char}
    (h : bareRun inZone seen cs = .ok (run, after)) : run ++ after = seen.reverse ++ cs := by
  fun_induction bareRun inZone seen cs with
  | case1 => simp_all
  | case2 _ _ _ ih => simpa using ih h
  | case3 => simp at h
  | case4 => simp_all
  | case5 _ _ _ _ _ _ _ _ _ ih => simpa using ih h
  | case6 => simp at h
  | case7 _ _ _ _ _ _ _ ih => simpa using ih h
  | case8 => simp_all
  | case9 _ _ _ _ _ _ _ _ ih => simpa using ih h

/-! ## One token -/

/-- The token of an operator's text. -/
def ofOperatorText (text : String) : Token :=
  if text = "$having:" then .having else .operator text

/-- The marks that are tokens by themselves. -/
def ofMark? : Char → Option Token
  | '(' => some .openParen
  | ')' => some .closeParen
  | '[' => some .openBracket
  | ']' => some .closeBracket
  | ',' => some .comma
  | _ => none

/-- Read a quoted literal behind its opening quote. -/
def readQuoted (rest : List Char) : Except (LexFault × Nat) (Token × List Char) :=
  match rest.dropWhile (· != '"') with
  | [] => .error (.unterminatedString, 0)
  | _ :: after => .ok (.literal (String.ofList (rest.takeWhile (· != '"'))) true, after)

/-- Read an operator behind its mark. -/
def readOperator (rest : List Char) : Except (LexFault × Nat) (Token × List Char) :=
  match rest.dropWhile isLetter with
  | ':' :: after =>
    .ok (ofOperatorText (String.ofList (Escape.mark :: (rest.takeWhile isLetter ++ [':']))), after)
  | _ => .error (.invalidEscape, 0)

/-- Read a bare literal that starts with `c`. -/
def readBare (c : Char) (rest : List Char) : Except (LexFault × Nat) (Token × List Char) :=
  match bareRun false [] (c :: rest) with
  | .error before => .error (.invalidEscape, byteSize before)
  | .ok ([], _) => .error (.unexpectedChar c, 0)
  | .ok (run, after) => .ok (.literal (String.ofList run) false, after)

/-- Read the token that starts with `c`, which is not blank. A fault comes with its distance in
bytes from the start of the token. -/
def readToken (c : Char) (rest : List Char) : Except (LexFault × Nat) (Token × List Char) :=
  match ofMark? c with
  | some token => .ok (token, rest)
  | none =>
    if c == '"' then readQuoted rest
    else if c == Escape.mark && (rest.head?.any isLetter) then readOperator rest
    else readBare c rest

theorem spelling_ofOperatorText (text : String) :
    (ofOperatorText text).spelling = text.toList := by
  unfold ofOperatorText
  split
  · next h => rw [h]; rfl
  · rfl

theorem spelling_ofMark? {c : Char} {token : Token} (h : ofMark? c = some token) :
    token.spelling = [c] := by
  unfold ofMark? at h
  split at h <;> simp_all [spelling]
  all_goals subst h; rfl

/-- What is left behind a stop character starts with it. -/
theorem takeWhile_append_of_dropWhile {p : Char → Bool} {cs : List Char} {d : Char}
    {after : List Char} (h : cs.dropWhile p = d :: after) :
    cs.takeWhile p ++ d :: after = cs := by
  rw [← h, List.takeWhile_append_dropWhile]

theorem readQuoted_spelling {rest after : List Char} {token : Token}
    (h : readQuoted rest = .ok (token, after)) : token.spelling ++ after = '"' :: rest := by
  unfold readQuoted at h
  split at h
  · simp at h
  · next d tail hd =>
    simp only [Except.ok.injEq, Prod.mk.injEq] at h
    obtain ⟨rfl, rfl⟩ := h
    have hq : d = '"' := by
      have := List.head?_dropWhile_not (· != '"') rest
      simp_all
    subst hq
    simp [spelling, takeWhile_append_of_dropWhile hd]

theorem readOperator_spelling {rest after : List Char} {token : Token}
    (h : readOperator rest = .ok (token, after)) :
    token.spelling ++ after = Escape.mark :: rest := by
  unfold readOperator at h
  split at h
  · next tail hd =>
    simp only [Except.ok.injEq, Prod.mk.injEq] at h
    obtain ⟨rfl, rfl⟩ := h
    simp [spelling_ofOperatorText, takeWhile_append_of_dropWhile hd]
  · simp at h

theorem readBare_spelling {c : Char} {rest after : List Char} {token : Token}
    (h : readBare c rest = .ok (token, after)) :
    token.spelling ++ after = c :: rest ∧ token.spelling ≠ [] := by
  unfold readBare at h
  split at h
  · simp at h
  · simp at h
  · next run tail hne hrun =>
    simp only [Except.ok.injEq, Prod.mk.injEq] at h
    obtain ⟨rfl, rfl⟩ := h
    have := bareRun_append hrun
    refine ⟨by simpa [spelling] using this, ?_⟩
    simpa only [spelling, String.toList_ofList] using hne

/-- Reading a token loses nothing and takes at least one character. -/
theorem readToken_spelling {c : Char} {rest after : List Char} {token : Token}
    (h : readToken c rest = .ok (token, after)) :
    token.spelling ++ after = c :: rest ∧ token.spelling ≠ [] := by
  unfold readToken at h
  split at h
  · next hm =>
    simp only [Except.ok.injEq, Prod.mk.injEq] at h
    obtain ⟨rfl, rfl⟩ := h
    simp [spelling_ofMark? hm]
  · split at h
    · next hq =>
      have := readQuoted_spelling h
      refine ⟨by simpa [beq_iff_eq.1 hq] using this, fun hnil => ?_⟩
      unfold readQuoted at h
      split at h
      · simp at h
      · simp only [Except.ok.injEq, Prod.mk.injEq] at h
        obtain ⟨rfl, -⟩ := h
        simp [spelling] at hnil
    · split at h
      · next hop =>
        simp only [Bool.and_eq_true, beq_iff_eq] at hop
        have := readOperator_spelling h
        refine ⟨by rw [this, hop.1], fun hnil => ?_⟩
        unfold readOperator at h
        split at h
        · simp only [Except.ok.injEq, Prod.mk.injEq] at h
          obtain ⟨rfl, -⟩ := h
          simp [spelling_ofOperatorText] at hnil
        · simp at h
      · exact readBare_spelling h

theorem length_of_readToken {c : Char} {rest after : List Char} {token : Token}
    (h : readToken c rest = .ok (token, after)) : after.length < (c :: rest).length := by
  obtain ⟨happ, hne⟩ := readToken_spelling h
  have := congrArg List.length happ
  have hpos : 0 < token.spelling.length := List.length_pos_iff.2 hne
  simp only [List.length_append] at this
  omega

/-! ## The whole text -/

/-- The tokens of a text that starts at byte `offset`; a fault comes with its own offset. -/
def scan (offset : Nat) (cs : List Char) : Except (LexFault × Nat) (List Lexeme) :=
  match cs with
  | [] => .ok []
  | c :: rest =>
    if isBlank c then scan (offset + c.utf8Size) rest
    else
      match h : readToken c rest with
      | .error (fault, skipped) => .error (fault, offset + skipped)
      | .ok (token, after) =>
        let stop := offset + byteSize token.spelling
        have := length_of_readToken h
        match scan stop after with
        | .error e => .error e
        | .ok lexemes => .ok (⟨token, offset, stop⟩ :: lexemes)
termination_by cs.length
decreasing_by
  · exact Nat.lt_succ_self _
  · exact this

end Token

/-- The tokens of a source text. -/
def lexemes (source : List Char) : Except LexError (List Lexeme) :=
  match Token.scan 0 source with
  | .error (cause, offset) => .error ⟨cause, Position.ofOffset source offset⟩
  | .ok tokens => .ok tokens

/-- The tokens of a source text, the end of the input last. -/
def tokenize (source : List Char) : Except LexError (List Lexeme) :=
  match lexemes source with
  | .error e => .error e
  | .ok tokens => .ok (tokens ++ [⟨.endOfInput, byteSize source, byteSize source⟩])

end FilterQuery
