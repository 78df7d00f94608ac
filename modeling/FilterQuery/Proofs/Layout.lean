import FilterQuery.Proofs.Spacing
import FilterQuery.Proofs.ValueText

set_option autoImplicit false

/-! # Two layouts of the same tokens

A condition is printed as a row of pieces, and its two texts differ in the blanks around them. The
pretty layout puts a blank in front of an operator only where the text before does not end with one,
and breaks lines where the compact layout writes nothing at all.

`Piece.Lays ps row` says that pieces have these tokens in both layouts, whatever the indentation. It
is built up from the right, piece by piece. A mark, an operator or a line break goes in front of
anything; a literal only in front of pieces that end it in both layouts (`Piece.EndLiterals`).
`Condition.tokens` is the row that a condition has. -/

namespace FilterQuery

open FilterQuery.Text

variable {zones : Zone.Database}

/-! ## Literals of values -/

namespace Value

/-- A string without quotes and without blanks other than spaces, and every value of another
kind. -/
def Spelled : Value → Prop
  | .string s => '"' ∉ s.toList ∧ ∀ c ∈ s.toList, isBlank c = true → c = ' '
  | _ => True

theorem unbroken_yearText (year : Int) : Token.Unbroken (Date.yearText year) := by
  have hdigits (n : Nat) : Token.Unbroken (padded 4 n) := (PlainText.padded 4 n).unbroken
  unfold Date.yearText
  split
  · exact hdigits _
  · split
    · exact .plain (by decide) (by decide) (hdigits _)
    · exact .plain (by decide) (by decide) (hdigits _)

theorem unbroken_date (d : Date) : Token.Unbroken d.text := by
  have hmonthDay : PlainText (padded 2 d.month ++ '-' :: padded 2 d.day) :=
    (PlainText.padded 2 d.month).append_mark (by decide) (PlainText.padded 2 d.day)
  exact (unbroken_yearText d.year).append (.plain (by decide) (by decide) hmonthDay.unbroken)

theorem unbroken_dateTime (dt : LocalDateTime) : Token.Unbroken dt.text :=
  (unbroken_date dt.date).append (.plain (by decide) (by decide) (PlainText.time dt.time).unbroken)

theorem unbroken_double (x : Binary64) : Token.Unbroken x.text := by
  apply Token.unbroken_of_forall
  intro c hc
  rcases Binary64.mem_text hc with hdigit | hletter
  · have hplain : PlainText [c] := PlainText.of_isDigit (by simpa using hdigit)
    exact hplain.not_isDelimiter List.mem_cons_self
  · have hall : (numeralLetters.all fun d => d != Escape.mark && !Token.isDelimiter d) = true := by
      decide
    simpa using List.all_eq_true.1 hall c hletter

/-- Nothing in the text of a value ends a literal, unless the value is a string. -/
theorem unbroken_text {v : Value} (hv : ∀ s, v ≠ .string s) : Token.Unbroken v.text := by
  cases v with
  | string s => exact absurd rfl (hv s)
  | double x => exact unbroken_double x
  | date d => exact unbroken_date d
  | dateTime dt => exact unbroken_dateTime dt
  | instant i =>
    exact (unbroken_dateTime i.utc).append (.plain (by decide) (by decide) .nil)
  | year y =>
    have hend : PlainText ['-', '-'] := PlainText.of_subset (by decide)
    simp only [text, yearText]
    split
    · have hminus : PlainText ['-'] := PlainText.of_subset (by decide)
      exact ((hminus.append (PlainText.padded 3 _)).append hend).unbroken
    · exact ((PlainText.padded 4 _).append hend).unbroken
  | long | boolean | time | monthDay =>
    refine PlainText.unbroken (@PlainText.value .eq _ ?_ hv)
    trivial

theorem double_text_ne_nil (x : Binary64) : x.text ≠ [] := by
  unfold Binary64.text
  split
  · simp
  · extract_lets digits unsigned
    have hunsigned : unsigned ≠ [] := by
      simp only [unsigned]
      split
      · simp
      · split
        · next hpoint =>
          have hmem : '.' ∈ digits := by simpa using hpoint
          exact List.ne_nil_of_mem hmem
        · simp
    split
    · simp
    · exact hunsigned

theorem text_ne_nil {v : Value} (hv : ∀ s, v ≠ .string s) : v.text ≠ [] := by
  have hnat (n : Nat) : natDigits n ≠ [] := Nat.toDigits_ne_nil
  cases v with
  | string s => exact absurd rfl (hv s)
  | double x => exact double_text_ne_nil x
  | long n =>
    simp only [text, intText]
    split
    · simp
    · exact hnat _
  | boolean b => cases b <;> simp [text]
  | date d => simp [text, Date.text]
  | time t => simp [text, Time.text]
  | dateTime dt => simp [text, LocalDateTime.text]
  | monthDay md => simp [text, MonthDay.text]
  | year y => simp [text, yearText]
  | instant i => simp [text, Instant.text]

/-- The token of a value is one that a text can have. -/
theorem readAs_token {v : Value} (h : v.Spelled) : Token.ReadAs v.token := by
  cases v with
  | string s =>
    obtain ⟨hquote, hblank⟩ := h
    unfold token
    by_cases hbare : Literal.readsAsString (Escape.escape s.toList) = true
    · have hne : Escape.escape s.toList ≠ [] := by
        intro hnil
        rw [hnil] at hbare
        cases hbare
      simp only [hbare, Bool.not_true]
      exact .bare ((Token.unbroken_escape hquote hblank).isBare hne)
    · rw [Bool.not_eq_true] at hbare
      simp only [hbare, Bool.not_false]
      exact .quoted fun hmem => hquote (Escape.mem_of_mem_escape hmem (by decide))
  | _ => exact .bare ((unbroken_text (by simp)).isBare (text_ne_nil (by simp)))

end Value

/-! ## Pieces in both layouts -/

namespace Piece

/-- In both layouts the pieces have these tokens, whatever stands before them. -/
structure Lays (ps : List Piece) (row : List Token) : Prop where
  compact : Token.Reads (Piece.compact ps) row
  pretty : ∀ indent gap, Token.Reads (Piece.pretty indent gap ps) row

/-- In both layouts a literal in front of the pieces ends there. -/
structure EndLiterals (ps : List Piece) : Prop where
  compact : Token.endsLiteral (Piece.compact ps) = true
  pretty : ∀ indent gap, Token.endsLiteral (Piece.pretty indent gap ps) = true

variable {ps : List Piece} {row : List Token} {token : Token} {c : Char}

theorem lays_nil : Lays [] [] := ⟨Token.reads_nil, fun _ _ => Token.reads_nil⟩

theorem endLiterals_nil : EndLiterals [] := ⟨rfl, fun _ _ => rfl⟩

/-- A literal stands in front of pieces that end it. -/
theorem Lays.literal (h : Lays ps row) (htoken : token.Stands) (hends : EndLiterals ps) :
    Lays (.text token.spelling :: ps) (token :: row) := by
  constructor
  · exact htoken _ _ hends.compact h.compact
  · intro indent gap
    exact htoken _ _ (hends.pretty indent _) (h.pretty indent _)

theorem Lays.mark (h : Lays ps row) (hmark : Token.ofMark? c = some token) :
    Lays (.text [c] :: ps) (token :: row) :=
  ⟨Token.reads_mark hmark h.compact, fun indent _ => Token.reads_mark hmark (h.pretty indent _)⟩

theorem endLiterals_mark (hdelimiter : Token.isDelimiter c = true) (hbracket : c ≠ '[') :
    EndLiterals (.text [c] :: ps) := by
  have hmark : c ≠ Escape.mark := by
    rintro rfl
    exact absurd hdelimiter (by decide)
  have hends (rest : List Char) : Token.endsLiteral (c :: rest) = true := by
    simp [Token.endsLiteral, hmark, hdelimiter, hbracket]
  exact ⟨hends _, fun _ _ => hends _⟩

/-- The blank in front of an operator in the pretty layout, unless there is one already. -/
theorem reads_operator_gap {rest : List Char} (gap : Bool) (h : Token.Reads rest row) :
    Token.Reads ((if gap then [] else [' ']) ++ rest) row := by
  refine Token.reads_gap ?_ h
  cases gap <;> rfl

theorem Lays.operator {text : String} (h : Lays ps row)
    (htoken : ∀ {rest row}, Token.Reads rest row →
      Token.Reads (text.toList ++ rest) (token :: row)) :
    Lays (.operator text :: ps) (token :: row) := by
  constructor
  · exact htoken h.compact
  · intro indent gap
    have hblank : Token.Reads (' ' :: Piece.pretty indent true ps) row :=
      @Token.reads_gap [' '] _ _ rfl (h.pretty indent true)
    rw [Piece.pretty, List.append_assoc]
    exact reads_operator_gap gap (htoken hblank)

theorem Lays.lastOperator (h : Lays ps row) (op : Operator) :
    Lays (.lastOperator op.token :: ps) (.operator op.token :: row) := by
  constructor
  · exact Token.reads_operator_token op h.compact
  · intro indent gap
    rw [Piece.pretty, List.append_assoc]
    exact reads_operator_gap gap (Token.reads_operator_token op (h.pretty indent false))

theorem endsLiteral_operator_gap (op : Operator) (gap : Bool) (rest : List Char) :
    Token.endsLiteral ((if gap then [] else [' ']) ++ op.token.toList ++ rest) = true := by
  rw [List.append_assoc]
  cases gap with
  | true => exact Token.endsLiteral_operator_token op
  | false => rfl

theorem endLiterals_operator (op : Operator) : EndLiterals (.operator op.token :: ps) :=
  ⟨Token.endsLiteral_operator_token op, fun _ gap => endsLiteral_operator_gap op gap _⟩

theorem endLiterals_lastOperator (op : Operator) : EndLiterals (.lastOperator op.token :: ps) :=
  ⟨Token.endsLiteral_operator_token op, fun _ gap => endsLiteral_operator_gap op gap _⟩

theorem Lays.separator (h : Lays ps row) : Lays (.separator :: ps) (.comma :: row) := by
  constructor
  · exact Token.reads_mark rfl h.compact
  · intro indent gap
    exact Token.reads_mark rfl (@Token.reads_gap [' '] _ _ rfl (h.pretty indent true))

theorem endLiterals_separator : EndLiterals (.separator :: ps) := ⟨rfl, fun _ _ => rfl⟩

theorem Lays.lineBreak (h : Lays ps row) (level : Nat) : Lays (.lineBreak level :: ps) row := by
  constructor
  · exact h.compact
  · intro indent gap
    have hblank : ('\n' :: List.replicate (level * indent) ' ').all isBlank = true := by
      simp [isBlank_space, show isBlank '\n' = true by decide]
    exact Token.reads_gap hblank (h.pretty indent true)

/-- The compact layout writes nothing at a line break, so what follows has to end the literal. -/
theorem EndLiterals.lineBreak (h : EndLiterals ps) (level : Nat) :
    EndLiterals (.lineBreak level :: ps) := ⟨h.compact, fun _ _ => rfl⟩

end Piece

namespace Condition

open Piece

/-! ## The tokens of a condition -/

mutual

/-- The fields of a condition from left to right. -/
def fields : Condition → List String
  | .simple field _ _ | .oneOf field _ | .noneOf field _ | .aggregate field _ _ _ => [field]
  | .not c => fields c
  | .group _ first second more => fields first ++ fields second ++ fieldsAll more
  | .having field sub => field :: fields sub

/-- The fields of all conditions in turn. -/
def fieldsAll : List Condition → List String
  | [] => []
  | c :: cs => fields c ++ fieldsAll cs

end

mutual

/-- The values of a condition from left to right. -/
def values : Condition → List Value
  | .simple _ _ value => value.toList
  | .oneOf _ vs | .noneOf _ vs => vs
  | .not c => values c
  | .group _ first second more => values first ++ values second ++ valuesAll more
  | .having _ sub => values sub
  | .aggregate _ _ _ bound => [bound]

/-- The values of all conditions in turn. -/
def valuesAll : List Condition → List Value
  | [] => []
  | c :: cs => values c ++ valuesAll cs

end

/-- The tokens of values with commas between them. -/
def valueTokens : List Value → List Token
  | [] => []
  | [v] => [v.token]
  | v :: vs => v.token :: .comma :: valueTokens vs

def listTokens (field : String) (op : Operator) (vs : List Value) : List Token :=
  .literal field false :: .operator op.token :: .openBracket :: (valueTokens vs ++ [.closeBracket])

mutual

/-- The tokens that a condition is written with. -/
def tokens : Condition → List Token
  | .simple field op none => [.literal field false, .operator op.token]
  | .simple field op (some v) => [.literal field false, .operator op.token, v.token]
  | .oneOf field vs => listTokens field .oneOf vs
  | .noneOf field vs => listTokens field .noneOf vs
  | .not c => .operator Operator.not.token :: tokens c
  | .group join first second more =>
    .openParen :: (tokens first ++ .operator join.operator.token :: (tokens second ++
      (moreTokens join more ++ [.closeParen])))
  | .having field sub =>
    .having :: .literal field false :: .openParen :: (tokens sub ++ [.closeParen])
  | .aggregate field function op bound =>
    [.having, .literal function.name false, .openParen, .literal field false, .closeParen,
      .operator op.token, bound.token]

/-- The tokens of the members of a group behind the second one. -/
def moreTokens (join : Connective) : List Condition → List Token
  | [] => []
  | c :: cs => .operator join.operator.token :: (tokens c ++ moreTokens join cs)

end

/-! ## Its tokens in both layouts -/

variable {field : String} {ps : List Piece} {row : List Token} {op : Operator}

/-- A field that is a bare literal of its own, with nothing to trim. -/
def IsField (field : String) : Prop :=
  field ≠ "" ∧ trimmed field = field ∧
    (lexemes field.toList).map (List.map Lexeme.token) = .ok [.literal field false]

theorem IsField.isBare (h : IsField field) : Token.IsBare field.toList := by
  obtain ⟨-, htrim, hlexemes⟩ := h
  have htrim' : trim field.toList = field.toList := by
    rw [← String.toList_ofList (l := trim field.toList)]
    exact congrArg String.toList htrim
  cases hfound : lexemes field.toList with
  | error e =>
    rw [hfound] at hlexemes
    cases hlexemes
  | ok found =>
    rw [hfound] at hlexemes
    refine Token.isBare_of_scan htrim' (Token.lexemes_eq_ok_iff.1 hfound) ?_
    rw [String.ofList_toList]
    exact Except.ok.inj hlexemes

theorem stands_of_isBare {name : String} (h : Token.IsBare name.toList) :
    (Token.literal name false).Stands := by
  have hstands := (Token.ReadAs.bare h).stands
  rwa [String.ofList_toList] at hstands

theorem isBare_name (function : Aggregate) : Token.IsBare function.name.toList := by
  have hall : (function.name.toList.all fun c => c != Escape.mark && !Token.isDelimiter c) = true :=
    by cases function <;> decide
  have hplain : ∀ c ∈ function.name.toList, c ≠ Escape.mark ∧ Token.isDelimiter c = false := by
    simpa using hall
  exact (Token.unbroken_of_forall hplain).isBare (by cases function <;> decide)

theorem lays_field (hfield : IsField field) (hends : EndLiterals ps) (h : Lays ps row) :
    Lays (.text field.toList :: ps) (.literal field false :: row) :=
  h.literal (stands_of_isBare hfield.isBare) hends

theorem lays_value {v : Value} (hv : v.Spelled) (hends : EndLiterals ps) (h : Lays ps row) :
    Lays (.text v.literalText :: ps) (v.token :: row) := by
  rw [← v.spelling_token]
  exact h.literal (Value.readAs_token hv).stands hends

theorem lays_operator (op : Operator) (h : Lays ps row) :
    Lays (.operator op.token :: ps) (.operator op.token :: row) :=
  h.operator fun hrest => Token.reads_operator_token op hrest

theorem lays_having (h : Lays ps row) :
    Lays (.operator havingToken :: ps) (.having :: row) :=
  h.operator fun hrest => Token.reads_having hrest

theorem lays_values {vs : List Value} (hvs : ∀ v ∈ vs, v.Spelled) (hends : EndLiterals ps)
    (h : Lays ps row) : Lays (valuePieces vs ++ ps) (valueTokens vs ++ row) := by
  induction vs with
  | nil => exact h
  | cons v vs ih =>
    obtain ⟨hv, hvs⟩ := List.forall_mem_cons.1 hvs
    cases vs with
    | nil => exact lays_value hv hends h
    | cons w vs => exact lays_value hv endLiterals_separator (ih hvs).separator

theorem lays_list {vs : List Value} (hfield : IsField field) (hvs : ∀ v ∈ vs, v.Spelled)
    (h : Lays ps row) : Lays (listPieces field op vs ++ ps) (listTokens field op vs ++ row) := by
  have hclose := h.mark (c := ']') rfl
  have hvalues := lays_values hvs (endLiterals_mark (by decide) (by decide)) hclose
  have hlist := lays_field hfield (endLiterals_operator op)
    (lays_operator op (hvalues.mark (c := '[') rfl))
  simpa [listPieces, listTokens] using hlist

/-- What ends a literal behind a member of a group is the operator of the next member, or the
parenthesis that closes the group. -/
theorem endLiterals_morePieces (level : Nat) (join : Connective) (cs : List Condition)
    (hends : EndLiterals ps) : EndLiterals (morePieces level join cs ++ ps) := by
  cases cs with
  | nil => exact hends
  | cons c cs => exact (endLiterals_operator _).lineBreak _

mutual

/-- The pieces of a condition have its tokens in both layouts. -/
theorem lays_pieces : ∀ (c : Condition) (level : Nat) {ps : List Piece} {row : List Token},
    (∀ field ∈ c.fields, IsField field) → (∀ v ∈ c.values, v.Spelled) → EndLiterals ps →
      Lays ps row → Lays (c.pieces level ++ ps) (c.tokens ++ row)
  | .simple field op none, level, ps, row, hfields, hvalues, hends, h => by
    have hfield : IsField field := by simpa [fields] using hfields
    exact lays_field hfield (endLiterals_lastOperator op) (h.lastOperator op)
  | .simple field op (some v), level, ps, row, hfields, hvalues, hends, h => by
    have hfield : IsField field := by simpa [fields] using hfields
    have hv : v.Spelled := by simpa [values] using hvalues
    exact lays_field hfield (endLiterals_operator op) (lays_operator op (lays_value hv hends h))
  | .oneOf field vs, level, ps, row, hfields, hvalues, hends, h =>
    lays_list (by simpa [fields] using hfields) (by simpa [values] using hvalues) h
  | .noneOf field vs, level, ps, row, hfields, hvalues, hends, h =>
    lays_list (by simpa [fields] using hfields) (by simpa [values] using hvalues) h
  | .not c, level, ps, row, hfields, hvalues, hends, h =>
    lays_operator .not (lays_pieces c level hfields hvalues hends h)
  | .group join first second more, level, ps, row, hfields, hvalues, hends, h => by
    simp only [fields, values, List.forall_mem_append] at hfields hvalues
    -- From the right: the closing parenthesis, the members behind the second, the first two.
    have hparen : EndLiterals (.lineBreak level :: .text [')'] :: ps) :=
      (endLiterals_mark (by decide) (by decide)).lineBreak level
    have hclose := (h.mark (c := ')') rfl).lineBreak level
    have hmore := lays_morePieces join more level hfields.2 hvalues.2 hparen hclose
    have hsecond := lays_pieces second (level + 1) hfields.1.2 hvalues.1.2
      (endLiterals_morePieces level join more hparen) hmore
    have hjoin := (lays_operator join.operator hsecond).lineBreak (level + 1)
    have hfirst := lays_pieces first (level + 1) hfields.1.1 hvalues.1.1
      ((endLiterals_operator _).lineBreak _) hjoin
    have hopen := (hfirst.lineBreak (level + 1)).mark (c := '(') rfl
    simpa [pieces, tokens] using hopen
  | .having field sub, level, ps, row, hfields, hvalues, hends, h => by
    obtain ⟨hfield, hsub⟩ := List.forall_mem_cons.1 hfields
    have hclose := (h.mark (c := ')') rfl).lineBreak level
    have hinside := lays_pieces sub (level + 1) hsub hvalues
      ((endLiterals_mark (by decide) (by decide)).lineBreak level) hclose
    have hopen := (hinside.lineBreak (level + 1)).mark (c := '(') rfl
    have hall := lays_having
      (lays_field hfield (endLiterals_mark (by decide) (by decide)) hopen)
    simpa [pieces, tokens] using hall
  | .aggregate field function op bound, level, ps, row, hfields, hvalues, hends, h => by
    have hfield : IsField field := by simpa [fields] using hfields
    have hbound : bound.Spelled := by simpa [values] using hvalues
    have hcompared := lays_operator op (lays_value hbound hends h)
    have hclose := hcompared.mark (c := ')') rfl
    have hopen := (lays_field hfield (endLiterals_mark (by decide) (by decide)) hclose).mark
      (c := '(') rfl
    have hname := hopen.literal (stands_of_isBare (isBare_name function))
      (endLiterals_mark (by decide) (by decide))
    exact lays_having hname

theorem lays_morePieces (join : Connective) :
    ∀ (cs : List Condition) (level : Nat) {ps : List Piece} {row : List Token},
      (∀ field ∈ fieldsAll cs, IsField field) → (∀ v ∈ valuesAll cs, v.Spelled) →
        EndLiterals ps → Lays ps row →
          Lays (morePieces level join cs ++ ps) (moreTokens join cs ++ row)
  | [], level, ps, row, hfields, hvalues, hends, h => h
  | c :: cs, level, ps, row, hfields, hvalues, hends, h => by
    simp only [fieldsAll, valuesAll, List.forall_mem_append] at hfields hvalues
    have hrest := lays_morePieces join cs level hfields.2 hvalues.2 hends h
    have hmember := lays_pieces c (level + 1) hfields.1 hvalues.1
      (endLiterals_morePieces level join cs hends) hrest
    have hall := (lays_operator join.operator hmember).lineBreak (level + 1)
    simpa [morePieces, moreTokens] using hall

end

/-! ## The two texts -/

theorem lays_tokens {c : Condition} (hfields : ∀ field ∈ c.fields, IsField field)
    (hvalues : ∀ v ∈ c.values, v.Spelled) : Lays (c.pieces 0) c.tokens := by
  have h := lays_pieces c 0 hfields hvalues endLiterals_nil lays_nil
  rwa [List.append_nil, List.append_nil] at h

theorem exists_lexemes_of_reads {cs : List Char} (h : Token.Reads cs row) :
    ∃ found, lexemes (String.ofList cs).toList = .ok found ∧ found.map Lexeme.token = row := by
  obtain ⟨found, hscan, hrow⟩ := h 0
  rw [String.toList_ofList]
  exact ⟨found, Token.lexemes_eq_ok_iff.2 hscan, hrow⟩

theorem tokenize_of_lexemes {cs : List Char} {found : List Lexeme}
    (h : lexemes (String.ofList cs).toList = .ok found) :
    tokenize cs = .ok (found ++ [⟨.endOfInput, byteSize cs, byteSize cs⟩]) := by
  rw [String.toList_ofList] at h
  rw [tokenize, h]

/-- A comparison with a text that has one token is parsed as one with what the token denotes. -/
theorem parse_comparison_of_reads {limits : Limits} {text : List Char} {t : Token} {v : Value}
    (hfield : IsField field) (hop : op.takesValue = true) (hreads : Token.Reads text [t])
    (hvalue : Denotes zones op t v)
    (hlength : byteSize (field.toList ++ (op.token.toList ++ text)) ≤ limits.maxLength) :
    parse limits (String.ofList (field.toList ++ (op.token.toList ++ text))) zones =
      .ok (.simple field op (some v)) := by
  obtain ⟨found, hfound, htokens⟩ := exists_lexemes_of_reads
    (hfield.isBare.reads (Token.endsLiteral_operator_token op)
      (Token.reads_operator_token op hreads))
  have hderives : Derives zones .expression 0 (found.map Lexeme.token)
      (.simple field op (some v)) := by
    have hterm := Derives.comparison field false hop hvalue
    rw [hfield.2.1] at hterm
    rw [htokens, String.ofList_toList]
    exact .term hterm
  rw [parse_eq_filter (by rwa [String.toList_ofList]) hfound]
  exact (Context.accepts_of_derives hderives _ (Nat.zero_le _)).filter rfl

/-- What its tokens derive is parsed from the compact text of a condition. -/
theorem parse_compactText_of_derives {c d : Condition} {limits : Limits} {n : Nat}
    (hfields : ∀ field ∈ c.fields, IsField field) (hvalues : ∀ v ∈ c.values, v.Spelled)
    (hderives : Derives zones .expression n c.tokens d)
    (hlength : byteSize c.compactText ≤ limits.maxLength) (hdepth : n ≤ limits.maxDepth) :
    parse limits (String.ofList c.compactText) zones = .ok d := by
  obtain ⟨found, hfound, htokens⟩ := exists_lexemes_of_reads (lays_tokens hfields hvalues).compact
  rw [← htokens] at hderives
  have hparse : parse limits (String.ofList c.compactText) zones = _ :=
    parse_eq_filter (by rwa [String.toList_ofList]) hfound
  exact hparse.trans ((Context.accepts_of_derives hderives _ hdepth).filter rfl)

/-- **The two layouts have the same tokens.** If its fields are bare literals and its strings have
no quotes and no blanks but spaces, both texts of a condition are read as its tokens, whatever the
indentation. So either is parsed as a condition exactly if the other is parsed as the same one,
within every limit of nesting. The pretty text is what is printed, unless the indentation of a line
alone is as long as no text can be. -/
theorem tokenize_prettyText {c : Condition} (hfields : ∀ field ∈ c.fields, IsField field)
    (hvalues : ∀ v ∈ c.values, v.Spelled) (indent : Nat) :
    ∃ compact pretty, tokenize c.compactText = .ok compact ∧
      tokenize (c.prettyText indent) = .ok pretty ∧
      compact.map Lexeme.token = c.tokens ++ [.endOfInput] ∧
      pretty.map Lexeme.token = c.tokens ++ [.endOfInput] ∧
      (∀ (limits : Limits) (zones : Zone.Database), byteSize c.compactText ≤ limits.maxLength →
        byteSize (c.prettyText indent) ≤ limits.maxLength →
        ∀ d, parse limits (String.ofList c.compactText) zones = .ok d ↔
          parse limits (String.ofList (c.prettyText indent)) zones = .ok d) ∧
      (c.prettyPrint indent = .ok (c.prettyText indent) ∨
        UInt64.size / 2 ≤ c.deepestLine * indent) := by
  have hlays := lays_tokens hfields hvalues
  obtain ⟨found, hfound, htokens⟩ := exists_lexemes_of_reads hlays.compact
  obtain ⟨found', hfound', htokens'⟩ := exists_lexemes_of_reads (hlays.pretty indent true)
  have hsame : found.map Lexeme.token = found'.map Lexeme.token := htokens.trans htokens'.symm
  refine ⟨_, _, tokenize_of_lexemes hfound, tokenize_of_lexemes hfound', by simp [htokens],
    by simp [htokens'], ?_, ?_⟩
  · intro limits zones hlength hlength' d
    constructor
    · exact parse_eq_ok_of_map_token_eq hfound hfound' hsame.symm (by rwa [String.toList_ofList])
    · exact parse_eq_ok_of_map_token_eq hfound' hfound hsame (by rwa [String.toList_ofList])
  · by_cases hfits : c.deepestLine * indent < UInt64.size / 2
    · exact .inl (if_pos hfits)
    · exact .inr (Nat.not_lt.1 hfits)

/-- A group of four with a negation, an operator that ends its line and a list in a block. -/
theorem tokenize_prettyText_group :
    let c : Condition := .group .or (.not (.simple "a.b" .like (some (.string "(x y*"))))
      (.having "m" (.oneOf "t" [.string "12", .string "say$", .long (-5)]))
      [.simple "n" .null none, .aggregate "p" .sum .gte (.long 3)]
    String.ofList c.compactText = "($not:a.b$like:$(x$ y*" ++
      "$or:$having:m(t$in:[\"12\",say$$,-5])$or:n$null:$or:$having:SUM(p)$gte:3)" ∧
    String.ofList (c.prettyText 1) = "(\n $not: a.b $like: $(x$ y*\n $or: $having: m(\n" ++
      "  t $in: [\"12\", say$$, -5]\n )\n $or: n $null:\n $or: $having: SUM(p) $gte: 3\n)" ∧
    (∀ field ∈ c.fields, IsField field) ∧ (∀ v ∈ c.values, v.Spelled) ∧
    ∃ compact pretty, tokenize c.compactText = .ok compact ∧
      tokenize (c.prettyText 1) = .ok pretty ∧
      compact.map Lexeme.token = pretty.map Lexeme.token := by
  intro c
  have hfields : ∀ field ∈ c.fields, IsField field := by
    have hfield (field : String) (hmem : field ∈ ["a.b", "m", "t", "n", "p"]) : IsField field := by
      simp only [List.mem_cons, List.not_mem_nil, or_false] at hmem
      rcases hmem with rfl | rfl | rfl | rfl | rfl <;>
        exact ⟨by decide, by decide, by decide +kernel⟩
    exact hfield
  have hvalues : ∀ v ∈ c.values, v.Spelled := by
    have hstring (s : String) (hall : (s.toList.all fun d =>
        d != '"' && (!isBlank d || d == ' ')) = true) : (Value.string s).Spelled := by
      have hmem := List.all_eq_true.1 hall
      refine ⟨fun hquote => absurd (hmem _ hquote) (by decide), fun d hd hblank => ?_⟩
      simpa [hblank] using (Bool.and_eq_true_iff.1 (hmem d hd)).2
    have hall : ∀ v ∈ [Value.string "(x y*", .string "12", .string "say$", .long (-5), .long 3],
        v.Spelled := by
      simp only [List.forall_mem_cons]
      exact ⟨hstring _ (by decide), hstring _ (by decide), hstring _ (by decide), trivial, trivial,
        by simp⟩
    exact hall
  obtain ⟨compact, pretty, hcompact, hpretty, htokens, htokens', -⟩ :=
    tokenize_prettyText hfields hvalues 1
  exact ⟨by decide +kernel, by decide +kernel, hfields, hvalues, compact, pretty, hcompact, hpretty,
    htokens.trans htokens'.symm⟩

end Condition

end FilterQuery
