import FilterQuery.Proofs.ParseFaults
import FilterQuery.Proofs.Spacing

set_option autoImplicit false

/-! # Where errors are

The position of an error is a line and a column. Positions are in the order of the text: behind more
characters stands a later position (`Position.after_lt_append`), so that a position belongs to one
cut of the text between characters. The positions of errors are cuts in front of something: a token,
the end of the input, or the mark or quote at which the text cannot be read.

The parser raises errors at many places, some of them for tokens it has passed, and in a condition
on members the tokens end early. `Context.Blames` says of a parser that its errors are at tokens
which they speak of; one lemma for each parser leads up to the whole, and what a parser leaves of
its tokens is known from `Ends`. -/

namespace FilterQuery

open FilterQuery.Text

variable {zones : Zone.Database}

/-! ## The order of positions -/

/-- The offset of a cut between characters. -/
def Text.IsBoundary (source : List Char) (offset : Nat) : Prop :=
  ∃ before after, source = before ++ after ∧ offset = byteSize before

namespace Position

variable {p q r : Position} {source : List Char} {o o' : Nat}

/-- Line by line, and by columns in a line. -/
instance : LT Position := ⟨fun p q => p.line < q.line ∨ p.line = q.line ∧ p.column < q.column⟩

theorem lt_iff : p < q ↔ p.line < q.line ∨ p.line = q.line ∧ p.column < q.column := Iff.rfl

theorem lt_trans (h : p < q) (h' : q < r) : p < r := by
  rw [lt_iff] at *
  omega

theorem lt_asymm (h : p < q) : ¬ q < p := by
  rw [lt_iff] at *
  omega

theorem lt_irrefl (p : Position) : ¬ p < p := fun h => lt_asymm h h

/-- A character leads to the next line or the next column. -/
theorem after_lt_concat (before : List Char) (c : Char) : after before < after (before ++ [c]) := by
  by_cases hc : c = '\n'
  · exact .inl (by simp [after, hc])
  · exact .inr (by simp [after, hc])

theorem after_lt_append (before : List Char) {part : List Char} (hne : part ≠ []) :
    after before < after (before ++ part) := by
  induction part generalizing before with
  | nil => exact absurd rfl hne
  | cons c rest ih =>
    rw [List.append_cons]
    by_cases hrest : rest = []
    · simpa [hrest] using after_lt_concat before c
    · exact lt_trans (after_lt_concat before c) (ih (before ++ [c]) hrest)

theorem ofOffset_byteSize (before after : List Char) :
    ofOffset (before ++ after) (byteSize before) = Position.after before := by
  rw [ofOffset, textBefore, splitAtByte_byteSize]

theorem ofOffset_lt (h : IsBoundary source o) (h' : IsBoundary source o') (hlt : o < o') :
    ofOffset source o < ofOffset source o' := by
  obtain ⟨before, rest, rfl, rfl⟩ := h
  obtain ⟨before', rest', hsource, rfl⟩ := h'
  rcases List.append_eq_append_iff.1 hsource with ⟨part, rfl, -⟩ | ⟨part, rfl, -⟩
  · have hne : part ≠ [] := by
      rintro rfl
      simp at hlt
    rw [ofOffset_byteSize, hsource, ofOffset_byteSize]
    exact after_lt_append before hne
  · -- The second cut would be in front of the first.
    rw [byteSize_append] at hlt
    omega

/-- Cuts and their positions are in the same order. -/
theorem lt_iff_ofOffset_lt (h : IsBoundary source o) (h' : IsBoundary source o') :
    o < o' ↔ ofOffset source o < ofOffset source o' := by
  refine ⟨ofOffset_lt h h', fun hlt => ?_⟩
  rcases Nat.lt_trichotomy o o' with hless | rfl | hmore
  · exact hless
  · exact absurd hlt (lt_irrefl _)
  · exact absurd hlt (lt_asymm (ofOffset_lt h' h hmore))

/-- A position determines its cut. -/
theorem eq_of_ofOffset_eq (h : IsBoundary source o) (h' : IsBoundary source o')
    (heq : ofOffset source o = ofOffset source o') : o = o' := by
  have hless : ¬ o < o' := by
    rw [lt_iff_ofOffset_lt h h', heq]
    exact lt_irrefl _
  have hmore : ¬ o' < o := by
    rw [lt_iff_ofOffset_lt h' h, heq]
    exact lt_irrefl _
  omega

end Position

/-! ## Texts without tokens -/

namespace Token

variable {source cs : List Char} {fault : LexFault} {place offset : Nat}

/-- A fault is placed at its mark or its quote. -/
theorem faultAt_of_scan (h : scan offset cs = .error (fault, place)) :
    ∃ skipped, place = offset + skipped ∧ FaultAt fault skipped cs := by
  fun_induction scan offset cs with
  | case1 => cases h
  | case2 offset c rest hblank ih =>
    obtain ⟨skipped, rfl, before, mark, after, rfl, rfl, hmark⟩ := ih h
    refine ⟨c.utf8Size + byteSize before, by omega, c :: before, mark, after, rfl, ?_, hmark⟩
    rw [byteSize]
  | case3 offset c rest hblank fault' skipped hread =>
    cases h
    exact ⟨skipped, rfl, (faulty_of_readToken (by simpa using hblank) hread).2⟩
  | case4 offset c rest hblank token after hread stop hlength e herror =>
    rename_i ih
    cases h
    obtain ⟨skipped, rfl, before, mark, behind, rfl, rfl, hmark⟩ := ih herror
    obtain ⟨hspelling, -⟩ := readToken_spelling hread
    refine ⟨byteSize token.spelling + byteSize before, by omega, token.spelling ++ before, mark,
      behind, ?_, (byteSize_append _ _).symm, hmark⟩
    rw [← hspelling, List.append_assoc]
  | case5 => cases h

theorem FaultAt.isBoundary (h : FaultAt fault place source) : IsBoundary source place := by
  obtain ⟨before, mark, after, hsource, hplace, -⟩ := h
  exact ⟨before, mark :: after, hsource, hplace⟩

end Token

/-! ## Tokens with their errors -/

/-- What an error says of the token that it is at: it shows the token or the text of it, or the
tokens end there. -/
def ParseError.concerns (maxDepth : Nat) (token : Token) : ParseError → Prop
  | .unexpectedToken found _ _ => found = token
  | .unexpectedEnd _ _ => token = .endOfInput ∨ token = .closeParen
  | .unknownOperator text _ => token = .operator text
  | .unknownValueType literal _ | .dateTime literal _ _ =>
    ∃ raw quoted, token = .literal raw quoted ∧ literal = trimmed raw
  | .tooDeep max _ => max = maxDepth
  | .lex _ | .tooLong .. => False

namespace Condition

theorem Ends.of_ok {α : Type} {all : List Lexeme} {P : α → Prop} {x : Parse α} {a : α}
    (h : Ends all P x) (hx : x = .ok a) : P a := by
  cases h with
  | result h =>
    cases hx
    exact h
  | error e => cases hx
  | fault => cases hx

namespace Context

variable {ctx : Context} {op : Operator} {stop : Nat} {tokens all : List Lexeme} {term : TermParser}
  {α β : Type}

/-- The error is at the token. -/
def BlamedOn (ctx : Context) (e : ParseError) (lexeme : Lexeme) : Prop :=
  e.position? = some (ctx.position lexeme.start) ∧ e.concerns ctx.maxDepth lexeme.token

/-- A parser of some of the tokens raises errors at tokens. -/
def Blames (ctx : Context) (all : List Lexeme) (x : Parse α) : Prop :=
  ∀ e, x = refuse e → ∃ lexeme ∈ all, ctx.BlamedOn e lexeme

/-- The tokens in front of a parser end where a token starts that ends a filter. -/
def StopsAt (all : List Lexeme) (stop : Nat) : Prop :=
  ∃ lexeme ∈ all, lexeme.start = stop ∧
    (lexeme.token = .endOfInput ∨ lexeme.token = .closeParen)

theorem blames_ok (a : α) : ctx.Blames all (.ok a : Parse α) := by
  intro e h
  cases h

theorem blames_refuse {e : ParseError} {lexeme : Lexeme} (hmem : lexeme ∈ all)
    (h : ctx.BlamedOn e lexeme) : ctx.Blames all (refuse e : Parse α) := by
  intro e' h'
  cases h'
  exact ⟨lexeme, hmem, h⟩

theorem Blames.bind {x : Parse α} {f : α → Parse β} (hx : ctx.Blames all x)
    (hf : ∀ a, x = .ok a → ctx.Blames all (f a)) : ctx.Blames all (x >>= f) := by
  cases x with
  | error failure =>
    intro e h
    cases h
    exact hx e rfl
  | ok a => exact hf a rfl

theorem mem_of_cons {lexeme : Lexeme} (h : lexeme :: tokens <:+: all) : lexeme ∈ all :=
  h.subset List.mem_cons_self

theorem blames_unexpected {expected : Expected} (hstop : StopsAt all stop)
    (h : tokens <:+: all) : ctx.Blames all (ctx.unexpected expected stop tokens : Parse α) := by
  cases tokens with
  | nil =>
    obtain ⟨lexeme, hmem, rfl, hends⟩ := hstop
    exact blames_refuse hmem ⟨rfl, hends⟩
  | cons lexeme rest => exact blames_refuse (mem_of_cons h) ⟨rfl, rfl⟩

theorem blames_expect {token : Token} (hstop : StopsAt all stop) (h : tokens <:+: all) :
    ctx.Blames all (ctx.expect token stop tokens) := by
  cases tokens with
  | nil => exact blames_unexpected hstop h
  | cons lexeme rest =>
    rw [expect]
    split_ifs
    · exact blames_ok rest
    · exact blames_unexpected hstop h

theorem blames_operator (hstop : StopsAt all stop) (h : tokens <:+: all) :
    ctx.Blames all (ctx.operator stop tokens) := by
  cases tokens with
  | nil => exact blames_unexpected hstop h
  | cons lexeme rest =>
    simp only [operator]
    split
    · next text htext =>
      split
      · exact blames_ok _
      · exact blames_refuse (mem_of_cons h) ⟨rfl, htext⟩
    · exact blames_unexpected hstop h

/-! ### Values -/

theorem blames_literalError {raw : String} {quoted : Bool} {start stop' : Nat}
    (hmem : ⟨.literal raw quoted, start, stop'⟩ ∈ all) (e : LiteralError) :
    ctx.Blames all (refuse (ctx.literalError (trim raw.toList) start e) : Parse α) := by
  cases e with
  | unknownValueType => exact blames_refuse hmem ⟨rfl, raw, quoted, rfl, rfl⟩
  | dateTime e => exact blames_refuse hmem ⟨rfl, raw, quoted, rfl, rfl⟩

theorem blames_literalValue {raw : String} {quoted : Bool} {start stop' : Nat}
    (hmem : ⟨.literal raw quoted, start, stop'⟩ ∈ all) :
    ctx.Blames all (ctx.literalValue op raw quoted start) := by
  simp only [literalValue]
  split
  · exact blames_ok _
  · next failure _ =>
    cases failure with
    | error e => exact blames_literalError hmem e
    | fault f =>
      intro e h
      cases h

theorem blames_value (hstop : StopsAt all stop) (h : tokens <:+: all) :
    ctx.Blames all (ctx.value op stop tokens) := by
  unfold value
  split
  · exact (blames_literalValue (mem_of_cons h)).bind fun v _ => blames_ok _
  · exact blames_unexpected hstop h

theorem blames_moreValues (hstop : StopsAt all stop) (h : tokens <:+: all) :
    ctx.Blames all (ctx.moreValues op stop tokens) := by
  fun_induction moreValues ctx op stop tokens with
  | case1 start stop' raw quoted start' stop'' rest ih =>
    have hrest := infix_of_cons h
    refine (blames_literalValue (mem_of_cons hrest)).bind fun v _ => ?_
    exact (ih (infix_of_cons hrest)).bind fun r _ => blames_ok _
  | case2 => exact blames_unexpected hstop (infix_of_cons h)
  | case3 => exact blames_ok _

theorem blames_valueList (hstop : StopsAt all stop) (h : tokens <:+: all) :
    ctx.Blames all (ctx.valueList op stop tokens) := by
  refine (blames_expect hstop h).bind fun rest hrest => ?_
  obtain ⟨bracket, hbracket, hinfix⟩ := (ends_expect h).of_ok hrest
  refine (blames_value hstop (infix_of_cons hinfix)).bind fun r hr => ?_
  have hleft := (ends_value (by rw [hbracket]; rfl) hinfix).of_ok hr
  refine (blames_moreValues hstop hleft).bind fun r' hr' => ?_
  exact (blames_expect hstop ((ends_moreValues hleft).of_ok hr')).bind fun _ _ => blames_ok _

theorem blames_predicate {field : String} (hstop : StopsAt all stop) (h : tokens <:+: all) :
    ctx.Blames all (ctx.predicate field stop tokens) := by
  refine (blames_operator hstop h).bind fun r hr => ?_
  obtain ⟨-, hinfix⟩ := (ends_operator h).of_ok hr
  obtain ⟨⟨op, lexeme⟩, rest⟩ := r
  have hrest := infix_of_cons hinfix
  have hcompares : ctx.Blames all (ctx.notComparison lexeme : Parse (Condition × List Lexeme)) :=
    blames_refuse (mem_of_cons hinfix) ⟨rfl, rfl⟩
  simp only
  split
  · exact blames_ok _
  · exact blames_ok _
  · exact (blames_valueList hstop hrest).bind fun _ _ => blames_ok _
  · exact (blames_valueList hstop hrest).bind fun _ _ => blames_ok _
  · exact hcompares
  · exact hcompares
  · exact hcompares
  · exact (blames_value hstop hrest).bind fun _ _ => blames_ok _

/-! ### Terms -/

/-- A parser of terms raises errors at tokens, whichever part of them it has in front. -/
structure BlamesTerms (ctx : Context) (all : List Lexeme) (term : TermParser) : Prop where
  ends : EndsTerms all term
  blames : ∀ stop tokens, StopsAt all stop → tokens <:+: all → ctx.Blames all (term stop tokens)

theorem blames_chain (hterm : ctx.BlamesTerms all term) (hstop : StopsAt all stop) (fuel : Nat)
    (left : Condition) (h : tokens <:+: all) :
    ctx.Blames all (chain term stop fuel left tokens) := by
  induction fuel generalizing left tokens with
  | zero => exact blames_ok _
  | succ fuel ih =>
    rw [chain]
    split
    · exact blames_ok _
    · next join rest hjoin =>
      obtain ⟨lexeme, rfl, -⟩ := connective?_eq_some_iff.1 hjoin
      have hrest := infix_of_cons h
      exact (hterm.blames _ _ hstop hrest).bind fun r hr =>
        ih _ ((hterm.ends _ _ hrest).of_ok hr)

theorem blamesTerms_expression (hterm : ctx.BlamesTerms all term) :
    ctx.BlamesTerms all (expression term) := by
  refine ⟨endsTerms_expression hterm.ends, fun stop tokens hstop h => ?_⟩
  exact (hterm.blames _ _ hstop h).bind fun r hr =>
    blames_chain hterm hstop _ _ ((hterm.ends _ _ h).of_ok hr)

theorem blames_filter (hterm : ctx.BlamesTerms all term) (hstop : StopsAt all stop)
    (h : tokens <:+: all) : ctx.Blames all (ctx.filter term stop tokens) := by
  have hexpression := blamesTerms_expression hterm
  refine (hexpression.blames _ _ hstop h).bind fun r hr => ?_
  have hleft : r.2 <:+: all := (hexpression.ends _ _ h).of_ok hr
  obtain ⟨c, rest⟩ := r
  cases rest with
  | nil => exact blames_ok _
  | cons lexeme rest => exact blames_unexpected hstop hleft

/-- The tokens of an inner filter end at the closing parenthesis, which is one of all tokens. -/
theorem blames_havingFilter {field : String} (hterm : ctx.BlamesTerms all term)
    (hstop : StopsAt all stop) (h : tokens <:+: all) :
    ctx.Blames all (ctx.havingFilter term field stop tokens) := by
  refine (blames_expect hstop h).bind fun rest hrest => ?_
  obtain ⟨opening, -, hinfix⟩ := (ends_expect h).of_ok hrest
  split
  · exact blames_unexpected hstop List.nil_infix
  · next inside close after hclosing =>
    obtain ⟨rfl, hclose⟩ := eq_of_closing? hclosing
    have hall := infix_of_cons hinfix
    have hinside : inside <:+: all := (List.prefix_append inside _).isInfix.trans hall
    have hbehind : close :: after <:+: all := (List.suffix_append inside _).isInfix.trans hall
    have hends : StopsAt all close.start := ⟨close, mem_of_cons hbehind, rfl, .inr hclose⟩
    exact (blames_filter hterm hends hinside).bind fun _ _ => blames_ok _

theorem blames_aggregateBound {function : Aggregate} {field : String} (hstop : StopsAt all stop)
    (h : tokens <:+: all) : ctx.Blames all (ctx.aggregateBound function field stop tokens) := by
  refine (blames_operator hstop h).bind fun r hr => ?_
  obtain ⟨-, hinfix⟩ := (ends_operator h).of_ok hr
  obtain ⟨⟨op, lexeme⟩, rest⟩ := r
  have hrest := infix_of_cons hinfix
  simp only
  split
  · exact blames_refuse (mem_of_cons hinfix) ⟨rfl, rfl⟩
  · split
    · split
      · split
        · exact blames_ok _
        · exact blames_literalError (mem_of_cons hrest) _
      · exact blames_unexpected hstop hrest
    · exact blames_unexpected hstop hrest

theorem blames_having (hterm : ctx.BlamesTerms all term) (hstop : StopsAt all stop)
    (h : tokens <:+: all) : ctx.Blames all (ctx.having term stop tokens) := by
  unfold Context.having
  split
  · have hrest := infix_of_cons h
    simp only
    split
    · exact blames_aggregateBound hstop (infix_of_cons (infix_of_cons (infix_of_cons hrest)))
    · exact blames_havingFilter hterm hstop hrest
  · exact blames_unexpected hstop h

theorem blames_enter {inner : Option TermParser} (hstop : StopsAt all stop) (h : tokens <:+: all) :
    ctx.Blames all (ctx.enter inner stop tokens) := by
  cases inner with
  | some term => exact blames_ok term
  | none =>
    cases tokens with
    | nil =>
      obtain ⟨lexeme, hmem, rfl, -⟩ := hstop
      exact blames_refuse hmem ⟨rfl, rfl⟩
    | cons lexeme rest => exact blames_refuse (mem_of_cons h) ⟨rfl, rfl⟩

theorem blamesTerms_termAt {inner : Option TermParser}
    (hinner : ∀ term ∈ inner, ctx.BlamesTerms all term) :
    ctx.BlamesTerms all (ctx.termAt inner) := by
  refine ⟨endsTerms_termAt fun term hterm => (hinner term hterm).ends, ?_⟩
  intro stop tokens hstop h
  unfold termAt
  split
  · split_ifs
    · have hrest := infix_of_cons h
      refine (blames_enter hstop hrest).bind fun term hterm => ?_
      have hterm := hinner term (enter_eq_ok_iff.1 hterm)
      exact (hterm.blames _ _ hstop hrest).bind fun _ _ => blames_ok _
    · exact blames_unexpected hstop h
  · have hrest := infix_of_cons h
    refine (blames_enter hstop hrest).bind fun term hterm => ?_
    have hexpression := blamesTerms_expression (hinner term (enter_eq_ok_iff.1 hterm))
    refine (hexpression.blames _ _ hstop hrest).bind fun r hr => ?_
    exact (blames_expect hstop ((hexpression.ends _ _ hrest).of_ok hr)).bind fun _ _ => blames_ok _
  · have hrest := infix_of_cons h
    refine (blames_enter hstop hrest).bind fun term hterm => ?_
    exact blames_having (hinner term (enter_eq_ok_iff.1 hterm)) hstop hrest
  · exact blames_predicate hstop (infix_of_cons h)
  · exact blames_unexpected hstop h

theorem blamesTerms_term (levels : Nat) : ctx.BlamesTerms all (ctx.term levels) := by
  induction levels with
  | zero => exact blamesTerms_termAt (by simp)
  | succ levels ih =>
    refine blamesTerms_termAt fun term hterm => ?_
    obtain rfl := Option.mem_some_iff.1 hterm
    exact ih

end Context

/-! ## Filters -/

variable {limits : Limits} {source : String} {e : ParseError}

theorem isBoundary_of_mem_tokenize {cs : List Char} {tokens : List Lexeme}
    (h : tokenize cs = .ok tokens) : ∀ lexeme ∈ tokens, IsBoundary cs lexeme.start := by
  unfold tokenize at h
  split at h
  · cases h
  · next row hrow =>
    cases h
    intro lexeme hmem
    rcases List.mem_append.1 hmem with hmem | hmem
    · obtain ⟨before, after, hsource, hstart, -⟩ :=
        Token.place_of_mem_scan (Token.lexemes_eq_ok_iff.1 hrow) lexeme hmem
      exact ⟨before, lexeme.token.spelling ++ after, hsource, by omega⟩
    · obtain rfl := List.mem_singleton.1 hmem
      exact ⟨cs, [], by simp, rfl⟩

/-- A text without tokens has an error at its fault. -/
theorem exists_faultAt_of_lexemes {cs : List Char} {e : LexError} (h : lexemes cs = .error e) :
    ∃ o, e.position = Position.ofOffset cs o ∧ Token.FaultAt e.cause o cs := by
  unfold lexemes at h
  split at h
  · next cause place hscan =>
    cases h
    obtain ⟨skipped, rfl, hfault⟩ := Token.faultAt_of_scan hscan
    rw [Nat.zero_add]
    exact ⟨skipped, rfl, hfault⟩
  · cases h

/-- A text with tokens has an error at one of them, or at the end of the input. -/
theorem exists_blamedOn_of_parse {row : List Lexeme} (hrow : lexemes source.toList = .ok row)
    (hlength : byteSize source.toList ≤ limits.maxLength)
    (h : parse limits source zones = refuse e) :
    ∃ tokens, tokenize source.toList = .ok tokens ∧
      ∃ lexeme ∈ tokens, Context.BlamedOn ⟨source.toList, limits.maxDepth, zones⟩ e lexeme := by
  let stop : Lexeme := ⟨.endOfInput, byteSize source.toList, byteSize source.toList⟩
  refine ⟨row ++ [stop], by simp only [tokenize, hrow, stop], ?_⟩
  have hstop : Context.StopsAt (row ++ [stop]) (byteSize source.toList) :=
    ⟨stop, by simp, rfl, .inl rfl⟩
  rw [parse_eq_filter hlength hrow] at h
  exact Context.blames_filter (Context.blamesTerms_term _) hstop
    (List.prefix_append row _).isInfix e h

/-- **Errors point into the text.** Positions are in the order of the cuts that they belong to, and
each belongs to one. An error of a filter, unless the filter is too long, has the position of a
token that it speaks of, or of the mark or quote that cannot be read; in a condition on members too,
where the tokens end at the closing parenthesis. -/
theorem position_of_parse_error (source : String) :
    (∀ o o', IsBoundary source.toList o → IsBoundary source.toList o' →
      (o < o' ↔ Position.ofOffset source.toList o < Position.ofOffset source.toList o') ∧
      (Position.ofOffset source.toList o = Position.ofOffset source.toList o' → o = o')) ∧
    ∀ limits zones e, parse limits source zones = refuse e →
      (∃ length max, e = .tooLong length max) ∨
      ∃ o, IsBoundary source.toList o ∧
        e.position? = some (Position.ofOffset source.toList o) ∧
        ((∃ tokens, tokenize source.toList = .ok tokens ∧
            ∃ lexeme ∈ tokens, lexeme.start = o ∧ e.concerns limits.maxDepth lexeme.token) ∨
          ∃ fault position, e = .lex ⟨fault, position⟩ ∧
            Token.FaultAt fault o source.toList) := by
  refine ⟨fun o o' h h' => ⟨Position.lt_iff_ofOffset_lt h h', Position.eq_of_ofOffset_eq h h'⟩, ?_⟩
  intro limits zones e h
  by_cases hlength : limits.maxLength < byteSize source.toList
  · simp only [parse, if_pos hlength] at h
    cases h
    exact .inl ⟨_, _, rfl⟩
  · right
    cases hrow : lexemes source.toList with
    | error lexError =>
      simp only [parse, if_neg hlength, hrow] at h
      cases h
      obtain ⟨o, hposition, hfault⟩ := exists_faultAt_of_lexemes hrow
      exact ⟨o, hfault.isBoundary, congrArg some hposition, .inr ⟨_, _, rfl, hfault⟩⟩
    | ok row =>
      obtain ⟨tokens, htokens, lexeme, hmem, hposition, hconcerns⟩ :=
        exists_blamedOn_of_parse hrow (Nat.not_lt.1 hlength) h
      exact ⟨lexeme.start, isBoundary_of_mem_tokenize htokens lexeme hmem, hposition,
        .inl ⟨tokens, htokens, lexeme, hmem, rfl, hconcerns⟩⟩

/-- An empty condition on members, inside another one, on the second line. -/
def emptyHaving : String := "é$eq:ü$and:\n$having:bs($having:cs())"

/-- The error is at the inner closing parenthesis, at byte 36 and in column 22. -/
theorem position_of_emptyHaving :
    IsBoundary emptyHaving.toList 36 ∧ IsBoundary emptyHaving.toList 37 ∧
    parse {} emptyHaving = refuse (.unexpectedEnd .term ⟨2, 22⟩) ∧
    Position.ofOffset emptyHaving.toList 36 < Position.ofOffset emptyHaving.toList 37 ∧
    ∃ tokens, tokenize emptyHaving.toList = .ok tokens ∧
      ∃ lexeme ∈ tokens, lexeme.start = 36 ∧
        (lexeme.token = .endOfInput ∨ lexeme.token = .closeParen) := by
  have hinner : IsBoundary emptyHaving.toList 36 :=
    ⟨emptyHaving.toList.take 34, [')', ')'], by decide, by decide⟩
  have houter : IsBoundary emptyHaving.toList 37 :=
    ⟨emptyHaving.toList.take 35, [')'], by decide, by decide⟩
  have hrun : ((parse {} emptyHaving).map fun _ => ()) =
      refuse (.unexpectedEnd .term ⟨2, 22⟩) := by decide +kernel
  have hparse : parse {} emptyHaving = refuse (.unexpectedEnd .term ⟨2, 22⟩) :=
    map_eq_error_iff.1 hrun
  obtain ⟨horder, herror⟩ := position_of_parse_error emptyHaving
  refine ⟨hinner, houter, hparse, (horder 36 37 hinner houter).1.1 (by decide), ?_⟩
  rcases herror _ _ _ hparse with ⟨length, max, htooLong⟩ | ⟨o, hboundary, hposition, hplace⟩
  · cases htooLong
  · -- The position is that of byte 36, and of no other.
    have ho : Position.ofOffset emptyHaving.toList o = Position.ofOffset emptyHaving.toList 36 :=
      (Option.some.inj hposition).symm.trans (by decide)
    obtain rfl := (horder o 36 hboundary hinner).2 ho
    rcases hplace with ⟨tokens, htokens, lexeme, hmem, hstart, hends⟩ | ⟨fault, position, hlex, -⟩
    · exact ⟨tokens, htokens, lexeme, hmem, hstart, hends⟩
    · cases hlex

end Condition

end FilterQuery
