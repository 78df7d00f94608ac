import FilterQuery.Proofs.LiteralFaults
import FilterQuery.Proofs.Parse

set_option autoImplicit false

/-! # What stops the parser

A parser returns a condition or an error, or it stops with a fault. `Ends` says of a parser that it
stops at one kind of literal only, and that what it leaves of the tokens is a part of them; one
lemma for each parser leads up to the whole. The literal is a value whose offset splits a character
(`SplitsOffset`). Tokens, for their part, are cut out of the source where their spans say. -/

namespace FilterQuery

open FilterQuery.Text

variable {zones : Zone.Database}

/-! ## Tokens in their places -/

namespace Token

variable {cs : List Char} {found : List Lexeme} {offset : Nat}

/-- A token stands where its span says. -/
theorem place_of_mem_scan (h : scan offset cs = .ok found) :
    ∀ lexeme ∈ found, ∃ before after, cs = before ++ (lexeme.token.spelling ++ after) ∧
      lexeme.start = offset + byteSize before ∧
      lexeme.stop = lexeme.start + byteSize lexeme.token.spelling := by
  fun_induction scan offset cs generalizing found with
  | case1 offset =>
    cases h
    simp
  | case2 offset c rest hblank ih =>
    intro lexeme hmem
    obtain ⟨before, after, rfl, hstart, hstop⟩ := ih h lexeme hmem
    refine ⟨c :: before, after, rfl, ?_, hstop⟩
    rw [hstart, byteSize]
    omega
  | case3 => cases h
  | case4 => cases h
  | case5 offset c rest hblank token after hread stop hlength lexemes hrest =>
    rename_i ih
    cases h
    obtain ⟨hspelling, -⟩ := readToken_spelling hread
    intro lexeme hmem
    rcases List.mem_cons.1 hmem with rfl | hmem
    · exact ⟨[], after, hspelling.symm, rfl, rfl⟩
    · obtain ⟨before, after', rfl, hstart, hstop⟩ := ih hrest lexeme hmem
      refine ⟨token.spelling ++ before, after', ?_, ?_, hstop⟩
      · rw [← hspelling, List.append_assoc]
      · rw [hstart, byteSize_append]
        omega

/-- What a span cuts out of the text is how the token is written. -/
theorem slice_of_mem_scan (h : scan 0 cs = .ok found) :
    ∀ lexeme ∈ found, slice lexeme.start lexeme.stop cs = .ok lexeme.token.spelling := by
  intro lexeme hmem
  obtain ⟨before, after, hsource, hstart, hstop⟩ := place_of_mem_scan h lexeme hmem
  rw [hstop, hstart, Nat.zero_add, hsource]
  exact slice_append before lexeme.token.spelling after

/-- Tokens come in the order of their places. -/
theorem pairwise_scan (h : scan offset cs = .ok found) :
    found.Pairwise fun a b => a.start ≤ b.start := by
  fun_induction scan offset cs generalizing found with
  | case1 offset =>
    cases h
    exact .nil
  | case2 offset c rest hblank ih => exact ih h
  | case3 => cases h
  | case4 => cases h
  | case5 offset c rest hblank token after hread stop hlength lexemes hrest =>
    rename_i ih
    cases h
    refine .cons (fun lexeme hmem => ?_) (ih hrest)
    obtain ⟨before, after', -, hstart, -⟩ := place_of_mem_scan hrest lexeme hmem
    show offset ≤ lexeme.start
    omega

/-- What may stand in front of a value. -/
def introducesValue : Token → Bool
  | .operator _ | .openBracket | .comma => true
  | _ => false

end Token

namespace Condition

/-! ## Parsers -/

/-- A literal stands where a value is read, and its offset splits a character. -/
def SplitsValue (all : List Lexeme) : Prop :=
  ∃ mark raw start stop, [mark, ⟨.literal raw false, start, stop⟩] <:+: all ∧
    mark.token.introducesValue = true ∧ SplitsOffset (trim raw.toList)

/-- A parser of some of the tokens returns a result or an error, or it stops at a literal. -/
inductive Ends {α : Type} (all : List Lexeme) (P : α → Prop) : Parse α → Prop
  | result {a : α} (h : P a) : Ends all P (.ok a)
  | error (e : ParseError) : Ends all P (refuse e)
  | fault (h : SplitsValue all) : Ends all P (stopWith .splitCharacter)

theorem Ends.bind {α β : Type} {all : List Lexeme} {P : α → Prop} {Q : β → Prop}
    {x : Parse α} {f : α → Parse β} (hx : Ends all P x) (hf : ∀ a, P a → Ends all Q (f a)) :
    Ends all Q (x >>= f) := by
  cases hx with
  | result h => exact hf _ h
  | error e => exact .error e
  | fault h => exact .fault h

namespace Context

variable {ctx : Context} {op : Operator} {stop : Nat} {tokens all : List Lexeme} {term : TermParser}

/-- What is left of the tokens is a part of them. -/
def Leaves {α : Type} (all : List Lexeme) (r : α × List Lexeme) : Prop := r.2 <:+: all

theorem infix_of_cons {mark : Lexeme} (h : mark :: tokens <:+: all) : tokens <:+: all :=
  (List.infix_cons List.infix_rfl).trans h

theorem ends_unexpected {α : Type} {P : α → Prop} {expected : Expected} :
    Ends all P (ctx.unexpected expected stop tokens) := by
  cases tokens with
  | nil => exact .error _
  | cons lexeme rest => exact .error _

theorem ends_expect {token : Token} (h : tokens <:+: all) :
    Ends all (fun rest => ∃ lexeme, lexeme.token = token ∧ lexeme :: rest <:+: all)
      (ctx.expect token stop tokens) := by
  cases tokens with
  | nil => exact .error _
  | cons lexeme rest =>
    by_cases htoken : lexeme.token = token
    · rw [expect, if_pos htoken]
      exact .result ⟨lexeme, htoken, h⟩
    · rw [expect, if_neg htoken]
      exact ends_unexpected

theorem ends_operator (h : tokens <:+: all) :
    Ends all (fun r => r.1.2.token.introducesValue = true ∧ r.1.2 :: r.2 <:+: all)
      (ctx.operator stop tokens) := by
  cases tokens with
  | nil => exact .error _
  | cons lexeme rest =>
    simp only [operator]
    split
    · next text htext =>
      -- An operator introduces a value whether it takes one or not.
      split
      · exact .result ⟨by rw [htext]; rfl, h⟩
      · exact .error _
    · exact ends_unexpected

/-- A value is read from a literal. -/
theorem ends_literalValue {mark : Lexeme} {raw : String} {quoted : Bool} {start stop' : Nat}
    {rest : List Lexeme} (hmark : mark.token.introducesValue = true)
    (h : mark :: ⟨.literal raw quoted, start, stop'⟩ :: rest <:+: all) :
    Ends all (fun _ => True) (ctx.literalValue op raw quoted start) := by
  simp only [literalValue]
  split
  · exact .result trivial
  · next e he =>
    cases e with
    | error e => exact .error _
    | fault f =>
      obtain ⟨rfl, rfl, hsplits⟩ := Literal.coerce_eq_stopWith_iff.1 he
      refine .fault ⟨mark, raw, start, stop', ?_, hmark, hsplits⟩
      exact (List.prefix_append [mark, ⟨.literal raw false, start, stop'⟩] rest).isInfix.trans h

theorem ends_value {mark : Lexeme} (hmark : mark.token.introducesValue = true)
    (h : mark :: tokens <:+: all) : Ends all (Leaves all) (ctx.value op stop tokens) := by
  unfold value
  split
  · exact (ends_literalValue hmark h).bind fun v _ => .result (infix_of_cons (infix_of_cons h))
  · exact ends_unexpected

theorem ends_moreValues (h : tokens <:+: all) :
    Ends all (Leaves all) (ctx.moreValues op stop tokens) := by
  fun_induction moreValues ctx op stop tokens with
  | case1 start stop' raw quoted start' stop'' rest ih =>
    refine (ends_literalValue rfl h).bind fun v _ => ?_
    exact (ih (infix_of_cons (infix_of_cons h))).bind fun r hr => .result hr
  | case2 => exact ends_unexpected
  | case3 => exact .result h

theorem ends_valueList (h : tokens <:+: all) :
    Ends all (Leaves all) (ctx.valueList op stop tokens) := by
  refine (ends_expect h).bind fun rest hrest => ?_
  obtain ⟨bracket, hbracket, hinfix⟩ := hrest
  refine (ends_value (by rw [hbracket]; rfl) hinfix).bind fun r hr => ?_
  refine (ends_moreValues hr).bind fun r' hr' => ?_
  refine (ends_expect hr').bind fun rest' hrest' => ?_
  obtain ⟨bracket', -, hinfix'⟩ := hrest'
  exact .result (infix_of_cons hinfix')

theorem ends_predicate {field : String} (h : tokens <:+: all) :
    Ends all (Leaves all) (ctx.predicate field stop tokens) := by
  refine (ends_operator h).bind fun r hr => ?_
  obtain ⟨⟨op, lexeme⟩, rest⟩ := r
  obtain ⟨hmark, hinfix⟩ := hr
  have hrest := infix_of_cons hinfix
  simp only
  split
  · exact .result hrest
  · exact .result hrest
  · exact (ends_valueList hrest).bind fun r hr => .result hr
  · exact (ends_valueList hrest).bind fun r hr => .result hr
  · exact .error _
  · exact .error _
  · exact .error _
  · exact (ends_value hmark hinfix).bind fun r hr => .result hr

/-! ### Terms -/

/-- A parser of terms ends so on all parts of the tokens. -/
def EndsTerms (all : List Lexeme) (term : TermParser) : Prop :=
  ∀ stop tokens, tokens <:+: all → Ends all (Leaves all) (term stop tokens)

theorem ends_chain (hterm : EndsTerms all term) (fuel : Nat) (left : Condition)
    (h : tokens <:+: all) : Ends all (Leaves all) (chain term stop fuel left tokens) := by
  induction fuel generalizing left tokens with
  | zero => exact .result h
  | succ fuel ih =>
    rw [chain]
    split
    · exact .result h
    · next join rest hjoin =>
      obtain ⟨lexeme, rfl, -⟩ := connective?_eq_some_iff.1 hjoin
      exact (hterm _ _ (infix_of_cons h)).bind fun _ hr => ih _ hr

theorem endsTerms_expression (hterm : EndsTerms all term) : EndsTerms all (expression term) :=
  fun stop tokens h => (hterm stop tokens h).bind fun _ hr => ends_chain hterm _ _ hr

theorem ends_filter (hterm : EndsTerms all term) (h : tokens <:+: all) :
    Ends all (fun _ => True) (ctx.filter term stop tokens) := by
  refine (endsTerms_expression hterm _ _ h).bind fun r hr => ?_
  obtain ⟨c, rest⟩ := r
  cases rest with
  | nil => exact .result trivial
  | cons lexeme rest => exact ends_unexpected

theorem ends_havingFilter {field : String} (hterm : EndsTerms all term) (h : tokens <:+: all) :
    Ends all (Leaves all) (ctx.havingFilter term field stop tokens) := by
  refine (ends_expect h).bind fun rest hrest => ?_
  obtain ⟨opening, -, hinfix⟩ := hrest
  have hrest := infix_of_cons hinfix
  split
  · exact ends_unexpected
  · next inside close after hclosing =>
    obtain ⟨rfl, -⟩ := eq_of_closing? hclosing
    -- The inner filter has tokens of its own, a part of all of them.
    have hinside : inside <:+: all := (List.prefix_append inside _).isInfix.trans hrest
    refine (ends_filter hterm hinside).bind fun sub _ => ?_
    exact .result (infix_of_cons ((List.suffix_append inside _).isInfix.trans hrest))

theorem ends_aggregateBound {function : Aggregate} {field : String} (h : tokens <:+: all) :
    Ends all (Leaves all) (ctx.aggregateBound function field stop tokens) := by
  refine (ends_operator h).bind fun r hr => ?_
  obtain ⟨⟨op, lexeme⟩, rest⟩ := r
  simp only
  split
  · exact .error _
  · split
    · split
      · split
        · exact .result (infix_of_cons (infix_of_cons hr.2))
        · exact .error _
      · exact ends_unexpected
    · exact ends_unexpected

theorem ends_having (hterm : EndsTerms all term) (h : tokens <:+: all) :
    Ends all (Leaves all) (ctx.having term stop tokens) := by
  unfold Context.having
  split
  · have hrest := infix_of_cons h
    simp only
    split
    · exact ends_aggregateBound (infix_of_cons (infix_of_cons (infix_of_cons hrest)))
    · exact ends_havingFilter hterm hrest
  · exact ends_unexpected

theorem ends_enter {inner : Option TermParser} (hinner : ∀ term ∈ inner, EndsTerms all term) :
    Ends all (EndsTerms all) (ctx.enter inner stop tokens) := by
  cases inner with
  | none => exact .error _
  | some term => exact .result (hinner term rfl)

theorem endsTerms_termAt {inner : Option TermParser}
    (hinner : ∀ term ∈ inner, EndsTerms all term) : EndsTerms all (ctx.termAt inner) := by
  intro stop tokens h
  unfold termAt
  split
  · split_ifs
    · refine (ends_enter hinner).bind fun term hterm => ?_
      exact (hterm _ _ (infix_of_cons h)).bind fun r hr => .result hr
    · exact ends_unexpected
  · refine (ends_enter hinner).bind fun term hterm => ?_
    refine (endsTerms_expression hterm _ _ (infix_of_cons h)).bind fun r hr => ?_
    refine (ends_expect hr).bind fun rest hrest => ?_
    obtain ⟨close, -, hinfix⟩ := hrest
    exact .result (infix_of_cons hinfix)
  · exact (ends_enter hinner).bind fun term hterm => ends_having hterm (infix_of_cons h)
  · exact ends_predicate (infix_of_cons h)
  · exact ends_unexpected

theorem endsTerms_term (levels : Nat) : EndsTerms all (ctx.term levels) := by
  induction levels with
  | zero => exact endsTerms_termAt (by simp)
  | succ levels ih =>
    refine endsTerms_termAt fun term hterm => ?_
    obtain rfl := Option.mem_some_iff.1 hterm
    exact ih

end Context

/-! ## Filters -/

variable {limits : Limits} {source : String}

theorem ends_parse {tokens : List Lexeme} (htokens : lexemes source.toList = .ok tokens) :
    Ends tokens (fun _ => True) (parse limits source zones) := by
  simp only [parse, htokens]
  split_ifs
  · exact .error _
  · exact Context.ends_filter (Context.endsTerms_term _) List.infix_rfl

/-- A filter of one comparison stops as its value does. -/
theorem parse_comparison {field raw : String} {quoted : Bool} {op : Operator}
    {start₁ stop₁ start₂ stop₂ start₃ stop₃ : Nat} (hop : op.takesValue = true)
    (hlength : byteSize source.toList ≤ limits.maxLength)
    (htokens : lexemes source.toList = .ok [⟨.literal field quoted, start₁, stop₁⟩,
      ⟨.operator op.token, start₂, stop₂⟩, ⟨.literal raw false, start₃, stop₃⟩]) :
    parse limits source zones =
      (Context.literalValue ⟨source.toList, limits.maxDepth, zones⟩ op raw false start₃).map
        fun v => .simple (trimmed field) op (some v) := by
  rw [parse_eq_filter hlength htokens]
  generalize (⟨source.toList, limits.maxDepth, zones⟩ : Context) = ctx
  have hpredicate : ctx.predicate (trimmed field) (byteSize source.toList)
      [⟨.operator op.token, start₂, stop₂⟩, ⟨.literal raw false, start₃, stop₃⟩] =
      (ctx.literalValue op raw false start₃).map fun v =>
        (.simple (trimmed field) op (some v), []) := by
    have hvalue : ctx.value op (byteSize source.toList) [⟨.literal raw false, start₃, stop₃⟩] =
        (ctx.literalValue op raw false start₃).map fun v => (v, []) := by
      rw [Context.value]
      cases ctx.literalValue op raw false start₃ <;> rfl
    rw [Context.predicate, Context.operator_eq_ok_iff.2 ⟨rfl, rfl⟩, ok_bind]
    cases op with
    | eq | ne | gt | gte | lt | lte | like =>
      simp only
      rw [hvalue]
      cases ctx.literalValue _ raw false start₃ <;> rfl
    | _ => cases hop
  rw [Context.filter, Context.expression, Context.term_literal rfl, hpredicate]
  cases ctx.literalValue op raw false start₃ <;> rfl

theorem parse_comparison_eq_stopWith_iff {tokens : List Lexeme} {field raw : String}
    {quoted : Bool} {op : Operator} {f : Fault} (htokens : lexemes source.toList = .ok tokens)
    (hcomparison : tokens.map Lexeme.token =
      [.literal field quoted, .operator op.token, .literal raw false])
    (hop : op.takesValue = true) (hlength : byteSize source.toList ≤ limits.maxLength) :
    parse limits source zones = stopWith f ↔
      f = .splitCharacter ∧ SplitsOffset (trim raw.toList) := by
  obtain ⟨⟨_, start₁, stop₁⟩, _, rfl, rfl, hoperator⟩ := List.map_eq_cons_iff.1 hcomparison
  obtain ⟨⟨_, start₂, stop₂⟩, _, rfl, rfl, hvalue⟩ := List.map_eq_cons_iff.1 hoperator
  obtain ⟨⟨_, start₃, stop₃⟩, _, rfl, rfl, hnil⟩ := List.map_eq_cons_iff.1 hvalue
  obtain rfl := List.map_eq_nil_iff.1 hnil
  have hcoerce := @Literal.coerce_eq_stopWith_iff zones (trim raw.toList) false op f
  rw [eq_self, true_and] at hcoerce
  rw [parse_comparison hop hlength htokens, ← hcoerce]
  simp only [Context.literalValue]
  cases Literal.coerce zones (trim raw.toList) false op with
  | ok v => simp [Except.map, stopWith]
  | error e => cases e <;> simp [Except.map, Failure.map, stopWith]

/-- The source can be cut at the spans of its tokens, and from one token to another behind it. -/
theorem slices_of_lexemes {tokens : List Lexeme} (htokens : lexemes source.toList = .ok tokens) :
    (∀ lexeme ∈ tokens,
      slice lexeme.start lexeme.stop source.toList = .ok lexeme.token.spelling) ∧
    tokens.Pairwise (fun a b => a.start ≤ b.start) ∧
    ∀ a ∈ tokens, ∀ b ∈ tokens, a.start ≤ b.start →
      ∃ part, slice a.start b.start source.toList = .ok part := by
  have hscan := Token.lexemes_eq_ok_iff.1 htokens
  have hplace := Token.place_of_mem_scan hscan
  refine ⟨Token.slice_of_mem_scan hscan, Token.pairwise_scan hscan, fun a ha b hb hle => ?_⟩
  obtain ⟨before, after, hsource, hstart, -⟩ := hplace a ha
  obtain ⟨before', after', hsource', hstart', -⟩ := hplace b hb
  rw [Nat.zero_add] at hstart hstart'
  rw [hstart, hstart'] at hle ⊢
  rw [hsource]
  exact exists_slice (hsource.symm.trans hsource') hle

/-- A filter has a condition or an error, unless a value in it is a date-time whose offset splits a
character; a filter of one comparison has none exactly then. Every other cut is in place: those at
the tokens, those of the positions of errors, and those of the literals. -/
theorem parse_outcome (limits : Limits) (source : String) (zones : Zone.Database) :
    ((∃ c, parse limits source zones = .ok c) ∨ (∃ e, parse limits source zones = refuse e) ∨
      parse limits source zones = stopWith .splitCharacter ∧
        ∃ tokens, lexemes source.toList = .ok tokens ∧ SplitsValue tokens) ∧
    (∀ tokens, lexemes source.toList = .ok tokens →
      (∀ field quoted op raw, tokens.map Lexeme.token =
          [.literal field quoted, .operator (Operator.token op), .literal raw false] →
        op.takesValue = true → byteSize source.toList ≤ limits.maxLength →
        ∀ f, parse limits source zones = stopWith f ↔
          f = .splitCharacter ∧ SplitsOffset (trim raw.toList)) ∧
      (∀ lexeme ∈ tokens,
        slice lexeme.start lexeme.stop source.toList = .ok lexeme.token.spelling) ∧
      tokens.Pairwise (fun a b => a.start ≤ b.start) ∧
      ∀ a ∈ tokens, ∀ b ∈ tokens, a.start ≤ b.start →
        ∃ part, slice a.start b.start source.toList = .ok part) ∧
    ∀ cs, Token.looksLikeDateTimeBytes cs = .ok (Token.looksLikeDateTime cs) ∧
      Position.afterBytes cs = .ok (Position.after cs) ∧
      ∀ quoted op, Literal.coerceBytes zones cs quoted op = Literal.coerce zones cs quoted op ∧
        ∀ f, Literal.coerceBytes zones cs quoted op = stopWith f ↔
          f = .splitCharacter ∧ quoted = false ∧ SplitsOffset cs := by
  refine ⟨?_, fun tokens htokens => ⟨?_, slices_of_lexemes htokens⟩, fun cs => ⟨?_, ?_, ?_⟩⟩
  · cases htokens : lexemes source.toList with
    | error e =>
      refine .inr (.inl ?_)
      simp only [parse, htokens]
      split_ifs
      · exact ⟨_, rfl⟩
      · exact ⟨_, rfl⟩
    | ok tokens =>
      have hends : Ends tokens (fun _ => True) (parse limits source zones) := ends_parse htokens
      generalize parse limits source zones = outcome at hends ⊢
      cases hends with
      | result h => exact .inl ⟨_, rfl⟩
      | error e => exact .inr (.inl ⟨e, rfl⟩)
      | fault h => exact .inr (.inr ⟨rfl, tokens, rfl, h⟩)
  · intro field quoted op raw hcomparison hop hlength f
    exact parse_comparison_eq_stopWith_iff htokens hcomparison hop hlength
  · exact Token.looksLikeDateTimeBytes_eq cs
  · exact Position.afterBytes_eq cs
  · intro quoted op
    rw [Literal.coerceBytes_eq]
    exact ⟨rfl, fun f => Literal.coerce_eq_stopWith_iff⟩

/-- The euro sign takes three of the four bytes. The token in front of it can be cut out. -/
theorem parse_euro_in_offset :
    let source := "b$like:2023-01-01T10:00-€x"
    let tokens : List Lexeme := [⟨.literal "b" false, 0, 1⟩, ⟨.operator "$like:", 1, 7⟩,
      ⟨.literal "2023-01-01T10:00-€x" false, 7, 28⟩]
    lexemes source.toList = .ok tokens ∧ byteSize source.toList ≤ ({} : Limits).maxLength ∧
      SplitsOffset (trim "2023-01-01T10:00-€x".toList) ∧
      parse {} source = stopWith .splitCharacter ∧
      slice 1 7 source.toList = .ok "$like:".toList ∧
      ∃ part, slice 0 7 source.toList = .ok part := by
  intro source tokens
  have htokens : lexemes source.toList = .ok tokens := by decide +kernel
  have hlength : byteSize source.toList ≤ ({} : Limits).maxLength := by decide
  have hsplits : SplitsOffset (trim "2023-01-01T10:00-€x".toList) :=
    @SplitsOffset.intro "2023-01-01".toList "10:00".toList "€x".toList '-' (by decide) (by decide)
      (by simp; decide) (by decide) (by decide) (by decide)
  obtain ⟨hcomparison, hspans, -, hbetween⟩ :=
    (parse_outcome {} source Zone.known).2.1 tokens htokens
  refine ⟨htokens, hlength, hsplits, ?_, ?_, ?_⟩
  · exact (hcomparison "b" false .like _ rfl rfl hlength _).2 ⟨rfl, hsplits⟩
  · exact hspans ⟨.operator "$like:", 1, 7⟩ (by simp [tokens])
  · exact hbetween ⟨.literal "b" false, 0, 1⟩ (by simp [tokens])
      ⟨.literal "2023-01-01T10:00-€x" false, 7, 28⟩ (by simp [tokens]) (Nat.zero_le 7)

/-- The second byte of the offset `1é2` and its third belong to one character. -/
theorem parse_e_acute_in_offset :
    parse {} "a$eq:2023-01-01T10:00+1é2" = stopWith .splitCharacter ∧
      ¬ ((∃ c, parse {} "a$eq:2023-01-01T10:00+1é2" = .ok c) ∨
        ∃ e, parse {} "a$eq:2023-01-01T10:00+1é2" = refuse e) := by
  have htokens : lexemes "a$eq:2023-01-01T10:00+1é2".toList =
      .ok [⟨.literal "a" false, 0, 1⟩, ⟨.operator "$eq:", 1, 5⟩,
        ⟨.literal "2023-01-01T10:00+1é2" false, 5, 26⟩] := by decide +kernel
  have hsplits : SplitsOffset (trim "2023-01-01T10:00+1é2".toList) :=
    @SplitsOffset.intro "2023-01-01".toList "10:00".toList "1é2".toList '+' (by decide) (by decide)
      (by simp; decide) (by decide) (by decide) (by decide)
  have hparse : parse {} "a$eq:2023-01-01T10:00+1é2" = stopWith .splitCharacter :=
    (@parse_comparison_eq_stopWith_iff _ {} _ _ "a" _ false .eq _ htokens rfl rfl (by decide)).2
      ⟨rfl, hsplits⟩
  rw [hparse]
  refine ⟨rfl, ?_⟩
  rintro (⟨c, hc⟩ | ⟨e, he⟩)
  · cases hc
  · cases he

end Condition

end FilterQuery
