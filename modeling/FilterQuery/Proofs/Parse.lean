import FilterQuery.Proofs.Grammar

set_option autoImplicit false

/-! # The parser and the grammar

The parser of filters accepts exactly the rows of tokens that the grammar derives, with the same
condition, as long as the nesting of the derivation is within the limit. Each parser of a part is
compared with its part of the grammar first; an `↔` then serves both directions.

* **Soundness** goes by the levels of nesting that are left: `Taken` says that a parser took off a
  derived row from the front of the tokens.
* **Completeness** goes by the derivation. The loop that joins terms carries a bound on their
  number, which the tokens behind them justify (`Accepts`). -/

namespace FilterQuery.Condition

open FilterQuery.Text

variable {zones : Zone.Database}

namespace Context

variable {ctx : Context} {op : Operator} {stop : Nat} {tokens rest : List Lexeme}

/-! ## Single tokens -/

theorem unexpected_ne_ok {α : Type} {expected : Expected} {a : α} :
    ctx.unexpected expected stop tokens ≠ .ok a := by
  cases tokens <;> simp [unexpected, refuse]

theorem expect_eq_ok_iff {token : Token} :
    ctx.expect token stop tokens = .ok rest ↔
      ∃ lexeme, tokens = lexeme :: rest ∧ lexeme.token = token := by
  cases tokens with
  | nil => simp [expect, unexpected_ne_ok]
  | cons lexeme tail =>
    by_cases h : lexeme.token = token
    · simp only [expect, if_pos h, Except.ok.injEq, List.cons.injEq]
      constructor
      · rintro rfl
        exact ⟨lexeme, ⟨rfl, rfl⟩, h⟩
      · rintro ⟨_, ⟨-, rfl⟩, -⟩
        rfl
    · simp only [expect, if_neg h, unexpected_ne_ok, List.cons.injEq, false_iff]
      rintro ⟨_, ⟨rfl, -⟩, h'⟩
      exact h h'

theorem literalValue_eq_ok_iff {raw : String} {quoted : Bool} {start : Nat} {v : Value} :
    ctx.literalValue op raw quoted start = .ok v ↔
      Literal.coerce ctx.zones (trim raw.toList) quoted op = .ok v := by
  simp only [literalValue]
  split
  · next w hw => simp [hw]
  · next e he => simp [he]

theorem value_eq_ok_iff {v : Value} :
    ctx.value op stop tokens = .ok (v, rest) ↔
      ∃ lexeme, tokens = lexeme :: rest ∧ Denotes ctx.zones op lexeme.token v := by
  unfold value
  split
  · next raw quoted start stop tail =>
    rw [bind_eq_ok_iff]
    constructor
    · rintro ⟨w, hw, h⟩
      obtain ⟨rfl, rfl⟩ := Prod.mk.inj (Except.ok.inj h)
      exact ⟨_, rfl, .intro (literalValue_eq_ok_iff.1 hw)⟩
    · rintro ⟨lexeme, h, hv⟩
      obtain ⟨rfl, rfl⟩ := List.cons.inj h
      obtain ⟨hv⟩ := hv
      exact ⟨v, literalValue_eq_ok_iff.2 hv, rfl⟩
  · next hne =>
    simp only [unexpected_ne_ok, false_iff]
    rintro ⟨⟨token, start, stop⟩, rfl, hv⟩
    obtain ⟨hv⟩ := hv
    exact hne _ _ _ _ _ rfl

/-- A token text names an operator exactly if it is the token of that operator. -/
theorem ofToken?_eq_some_iff {text : String} :
    Operator.ofToken? text = some op ↔ text = op.token := by
  constructor
  · intro h
    have := List.find?_some h
    exact (beq_iff_eq.1 this).symm
  · rintro rfl
    exact Operator.ofToken?_token op

theorem operator_eq_ok_iff {lexeme : Lexeme} :
    ctx.operator stop tokens = .ok ((op, lexeme), rest) ↔
      tokens = lexeme :: rest ∧ lexeme.token = .operator op.token := by
  cases tokens with
  | nil => simp [operator, unexpected_ne_ok]
  | cons first tail =>
    simp only [operator]
    split
    · next text htext =>
      split
      · next found hfound =>
        rw [ofToken?_eq_some_iff] at hfound
        subst hfound
        simp only [Except.ok.injEq, Prod.mk.injEq, List.cons.injEq]
        constructor
        · rintro ⟨⟨rfl, rfl⟩, rfl⟩
          exact ⟨⟨rfl, rfl⟩, htext⟩
        · rintro ⟨⟨rfl, rfl⟩, h⟩
          have hop : found.token = op.token := by simpa [htext] using h
          have := Operator.ofToken?_token op
          rw [← hop, Operator.ofToken?_token, Option.some.injEq] at this
          exact ⟨⟨this, rfl⟩, rfl⟩
      · next hnone =>
        simp only [refuse, reduceCtorEq, List.cons.injEq, false_iff]
        rintro ⟨⟨rfl, rfl⟩, h⟩
        have htext' : text = op.token := by simpa [htext] using h
        rw [htext', Operator.ofToken?_token] at hnone
        exact absurd hnone (by simp)
    · next hne =>
      simp only [unexpected_ne_ok, List.cons.injEq, false_iff]
      rintro ⟨⟨rfl, rfl⟩, h⟩
      exact hne _ h

/-! ## Lists of values -/

/-- What the loop over a list reads extends every list that ends in front of it. -/
theorem denotesList_of_moreValues {vs : List Value}
    (h : ctx.moreValues op stop tokens = .ok (vs, rest)) :
    ∃ used, tokens = used ++ rest ∧ ∀ t v, Denotes ctx.zones op t v →
      DenotesList ctx.zones op (t :: used.map Lexeme.token) (v :: vs) := by
  fun_induction moreValues ctx op stop tokens generalizing vs with
  | case1 start stop' raw quoted start' stop'' tail ih =>
    obtain ⟨w, hw, h⟩ := bind_eq_ok_iff.1 h
    obtain ⟨⟨ws, rest'⟩, hws, h⟩ := bind_eq_ok_iff.1 h
    obtain ⟨rfl, rfl⟩ := Prod.mk.inj (Except.ok.inj h)
    obtain ⟨used, rfl, hused⟩ := ih hws
    refine ⟨⟨.comma, start, stop'⟩ :: ⟨.literal raw quoted, start', stop''⟩ :: used, rfl, ?_⟩
    intro t v hv
    exact .more hv (hused _ _ (.intro (literalValue_eq_ok_iff.1 hw)))
  | case2 => exact absurd h unexpected_ne_ok
  | case3 =>
    obtain ⟨rfl, rfl⟩ := Prod.mk.inj (Except.ok.inj h)
    exact ⟨[], rfl, fun t v hv => .one hv⟩

/-- The loop reads a list up to the bracket that closes it. -/
theorem moreValues_eq_ok {t : Token} {v : Value} {row : List Token} {vs : List Value}
    {closing : Lexeme} (h : DenotesList ctx.zones op (t :: row) (v :: vs))
    (htokens : tokens.map Lexeme.token = row) (hclosing : closing.token = .closeBracket) :
    ctx.moreValues op stop (tokens ++ closing :: rest) = .ok (vs, closing :: rest) := by
  obtain ⟨_, start, stop'⟩ := closing
  subst hclosing
  generalize hfull : t :: row = full at h
  generalize hall : v :: vs = all at h
  induction h generalizing t v row vs tokens with
  | one h =>
    obtain ⟨rfl, rfl⟩ := List.cons.inj hfull
    obtain ⟨rfl, rfl⟩ := List.cons.inj hall
    rw [List.map_eq_nil_iff.1 htokens, List.nil_append, moreValues]
    · simp
    · simp
  | more h hmore ih =>
    obtain ⟨rfl, rfl⟩ := List.cons.inj hfull
    obtain ⟨rfl, rfl⟩ := List.cons.inj hall
    obtain ⟨⟨_, start, stop'⟩, tail, rfl, rfl, htail⟩ := List.map_eq_cons_iff.1 htokens
    obtain ⟨raw, quoted, w, row, ws, rfl, rfl, hw⟩ := hmore.uncons
    obtain ⟨⟨_, start', stop''⟩, tail, rfl, rfl, hrow⟩ := List.map_eq_cons_iff.1 htail
    rw [List.cons_append, List.cons_append, moreValues, literalValue_eq_ok_iff.2 hw, ok_bind,
      ih hrow rfl rfl]
    rfl

/-- A list in brackets is a list of values, with nothing left out and nothing added. -/
theorem valueList_eq_ok_iff {vs : List Value} :
    ctx.valueList op stop tokens = .ok (vs, rest) ↔
      ∃ used row, tokens = used ++ rest ∧
        used.map Lexeme.token = .openBracket :: (row ++ [.closeBracket]) ∧
        DenotesList ctx.zones op row vs := by
  constructor
  · intro h
    obtain ⟨tokens₁, h₁, h⟩ := bind_eq_ok_iff.1 h
    obtain ⟨⟨v, tokens₂⟩, h₂, h⟩ := bind_eq_ok_iff.1 h
    obtain ⟨⟨ws, tokens₃⟩, h₃, h⟩ := bind_eq_ok_iff.1 h
    obtain ⟨tokens₄, h₄, h⟩ := bind_eq_ok_iff.1 h
    obtain ⟨rfl, rfl⟩ := Prod.mk.inj (Except.ok.inj h)
    obtain ⟨opening, rfl, hopening⟩ := expect_eq_ok_iff.1 h₁
    obtain ⟨first, rfl, hfirst⟩ := value_eq_ok_iff.1 h₂
    obtain ⟨used, rfl, hused⟩ := denotesList_of_moreValues h₃
    obtain ⟨closing, rfl, hclosing⟩ := expect_eq_ok_iff.1 h₄
    refine ⟨opening :: first :: (used ++ [closing]), first.token :: used.map Lexeme.token, ?_, ?_,
      hused _ _ hfirst⟩
    · simp
    · simp [hopening, hclosing]
  · rintro ⟨used, row, rfl, hused, hrow⟩
    obtain ⟨opening, tail, rfl, hopening, htail⟩ := List.map_eq_cons_iff.1 hused
    obtain ⟨inside, last, rfl, hinside, hlast⟩ := List.map_eq_append_iff.1 htail
    obtain ⟨closing, rfl, hclosing⟩ := List.map_eq_singleton_iff.1 hlast
    obtain ⟨raw, quoted, v, row, ws, rfl, rfl, hv⟩ := hrow.uncons
    obtain ⟨first, inside, rfl, hfirst, hinside⟩ := List.map_eq_cons_iff.1 hinside
    refine bind_eq_ok_iff.2 ⟨_, expect_eq_ok_iff.2 ⟨opening, rfl, hopening⟩, ?_⟩
    refine bind_eq_ok_iff.2 ⟨(v, inside ++ closing :: rest),
      value_eq_ok_iff.2 ⟨first, by simp, hfirst ▸ .intro hv⟩, ?_⟩
    refine bind_eq_ok_iff.2 ⟨_, moreValues_eq_ok hrow hinside hclosing, ?_⟩
    exact bind_eq_ok_iff.2 ⟨_, expect_eq_ok_iff.2 ⟨closing, rfl, hclosing⟩, rfl⟩

/-! ## Predicates -/

theorem notComparison_ne_ok {α : Type} {lexeme : Lexeme} {a : α} :
    ctx.notComparison lexeme ≠ .ok a := by
  simp [notComparison, refuse]

/-- What is read behind a field makes a predicate with it. -/
theorem derives_of_predicate {raw : String} (quoted : Bool) {c : Condition}
    (h : ctx.predicate (trimmed raw) stop tokens = .ok (c, rest)) :
    ∃ used, tokens = used ++ rest ∧
      Derives ctx.zones .term 0 (.literal raw quoted :: used.map Lexeme.token) c := by
  obtain ⟨⟨⟨op, lexeme⟩, tokens⟩, hop, h⟩ := bind_eq_ok_iff.1 h
  obtain ⟨rfl, hlexeme⟩ := operator_eq_ok_iff.1 hop
  cases op with
  | null | notNull =>
    obtain ⟨rfl, rfl⟩ := Prod.mk.inj (Except.ok.inj h)
    refine ⟨[lexeme], rfl, ?_⟩
    rw [List.map_singleton, hlexeme]
    exact .nullity raw quoted rfl
  | oneOf =>
    obtain ⟨⟨vs, tokens⟩, hvs, h⟩ := bind_eq_ok_iff.1 h
    obtain ⟨rfl, rfl⟩ := Prod.mk.inj (Except.ok.inj h)
    obtain ⟨used, row, rfl, hused, hrow⟩ := valueList_eq_ok_iff.1 hvs
    refine ⟨lexeme :: used, rfl, ?_⟩
    rw [List.map_cons, hlexeme, hused]
    exact .oneOf raw quoted hrow
  | noneOf =>
    obtain ⟨⟨vs, tokens⟩, hvs, h⟩ := bind_eq_ok_iff.1 h
    obtain ⟨rfl, rfl⟩ := Prod.mk.inj (Except.ok.inj h)
    obtain ⟨used, row, rfl, hused, hrow⟩ := valueList_eq_ok_iff.1 hvs
    refine ⟨lexeme :: used, rfl, ?_⟩
    rw [List.map_cons, hlexeme, hused]
    exact .noneOf raw quoted hrow
  | and | or | not => exact absurd h notComparison_ne_ok
  | eq | ne | gt | gte | lt | lte | like =>
    obtain ⟨⟨v, tokens⟩, hv, h⟩ := bind_eq_ok_iff.1 h
    obtain ⟨rfl, rfl⟩ := Prod.mk.inj (Except.ok.inj h)
    obtain ⟨operand, rfl, hdenotes⟩ := value_eq_ok_iff.1 hv
    refine ⟨[lexeme, operand], rfl, ?_⟩
    rw [List.map_cons, List.map_singleton, hlexeme]
    exact .comparison raw quoted rfl hdenotes

theorem predicate_nullity {field : String} {lexeme : Lexeme} (hop : op.takesNothing = true)
    (hlexeme : lexeme.token = .operator op.token) :
    ctx.predicate field stop (lexeme :: rest) = .ok (.simple field op none, rest) := by
  rw [predicate, operator_eq_ok_iff.2 ⟨rfl, hlexeme⟩, ok_bind]
  cases op with
  | null | notNull => rfl
  | _ => cases hop

theorem predicate_comparison {field : String} {lexeme operand : Lexeme} {v : Value}
    (hop : op.takesValue = true) (hlexeme : lexeme.token = .operator op.token)
    (hv : Denotes ctx.zones op operand.token v) :
    ctx.predicate field stop (lexeme :: operand :: rest) =
      .ok (.simple field op (some v), rest) := by
  rw [predicate, operator_eq_ok_iff.2 ⟨rfl, hlexeme⟩, ok_bind]
  cases op with
  | eq | ne | gt | gte | lt | lte | like =>
    simp only
    rw [value_eq_ok_iff.2 ⟨operand, rfl, hv⟩]
    rfl
  | _ => cases hop

theorem predicate_oneOf {field : String} {lexeme : Lexeme} {vs : List Value} {row : List Token}
    (hlexeme : lexeme.token = .operator Operator.oneOf.token)
    (htokens : tokens.map Lexeme.token = .openBracket :: (row ++ [.closeBracket]))
    (hrow : DenotesList ctx.zones .oneOf row vs) :
    ctx.predicate field stop (lexeme :: (tokens ++ rest)) = .ok (.oneOf field vs, rest) := by
  rw [predicate, operator_eq_ok_iff.2 ⟨rfl, hlexeme⟩, ok_bind]
  simp only
  rw [valueList_eq_ok_iff.2 ⟨tokens, row, rfl, htokens, hrow⟩]
  rfl

theorem predicate_noneOf {field : String} {lexeme : Lexeme} {vs : List Value} {row : List Token}
    (hlexeme : lexeme.token = .operator Operator.noneOf.token)
    (htokens : tokens.map Lexeme.token = .openBracket :: (row ++ [.closeBracket]))
    (hrow : DenotesList ctx.zones .noneOf row vs) :
    ctx.predicate field stop (lexeme :: (tokens ++ rest)) = .ok (.noneOf field vs, rest) := by
  rw [predicate, operator_eq_ok_iff.2 ⟨rfl, hlexeme⟩, ok_bind]
  simp only
  rw [valueList_eq_ok_iff.2 ⟨tokens, row, rfl, htokens, hrow⟩]
  rfl

/-! ## Rows of terms -/

theorem connective?_eq_some_iff {join : Connective} :
    connective? tokens = some (join, rest) ↔
      ∃ lexeme, tokens = lexeme :: rest ∧ lexeme.token = .operator join.operator.token := by
  constructor
  · intro h
    unfold connective? at h
    split at h
    · split at h
      · next htext =>
        obtain ⟨rfl, rfl⟩ := Prod.mk.inj (Option.some.inj h)
        exact ⟨_, rfl, congrArg Token.operator htext⟩
      · split at h
        · next htext =>
          obtain ⟨rfl, rfl⟩ := Prod.mk.inj (Option.some.inj h)
          exact ⟨_, rfl, congrArg Token.operator htext⟩
        · cases h
    · cases h
  · rintro ⟨⟨_, start, stop⟩, rfl, rfl⟩
    cases join with
    | and => simp only [connective?, Connective.operator, if_true]
    | or =>
      simp only [connective?, Connective.operator]
      rw [if_neg (by decide), if_true]

/-- A parser took a phrase off the front of the tokens. Its derivation is nested no deeper than
`levels`. -/
def Taken (zones : Zone.Database) (phrase : Phrase) (levels : Nat) (tokens rest : List Lexeme)
    (c : Condition) : Prop :=
  ∃ used n, tokens = used ++ rest ∧ n ≤ levels ∧ Derives zones phrase n (used.map Lexeme.token) c

/-- Every term that the parser reads is one. -/
def ReadsTerms (zones : Zone.Database) (levels : Nat) (term : TermParser) : Prop :=
  ∀ (stop : Nat) (tokens rest : List Lexeme) (c : Condition),
    term stop tokens = .ok (c, rest) → Taken zones .term levels tokens rest c

/-- Joining further terms to an expression gives an expression. -/
theorem taken_of_chain {levels : Nat} {term : TermParser} (hterm : ReadsTerms zones levels term)
    {fuel : Nat} {left c : Condition} {before : List Lexeme} {n : Nat} (hn : n ≤ levels)
    (hleft : Derives zones .expression n (before.map Lexeme.token) left)
    (h : chain term stop fuel left tokens = .ok (c, rest)) :
    Taken zones .expression levels (before ++ tokens) rest c := by
  induction fuel generalizing left before n tokens with
  | zero =>
    obtain ⟨rfl, rfl⟩ := Prod.mk.inj (Except.ok.inj h)
    exact ⟨before, n, rfl, hn, hleft⟩
  | succ fuel ih =>
    rw [chain] at h
    split at h
    · obtain ⟨rfl, rfl⟩ := Prod.mk.inj (Except.ok.inj h)
      exact ⟨before, n, rfl, hn, hleft⟩
    · next join tail hconnective =>
      obtain ⟨⟨right, tail'⟩, hright, hchain⟩ := bind_eq_ok_iff.1 h
      obtain ⟨lexeme, rfl, hlexeme⟩ := connective?_eq_some_iff.1 hconnective
      obtain ⟨used, m, rfl, hm, hused⟩ := hterm _ _ _ _ hright
      have hjoined := Derives.join join hleft hused
      rw [← hlexeme, ← List.map_cons, ← List.map_append] at hjoined
      have := ih (Nat.max_le.2 ⟨hn, hm⟩) hjoined hchain
      simpa using this

theorem taken_of_expression {levels : Nat} {term : TermParser}
    (hterm : ReadsTerms zones levels term)
    {c : Condition} (h : expression term stop tokens = .ok (c, rest)) :
    Taken zones .expression levels tokens rest c := by
  obtain ⟨⟨first, tail⟩, hfirst, hchain⟩ := bind_eq_ok_iff.1 h
  obtain ⟨used, n, rfl, hn, hused⟩ := hterm _ _ _ _ hfirst
  exact taken_of_chain hterm hn (.term hused) hchain

theorem derives_of_filter {levels : Nat} {term : TermParser}
    (hterm : ReadsTerms ctx.zones levels term)
    {c : Condition} (h : ctx.filter term stop tokens = .ok c) :
    ∃ n, n ≤ levels ∧ Derives ctx.zones .expression n (tokens.map Lexeme.token) c := by
  obtain ⟨⟨d, tail⟩, hexpression, hend⟩ := bind_eq_ok_iff.1 h
  obtain ⟨used, n, rfl, hn, hused⟩ := taken_of_expression hterm hexpression
  cases tail with
  | nil =>
    obtain rfl := Except.ok.inj hend
    exact ⟨n, hn, by simpa using hused⟩
  | cons => exact absurd hend unexpected_ne_ok

/-! ## Having conditions -/

/-- What `closing?` sets apart are the tokens in front of a closing parenthesis. -/
theorem eq_of_closing? {depth : Nat} {before after : List Lexeme} {close : Lexeme}
    (h : closing? depth tokens = some (before, close, after)) :
    tokens = before ++ close :: after ∧ close.token = .closeParen := by
  induction tokens generalizing depth before with
  | nil => cases h
  | cons lexeme tail ih =>
    -- In all branches but one the token goes to the front of what the rest gives.
    have hinside : ∀ d, (closing? d tail).map
        (fun found => (lexeme :: found.1, found.2.1, found.2.2)) = some (before, close, after) →
        lexeme :: tail = before ++ close :: after ∧ close.token = .closeParen := by
      intro d hd
      obtain ⟨⟨inside, close', after'⟩, htail, hfound⟩ := Option.map_eq_some_iff.1 hd
      obtain ⟨rfl, hbehind⟩ := Prod.mk.inj hfound
      obtain ⟨rfl, rfl⟩ := Prod.mk.inj hbehind
      obtain ⟨rfl, hclose⟩ := ih htail
      exact ⟨rfl, hclose⟩
    simp only [closing?] at h
    split at h
    · exact hinside _ h
    · next hclose =>
      split at h
      · obtain ⟨rfl, hbehind⟩ := Prod.mk.inj (Option.some.inj h)
        obtain ⟨rfl, rfl⟩ := Prod.mk.inj hbehind
        exact ⟨rfl, hclose⟩
      · exact hinside _ h
    · exact hinside _ h

/-- A condition that is set apart is the expression in parentheses that stands there. -/
theorem exists_of_havingFilter {levels : Nat} {term : TermParser}
    (hterm : ReadsTerms ctx.zones levels term) {field : String} {c : Condition}
    (h : ctx.havingFilter term field stop tokens = .ok (c, rest)) :
    ∃ opening inside closing n sub, tokens = opening :: (inside ++ closing :: rest) ∧
      opening.token = .openParen ∧ closing.token = .closeParen ∧ n ≤ levels ∧
      Derives ctx.zones .expression n (inside.map Lexeme.token) sub ∧ c = .having field sub := by
  obtain ⟨tail, hexpect, hinner⟩ := bind_eq_ok_iff.1 h
  obtain ⟨opening, rfl, hopening⟩ := expect_eq_ok_iff.1 hexpect
  split at hinner
  · exact absurd hinner unexpected_ne_ok
  · next inside closing after hclosing =>
    obtain ⟨sub, hsub, hresult⟩ := bind_eq_ok_iff.1 hinner
    obtain ⟨rfl, rfl⟩ := Prod.mk.inj (Except.ok.inj hresult)
    obtain ⟨rfl, hclose⟩ := eq_of_closing? hclosing
    obtain ⟨n, hn, hinside⟩ := derives_of_filter hterm hsub
    exact ⟨opening, inside, closing, n, sub, rfl, hopening, hclose, hn, hinside, rfl⟩

theorem taken_of_havingFilter {levels : Nat} {term : TermParser}
    (hterm : ReadsTerms ctx.zones levels term)
    {having subject : Lexeme} {raw : String} {quoted : Bool} (hhaving : having.token = .having)
    (hsubject : subject.token = .literal raw quoted) {c : Condition}
    (h : ctx.havingFilter term (trimmed raw) stop tokens = .ok (c, rest)) :
    Taken ctx.zones .term (levels + 1) (having :: subject :: tokens) rest c := by
  obtain ⟨opening, inside, closing, n, sub, rfl, hopening, hclosing, hn, hinside, rfl⟩ :=
    exists_of_havingFilter hterm h
  refine ⟨having :: subject :: opening :: (inside ++ [closing]), n + 1, by simp, by omega, ?_⟩
  simpa [hhaving, hsubject, hopening, hclosing] using Derives.having raw quoted hinside

/-- A bare number is read as the value that it denotes under any operator. -/
theorem coerce_number {cs : List Char} (h : Shape.isNumber cs = true) (op : Operator) :
    Literal.coerce zones cs false op = orRefuse id (Literal.number cs) := by
  simp [Literal.coerce, Shape.ofText, h]

/-- The bound of a function is an operator that compares and a number. -/
theorem aggregateBound_eq_ok_iff {function : Aggregate} {field : String} {c : Condition} :
    ctx.aggregateBound function field stop tokens = .ok (c, rest) ↔
      ∃ op lexeme operand bound, tokens = lexeme :: operand :: rest ∧
        lexeme.token = .operator op.token ∧ op.isComparison = true ∧
        DenotesNumber ctx.zones op operand.token bound ∧
        c = .aggregate field function op bound := by
  constructor
  · intro h
    obtain ⟨⟨⟨op, lexeme⟩, tail⟩, hop, hbound⟩ := bind_eq_ok_iff.1 h
    obtain ⟨rfl, hlexeme⟩ := operator_eq_ok_iff.1 hop
    by_cases hcomparison : op.isComparison = true
    · simp only [hcomparison, Bool.not_true, Bool.false_eq_true, if_false] at hbound
      split at hbound
      · next raw start stop' tail' =>
        by_cases hshape : Shape.isNumber (trim raw.toList) = true
        · rw [if_pos hshape] at hbound
          split at hbound
          · next bound hnumber =>
            obtain ⟨rfl, rfl⟩ := Prod.mk.inj (Except.ok.inj hbound)
            refine ⟨op, lexeme, ⟨.literal raw false, start, stop'⟩, bound, rfl, hlexeme,
              hcomparison, .intro hshape ?_, rfl⟩
            rw [coerce_number hshape, hnumber, orRefuse]
          · cases hbound
        · rw [if_neg hshape] at hbound
          exact absurd hbound unexpected_ne_ok
      · exact absurd hbound unexpected_ne_ok
    · simp only [hcomparison, Bool.not_false, if_true] at hbound
      exact absurd hbound notComparison_ne_ok
  · rintro ⟨op, lexeme, ⟨token, start, stop'⟩, bound, rfl, hlexeme, hcomparison, hbound, rfl⟩
    obtain ⟨hshape, hcoerce⟩ := hbound
    rw [coerce_number hshape] at hcoerce
    rw [aggregateBound, operator_eq_ok_iff.2 ⟨rfl, hlexeme⟩, ok_bind]
    simp only [hcomparison, Bool.not_true, Bool.false_eq_true, if_false, if_pos hshape]
    split
    · next v hv =>
      rw [hv] at hcoerce
      obtain rfl := Except.ok.inj hcoerce
      rfl
    · next e he =>
      rw [he] at hcoerce
      cases hcoerce

theorem taken_of_having {levels : Nat} {term : TermParser}
    (hterm : ReadsTerms ctx.zones levels term)
    {having : Lexeme} (hhaving : having.token = .having) {c : Condition}
    (h : ctx.having term stop tokens = .ok (c, rest)) :
    Taken ctx.zones .term (levels + 1) (having :: tokens) rest c := by
  unfold Context.having at h
  split at h
  · next raw quoted start stop' tail =>
    simp only at h
    split at h
    · next function _ _ field quoted' _ _ _ _ text _ _ _ hname =>
      obtain ⟨op, lexeme, operand, bound, hrow, hlexeme, hop, hbound, rfl⟩ :=
        aggregateBound_eq_ok_iff.1 h
      obtain ⟨rfl, rfl⟩ := List.cons.inj hrow
      obtain rfl := Token.operator.inj hlexeme
      refine ⟨having :: ⟨.literal raw quoted, _, _⟩ :: ⟨.openParen, _, _⟩ ::
        ⟨.literal field quoted', _, _⟩ :: ⟨.closeParen, _, _⟩ :: ⟨.operator op.token, _, _⟩ ::
        [operand], 1, rfl, by omega, ?_⟩
      simpa [hhaving] using Derives.aggregate raw field quoted quoted' op hname hop hbound
    · exact taken_of_havingFilter hterm hhaving rfl h
  · exact absurd h unexpected_ne_ok

/-! ## Soundness of terms -/

theorem enter_eq_ok_iff {inner : Option TermParser} {term : TermParser} :
    ctx.enter inner stop tokens = .ok term ↔ inner = some term := by
  cases inner <;> simp [enter, refuse]

/-- One term, given that the parser of what is nested in it is sound. -/
theorem readsTerms_termAt {levels : Nat} {inner : Option TermParser}
    (hinner : ∀ term, inner = some term →
      ∃ below, below + 1 = levels ∧ ReadsTerms ctx.zones below term) :
    ReadsTerms ctx.zones levels (ctx.termAt inner) := by
  intro stop tokens rest c h
  unfold termAt at h
  split at h
  · next text start stop' tail =>
    split at h
    · next htext =>
      obtain ⟨term, henter, hterm⟩ := bind_eq_ok_iff.1 h
      obtain ⟨⟨d, tail'⟩, hd, hresult⟩ := bind_eq_ok_iff.1 hterm
      obtain ⟨rfl, rfl⟩ := Prod.mk.inj (Except.ok.inj hresult)
      obtain ⟨below, rfl, hbelow⟩ := hinner _ (enter_eq_ok_iff.1 henter)
      obtain ⟨used, n, rfl, hn, hused⟩ := hbelow _ _ _ _ hd
      refine ⟨⟨.operator text, start, stop'⟩ :: used, n + 1, rfl, by omega, ?_⟩
      subst htext
      exact .not hused
    · exact absurd h unexpected_ne_ok
  · next start stop' tail =>
    obtain ⟨term, henter, hterm⟩ := bind_eq_ok_iff.1 h
    obtain ⟨⟨d, tail'⟩, hd, hclosing⟩ := bind_eq_ok_iff.1 hterm
    obtain ⟨tail'', hexpect, hresult⟩ := bind_eq_ok_iff.1 hclosing
    obtain ⟨rfl, rfl⟩ := Prod.mk.inj (Except.ok.inj hresult)
    obtain ⟨below, rfl, hbelow⟩ := hinner _ (enter_eq_ok_iff.1 henter)
    obtain ⟨used, n, rfl, hn, hused⟩ := taken_of_expression hbelow hd
    obtain ⟨closing, rfl, hclose⟩ := expect_eq_ok_iff.1 hexpect
    refine ⟨⟨.openParen, start, stop'⟩ :: (used ++ [closing]), n + 1, by simp, by omega, ?_⟩
    simpa [hclose] using Derives.parentheses hused
  · next start stop' tail =>
    obtain ⟨term, henter, hhaving⟩ := bind_eq_ok_iff.1 h
    obtain ⟨below, rfl, hbelow⟩ := hinner _ (enter_eq_ok_iff.1 henter)
    exact taken_of_having hbelow rfl hhaving
  · next raw quoted start stop' tail =>
    obtain ⟨used, rfl, hused⟩ := derives_of_predicate quoted h
    exact ⟨⟨.literal raw quoted, start, stop'⟩ :: used, 0, rfl, Nat.zero_le _, hused⟩
  · exact absurd h unexpected_ne_ok

theorem readsTerms_term (levels : Nat) : ReadsTerms ctx.zones levels (ctx.term levels) := by
  induction levels with
  | zero =>
    rw [Context.term]
    exact readsTerms_termAt (fun _ h => by cases h)
  | succ levels ih =>
    rw [Context.term]
    refine readsTerms_termAt (fun term h => ⟨levels, rfl, ?_⟩)
    obtain rfl := Option.some.inj h
    exact ih

/-! ## Completeness -/

/-- The parser with `levels` of nesting reads the phrase off the front of any tokens. An expression
goes on with the terms behind it; what the loop has left of its bound is enough for them. -/
def Accepts (ctx : Context) (levels : Nat) (row : List Token) (c : Condition) : Phrase → Prop
  | .term => ∀ (stop : Nat) (tokens rest : List Lexeme), tokens.map Lexeme.token = row →
      ctx.term levels stop (tokens ++ rest) = .ok (c, rest)
  | .expression => ∀ (stop : Nat) (tokens rest : List Lexeme), tokens.map Lexeme.token = row →
      ∃ fuel, rest.length ≤ fuel ∧
        Context.expression (ctx.term levels) stop (tokens ++ rest) =
          chain (ctx.term levels) stop fuel c rest

/-- The loop stops where no connective follows. -/
theorem chain_eq_ok {term : TermParser} {fuel : Nat} {c : Condition}
    (hrest : connective? rest = none) : chain term stop fuel c rest = .ok (c, rest) := by
  cases fuel with
  | zero => rfl
  | succ fuel => rw [chain, hrest]

theorem connective?_eq_none {lexeme : Lexeme} (h : lexeme.token = .closeParen) :
    connective? (lexeme :: rest) = none := by
  cases hc : connective? (lexeme :: rest) with
  | none => rfl
  | some found =>
    obtain ⟨join, tail⟩ := found
    obtain ⟨lexeme', hcons, hlexeme⟩ := connective?_eq_some_iff.1 hc
    obtain ⟨rfl, rfl⟩ := List.cons.inj hcons
    rw [h] at hlexeme
    cases hlexeme

/-- An expression in front of a closing parenthesis is read up to it. -/
theorem Accepts.expression {levels : Nat} {row : List Token} {c : Condition}
    (h : Accepts ctx levels row c .expression) (htokens : tokens.map Lexeme.token = row)
    (hrest : connective? rest = none) :
    Context.expression (ctx.term levels) stop (tokens ++ rest) = .ok (c, rest) := by
  obtain ⟨fuel, -, heq⟩ := h stop tokens rest htokens
  rw [heq, chain_eq_ok hrest]

/-- An expression is a filter. -/
theorem Accepts.filter {levels : Nat} {row : List Token} {c : Condition}
    (h : Accepts ctx levels row c .expression) (htokens : tokens.map Lexeme.token = row) :
    ctx.filter (ctx.term levels) stop tokens = .ok c := by
  have hall : Context.expression (ctx.term levels) stop (tokens ++ []) = .ok (c, []) :=
    h.expression htokens rfl
  rw [List.append_nil] at hall
  rw [Context.filter, hall]
  rfl

/-- The field of a predicate is read at any level. -/
theorem term_literal {levels : Nat} {lexeme : Lexeme} {raw : String} {quoted : Bool}
    (h : lexeme.token = .literal raw quoted) :
    ctx.term levels stop (lexeme :: rest) = ctx.predicate (trimmed raw) stop rest := by
  obtain ⟨_, start, stop'⟩ := lexeme
  subst h
  cases levels <;> rfl

/-- An expression ends at the parenthesis that closes the current one. -/
theorem closing?_eq_some {n : Nat} {row : List Token} {c : Condition} {closing : Lexeme}
    (hclosing : closing.token = .closeParen) (htokens : tokens.map Lexeme.token = row)
    (hrow : Derives ctx.zones .expression n row c) :
    closing? 0 (tokens ++ closing :: rest) = some (tokens, closing, rest) := by
  rw [hrow.passes tokens htokens, closing?, hclosing]
  simp

/-- The condition of a having condition is set apart from the tokens and read as a filter. -/
theorem havingFilter_eq_ok {levels n : Nat} {row : List Token} {c : Condition} {field : String}
    {opening closing : Lexeme} (hopening : opening.token = .openParen)
    (hclosing : closing.token = .closeParen) (htokens : tokens.map Lexeme.token = row)
    (hrow : Derives ctx.zones .expression n row c) (h : Accepts ctx levels row c .expression) :
    ctx.havingFilter (ctx.term levels) field stop (opening :: (tokens ++ closing :: rest)) =
      .ok (.having field c, rest) := by
  rw [havingFilter, expect_eq_ok_iff.2 ⟨opening, rfl, hopening⟩, ok_bind,
    closing?_eq_some hclosing htokens hrow]
  simp only
  rw [h.filter htokens]
  rfl

/-- The name of a function in front of an expression in parentheses is the name of a relationship:
an expression is no single literal. -/
theorem having_eq_havingFilter {term : TermParser} {n : Nat} {row : List Token} {c : Condition}
    {subject opening : Lexeme} {raw : String} {quoted : Bool}
    (hsubject : subject.token = .literal raw quoted) (hrow : Derives ctx.zones .expression n row c)
    (htokens : tokens.map Lexeme.token = row) :
    ctx.having term stop (subject :: opening :: (tokens ++ rest)) =
      ctx.havingFilter term (trimmed raw) stop (opening :: (tokens ++ rest)) := by
  obtain ⟨_, start, stop'⟩ := subject
  subst hsubject
  generalize hall : opening :: (tokens ++ rest) = all
  unfold Context.having
  simp only
  split
  · exfalso
    -- The literal is the first of the tokens, so an operator follows it and no parenthesis.
    have hne : tokens ≠ [] := fun h => hrow.ne_nil (by rw [← htokens, h, List.map_nil])
    obtain ⟨first, tail, rfl⟩ := List.exists_cons_of_ne_nil hne
    obtain ⟨-, htail⟩ := List.cons.inj hall
    obtain ⟨rfl, hbehind⟩ := List.cons.inj htail
    obtain ⟨text, row', hrow'⟩ := hrow.operator_behind_literal htokens.symm
    obtain ⟨second, tail', rfl, hsecond, -⟩ := List.map_eq_cons_iff.1 hrow'
    obtain ⟨rfl, -⟩ := List.cons.inj hbehind
    cases hsecond
  · rfl

/-- The name of a function in front of a field in parentheses and an operator is a function. -/
theorem having_aggregate {term : TermParser} {function : Aggregate} {name field text : String}
    {quoted quoted' : Bool} {s₁ s₂ s₃ s₄ s₅ e₁ e₂ e₃ e₄ e₅ : Nat}
    (hname : Aggregate.ofName? (trimmed name) = some function) :
    ctx.having term stop (⟨.literal name quoted, s₁, e₁⟩ :: ⟨.openParen, s₂, e₂⟩ ::
        ⟨.literal field quoted', s₃, e₃⟩ :: ⟨.closeParen, s₄, e₄⟩ ::
        ⟨.operator text, s₅, e₅⟩ :: rest) =
      ctx.aggregateBound function (trimmed field) stop (⟨.operator text, s₅, e₅⟩ :: rest) := by
  unfold Context.having
  simp only
  rw [hname]

theorem accepts_of_derives {phrase : Phrase} {n : Nat} {row : List Token} {c : Condition}
    (h : Derives ctx.zones phrase n row c) (levels : Nat) (hn : n ≤ levels) :
    Accepts ctx levels row c phrase := by
  induction h generalizing levels with
  | term _ ih =>
    intro stop tokens rest htokens
    refine ⟨rest.length, Nat.le_refl _, ?_⟩
    rw [Context.expression, ih levels hn stop tokens rest htokens, ok_bind]
  | join join _ _ ihleft ihright =>
    intro stop tokens rest htokens
    obtain ⟨left, tail, rfl, hleft, htail⟩ := List.map_eq_append_iff.1 htokens
    obtain ⟨lexeme, right, rfl, hlexeme, hright⟩ := List.map_eq_cons_iff.1 htail
    obtain ⟨hnl, hnr⟩ := Nat.max_le.1 hn
    obtain ⟨fuel, hfuel, heq⟩ := ihleft levels hnl stop left (lexeme :: right ++ rest) hleft
    -- The connective itself is one of the tokens that the bound counts.
    obtain ⟨fuel, rfl⟩ : ∃ fuel', fuel = fuel' + 1 := by
      cases fuel with
      | zero => simp at hfuel
      | succ fuel => exact ⟨fuel, rfl⟩
    refine ⟨fuel, by simp at hfuel; omega, ?_⟩
    have hconnective : connective? (lexeme :: right ++ rest) = some (join, right ++ rest) :=
      connective?_eq_some_iff.2 ⟨lexeme, rfl, hlexeme⟩
    rw [List.append_assoc, heq, chain, hconnective]
    simp only
    rw [ihright levels hnr stop right rest hright, ok_bind]
  | not _ ih =>
    intro stop tokens rest htokens
    obtain ⟨⟨_, start, stop'⟩, tail, rfl, rfl, htail⟩ := List.map_eq_cons_iff.1 htokens
    obtain ⟨levels, rfl⟩ := Nat.exists_eq_add_of_le' (Nat.le_of_add_left_le hn)
    rw [List.cons_append, Context.term, termAt, if_pos rfl]
    rw [enter, ok_bind, ih levels (by omega) stop tail rest htail]
    rfl
  | parentheses _ ih =>
    intro stop tokens rest htokens
    obtain ⟨⟨_, start, stop'⟩, tail, rfl, rfl, htail⟩ := List.map_eq_cons_iff.1 htokens
    obtain ⟨inside, last, rfl, hinside, hlast⟩ := List.map_eq_append_iff.1 htail
    obtain ⟨closing, rfl, hclosing⟩ := List.map_eq_singleton_iff.1 hlast
    obtain ⟨levels, rfl⟩ := Nat.exists_eq_add_of_le' (Nat.le_of_add_left_le hn)
    have hexpression : Context.expression (ctx.term levels) stop (inside ++ closing :: rest) = _ :=
      (ih levels (by omega)).expression hinside (connective?_eq_none hclosing)
    rw [List.cons_append, List.append_assoc, List.singleton_append, Context.term, termAt]
    rw [enter, ok_bind, hexpression, ok_bind]
    simp only
    rw [expect_eq_ok_iff.2 ⟨closing, rfl, hclosing⟩]
    rfl
  | having name quoted hrow ih =>
    intro stop tokens rest htokens
    obtain ⟨⟨_, start, stop'⟩, tail, rfl, rfl, htail⟩ := List.map_eq_cons_iff.1 htokens
    obtain ⟨subject, tail, rfl, hsubject, htail⟩ := List.map_eq_cons_iff.1 htail
    obtain ⟨opening, tail, rfl, hopening, htail⟩ := List.map_eq_cons_iff.1 htail
    obtain ⟨inside, last, rfl, hinside, hlast⟩ := List.map_eq_append_iff.1 htail
    obtain ⟨closing, rfl, hclosing⟩ := List.map_eq_singleton_iff.1 hlast
    obtain ⟨levels, rfl⟩ := Nat.exists_eq_add_of_le' (Nat.le_of_add_left_le hn)
    simp only [List.cons_append, List.append_assoc, List.nil_append]
    rw [Context.term, termAt, enter, ok_bind, having_eq_havingFilter hsubject hrow hinside]
    exact havingFilter_eq_ok hopening hclosing hinside hrow (ih levels (by omega))
  | aggregate name field quoted quoted' op hname hop hbound =>
    intro stop tokens rest htokens
    obtain ⟨⟨_, _, _⟩, tail, rfl, rfl, h₁⟩ := List.map_eq_cons_iff.1 htokens
    obtain ⟨⟨_, _, _⟩, tail, rfl, rfl, h₂⟩ := List.map_eq_cons_iff.1 h₁
    obtain ⟨⟨_, _, _⟩, tail, rfl, rfl, h₃⟩ := List.map_eq_cons_iff.1 h₂
    obtain ⟨⟨_, _, _⟩, tail, rfl, rfl, h₄⟩ := List.map_eq_cons_iff.1 h₃
    obtain ⟨⟨_, _, _⟩, tail, rfl, rfl, h₅⟩ := List.map_eq_cons_iff.1 h₄
    obtain ⟨⟨_, _, _⟩, tail, rfl, rfl, h₆⟩ := List.map_eq_cons_iff.1 h₅
    obtain ⟨operand, rfl, rfl⟩ := List.map_eq_singleton_iff.1 h₆
    obtain ⟨levels, rfl⟩ := Nat.exists_eq_add_of_le' hn
    simp only [List.cons_append, List.nil_append]
    rw [Context.term, termAt, enter, ok_bind, having_aggregate hname]
    exact aggregateBound_eq_ok_iff.2 ⟨op, _, operand, _, rfl, rfl, hop, hbound, rfl⟩
  | nullity field quoted hop =>
    intro stop tokens rest htokens
    obtain ⟨first, tail, rfl, hfirst, htail⟩ := List.map_eq_cons_iff.1 htokens
    obtain ⟨lexeme, rfl, hlexeme⟩ := List.map_eq_singleton_iff.1 htail
    exact (term_literal hfirst).trans (predicate_nullity hop hlexeme)
  | oneOf field quoted h =>
    intro stop tokens rest htokens
    obtain ⟨first, tail, rfl, hfirst, htail⟩ := List.map_eq_cons_iff.1 htokens
    obtain ⟨lexeme, tail, rfl, hlexeme, hlist⟩ := List.map_eq_cons_iff.1 htail
    exact (term_literal hfirst).trans (predicate_oneOf hlexeme hlist h)
  | noneOf field quoted h =>
    intro stop tokens rest htokens
    obtain ⟨first, tail, rfl, hfirst, htail⟩ := List.map_eq_cons_iff.1 htokens
    obtain ⟨lexeme, tail, rfl, hlexeme, hlist⟩ := List.map_eq_cons_iff.1 htail
    exact (term_literal hfirst).trans (predicate_noneOf hlexeme hlist h)
  | comparison field quoted hop h =>
    intro stop tokens rest htokens
    obtain ⟨first, tail, rfl, hfirst, htail⟩ := List.map_eq_cons_iff.1 htokens
    obtain ⟨lexeme, tail, rfl, hlexeme, hoperand⟩ := List.map_eq_cons_iff.1 htail
    obtain ⟨operand, rfl, rfl⟩ := List.map_eq_singleton_iff.1 hoperand
    exact (term_literal hfirst).trans (predicate_comparison hop hlexeme h)

/-! ## Reading in place

The parser sets the condition of a having condition apart and looks four tokens ahead for a
function. Neither makes a difference to what it accepts. -/

/-- A condition on the members of the relationship `field`, read where it stands. -/
def havingInPlace (ctx : Context) (term : TermParser) (field : String) (stop : Nat)
    (tokens : List Lexeme) : Parse (Condition × List Lexeme) := do
  let tokens ← ctx.expect .openParen stop tokens
  let (sub, tokens) ← Context.expression term stop tokens
  let tokens ← ctx.expect .closeParen stop tokens
  return (.having field sub, tokens)

theorem havingFilter_eq_ok_iff_inPlace {levels : Nat} {field : String} {c : Condition} :
    ctx.havingFilter (ctx.term levels) field stop tokens = .ok (c, rest) ↔
      ctx.havingInPlace (ctx.term levels) field stop tokens = .ok (c, rest) := by
  constructor
  · intro h
    obtain ⟨opening, inside, closing, n, sub, rfl, hopening, hclosing, hn, hinside, rfl⟩ :=
      exists_of_havingFilter (readsTerms_term levels) h
    have hexpression : Context.expression (ctx.term levels) stop (inside ++ closing :: rest) = _ :=
      (accepts_of_derives hinside levels hn).expression rfl (connective?_eq_none hclosing)
    rw [havingInPlace, expect_eq_ok_iff.2 ⟨opening, rfl, hopening⟩, ok_bind, hexpression, ok_bind]
    simp only
    rw [expect_eq_ok_iff.2 ⟨closing, rfl, hclosing⟩]
    rfl
  · intro h
    obtain ⟨tail, hopen, hinner⟩ := bind_eq_ok_iff.1 h
    obtain ⟨⟨sub, tail'⟩, hexpression, hbehind⟩ := bind_eq_ok_iff.1 hinner
    obtain ⟨tail'', hclose, hresult⟩ := bind_eq_ok_iff.1 hbehind
    obtain ⟨rfl, rfl⟩ := Prod.mk.inj (Except.ok.inj hresult)
    obtain ⟨opening, rfl, hopening⟩ := expect_eq_ok_iff.1 hopen
    obtain ⟨closing, rfl, hclosing⟩ := expect_eq_ok_iff.1 hclose
    obtain ⟨inside, n, rfl, hn, hinside⟩ :=
      taken_of_expression (readsTerms_term levels) hexpression
    exact havingFilter_eq_ok hopening hclosing rfl hinside (accepts_of_derives hinside levels hn)

/-- Looking ahead takes nothing away from what is a condition in parentheses, whatever the name in
front of it. -/
theorem having_eq_ok_of_havingFilter {levels : Nat} {subject : Lexeme} {raw : String}
    {quoted : Bool} {c : Condition} (hsubject : subject.token = .literal raw quoted)
    (h : ctx.havingFilter (ctx.term levels) (trimmed raw) stop tokens = .ok (c, rest)) :
    ctx.having (ctx.term levels) stop (subject :: tokens) = .ok (c, rest) := by
  obtain ⟨opening, inside, closing, n, sub, rfl, -, -, -, hinside, -⟩ :=
    exists_of_havingFilter (readsTerms_term levels) h
  rw [having_eq_havingFilter hsubject hinside rfl]
  exact h

end Context

/-- A row of tokens is an expression in one way at most. -/
theorem Derives.unique {n m : Nat} {row : List Token} {c d : Condition}
    (hc : Derives zones .expression n row c) (hd : Derives zones .expression m row d) : c = d := by
  -- Read the row with room for both derivations.
  have htokens : (row.map fun t => (⟨t, 0, 0⟩ : Lexeme)).map Lexeme.token = row := by
    simp [Function.comp_def]
  let ctx : Context := ⟨[], 0, zones⟩
  have hread : ∀ {k e}, Derives zones .expression k row e → k ≤ max n m →
      ctx.filter (ctx.term (max n m)) 0 (row.map fun t => ⟨t, 0, 0⟩) = .ok e :=
    fun he hk => (Context.accepts_of_derives he _ hk).filter htokens
  have hboth := (hread hc (Nat.le_max_left n m)).symm.trans (hread hd (Nat.le_max_right n m))
  exact Except.ok.inj hboth

/-! ## Filters -/

/-- The tokens of a text are its lexemes and the end of the input. -/
theorem exists_lexemes_of_tokenize {source : List Char} {tokens : List Lexeme}
    (h : tokenize source = .ok tokens) :
    ∃ row, lexemes source = .ok row ∧
      tokens.map Lexeme.token = row.map Lexeme.token ++ [.endOfInput] := by
  unfold tokenize at h
  split at h
  · cases h
  · next row hrow =>
    obtain rfl := Except.ok.inj h
    exact ⟨row, hrow, by simp⟩

/-- A text within the limit is parsed as the filter that its lexemes make up. -/
theorem parse_eq_filter {limits : Limits} {source : String} {row : List Lexeme}
    (hlength : byteSize source.toList ≤ limits.maxLength)
    (hrow : lexemes source.toList = .ok row) :
    parse limits source zones =
      Context.filter ⟨source.toList, limits.maxDepth, zones⟩
        (Context.term ⟨source.toList, limits.maxDepth, zones⟩ limits.maxDepth)
        (byteSize source.toList) row := by
  simp only [parse, if_neg (Nat.not_lt.2 hlength), hrow]

/-- What is parsed is derived from the lexemes of the text, within the limit of nesting. -/
theorem exists_derives_of_parse {limits : Limits} {source : String} {c : Condition}
    (h : parse limits source zones = .ok c) :
    ∃ row n, lexemes source.toList = .ok row ∧ n ≤ limits.maxDepth ∧
      Derives zones .expression n (row.map Lexeme.token) c := by
  simp only [parse] at h
  split at h
  · cases h
  · split at h
    · cases h
    · next row hrow =>
      obtain ⟨n, hn, hderives⟩ := Context.derives_of_filter (Context.readsTerms_term _) h
      exact ⟨row, n, hrow, hn, hderives⟩

/-- **The parser accepts exactly its grammar.** A text within the limits that has tokens denotes `c`
if and only if its tokens derive `c`, nested within the limit; they derive no other condition. In
particular a condition on members is read as if in place, and looking ahead for a function refuses
none of them. -/
theorem parse_eq_ok_iff_derives {limits : Limits} {source : String} {tokens : List Lexeme}
    (hlength : byteSize source.toList ≤ limits.maxLength)
    (htokens : tokenize source.toList = .ok tokens) :
    ∃ row, tokens.map Lexeme.token = row ++ [.endOfInput] ∧
      (∀ c, parse limits source zones = .ok c ↔
        ∃ nesting, nesting ≤ limits.maxDepth ∧ Derives zones .expression nesting row c) ∧
      (∀ n m c d, Derives zones .expression n row c → Derives zones .expression m row d → c = d) ∧
      ∀ (ctx : Context) (levels stop : Nat) (behind rest : List Lexeme) (c : Condition)
        (field : String) (quoted : Bool) (start finish : Nat),
        (ctx.havingFilter (ctx.term levels) (trimmed field) stop behind = .ok (c, rest) ↔
          ctx.havingInPlace (ctx.term levels) (trimmed field) stop behind = .ok (c, rest)) ∧
        (ctx.havingInPlace (ctx.term levels) (trimmed field) stop behind = .ok (c, rest) →
          ctx.having (ctx.term levels) stop (⟨.literal field quoted, start, finish⟩ :: behind) =
            .ok (c, rest)) := by
  obtain ⟨row, hrow, hall⟩ := exists_lexemes_of_tokenize htokens
  refine ⟨row.map Lexeme.token, hall, fun c => ?_, fun n m c d hc hd => hc.unique hd, ?_⟩
  · rw [parse_eq_filter hlength hrow]
    constructor
    · exact Context.derives_of_filter (Context.readsTerms_term _)
    · rintro ⟨n, hn, h⟩
      exact (Context.accepts_of_derives h _ hn).filter rfl
  · intro ctx levels stop behind rest c field quoted start finish
    refine ⟨Context.havingFilter_eq_ok_iff_inPlace, fun h => ?_⟩
    exact Context.having_eq_ok_of_havingFilter rfl (Context.havingFilter_eq_ok_iff_inPlace.2 h)

/-- A relationship with the name of a function, in front of a condition. -/
theorem parse_having_named_sum :
    byteSize "$having:sum(b$eq:x)".toList ≤ ({} : Limits).maxLength ∧
      parse {} "$having:sum(b$eq:x)" =
        .ok (.having "sum" (.simple "b" .eq (some (.string "x")))) := by
  refine ⟨by decide, ?_⟩
  have htokens : tokenize "$having:sum(b$eq:x)".toList =
      .ok [⟨.having, 0, 8⟩, ⟨.literal "sum" false, 8, 11⟩, ⟨.openParen, 11, 12⟩,
        ⟨.literal "b" false, 12, 13⟩, ⟨.operator "$eq:", 13, 17⟩, ⟨.literal "x" false, 17, 18⟩,
        ⟨.closeParen, 18, 19⟩, ⟨.endOfInput, 19, 19⟩] := by decide +kernel
  obtain ⟨row, hrow, hparse, -⟩ :=
    @parse_eq_ok_iff_derives Zone.known {} "$having:sum(b$eq:x)" _ (by decide) htokens
  obtain rfl : row = [.having, .literal "sum" false, .openParen, .literal "b" false,
      .operator "$eq:", .literal "x" false, .closeParen] :=
    List.append_cancel_right (hrow.symm.trans rfl)
  have hx : Denotes Zone.known .eq (.literal "x" false) (.string "x") := .intro (by decide +kernel)
  have hb : Derives Zone.known .term 0
      [.literal "b" false, .operator "$eq:", .literal "x" false] _ :=
    .comparison "b" false rfl hx
  have hterm := Derives.term (.having "sum" false (.term hb))
  rw [show trimmed "sum" = "sum" by decide, show trimmed "b" = "b" by decide] at hterm
  exact (hparse _).2 ⟨1, by decide, hterm⟩

end FilterQuery.Condition
