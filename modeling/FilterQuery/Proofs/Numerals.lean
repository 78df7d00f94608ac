import FilterQuery.Proofs.DoubleText
import FilterQuery.Proofs.Operands
import FilterQuery.Proofs.ParsedConditions
import FilterQuery.Proofs.RoundTrip

set_option autoImplicit false

/-! # Numbers of a filter, in its text and in the query

A number of a filter is written into the query as its text, and into the text of the filter as a
bare literal with its text. Both are numerals as long as the number is finite. A literal without a
point is refused if it does not fit into 64 bits, but one with a point is rounded, to infinity from
`Binary64.overflow` on, and the text of infinity is not a numeral: the query then has a name in
place of the number, and in the text of the filter stands a string.

`Clause.numerals` are the texts that a clause holds verbatim. They are texts of numbers of the
condition, in turn (`Condition.numerals_sublist`). The text of a parsed filter without infinite
numbers is derived like the filter itself (`Condition.Derives.derives_tokens`). -/

namespace FilterQuery

open FilterQuery.Text

variable {zones : Zone.Database}

/-! ## Literals of numbers -/

/-- Doubles are finite or not, and all other values are finite. -/
def Value.isFinite : Value → Bool
  | .double x => x.isFinite
  | _ => true

/-- What a numeral denotes is finite if the numeral is in range. -/
theorem Numeral.isFinite_iff_inRange {n : Numeral} {v : Value}
    (h : Literal.number n.text = .ok v) : v.isFinite = true ↔ n.InRange := by
  cases hfraction : n.fraction with
  | none =>
    rw [number_text_of_whole hfraction] at h
    split_ifs at h with hrange
    cases h
    rw [InRange, hfraction]
    exact iff_of_true rfl hrange
  | some digits =>
    rw [number_text_of_fraction hfraction] at h
    cases h
    rw [InRange, hfraction]
    exact Binary64.isFinite_ofDecimal_iff n.negative n.whole digits

/-- A number stands in a filter as a bare literal of the shape of a number. -/
theorem Literal.number_of_coerce {cs : List Char} {quoted : Bool} {op : Operator} {v : Value}
    (h : coerce zones cs quoted op = .ok v) (hv : v.isNumeric = true) :
    quoted = false ∧ Shape.isNumber cs = true ∧ number cs = .ok v := by
  have hshape := shape_of_coerce h
  rw [Value.shape_of_isNumeric hv] at hshape
  cases quoted with
  | true => cases hshape
  | false =>
    have hnumber : Shape.isNumber cs = true :=
      Shape.recognises_of_ofText hshape.symm (by decide)
    rw [Condition.Context.coerce_number hnumber, orRefuse_eq_ok] at h
    exact ⟨rfl, hnumber, h⟩

namespace Value

variable {v : Value} {op : Operator}

/-- The literal that a number is read from: a bare numeral, in range exactly if the number is
finite. -/
def IsReadFrom (v : Value) (t : Token) : Prop :=
  ∃ (raw : String) (n : Numeral), t = .literal raw false ∧ trim raw.toList = n.text ∧
    Literal.number n.text = .ok v ∧ (v.isFinite = true ↔ n.InRange)

theorem isReadFrom_of_denotes {t : Token} (h : Condition.Denotes zones op t v)
    (hv : v.isNumeric = true) : v.IsReadFrom t := by
  obtain ⟨hcoerce⟩ := h
  obtain ⟨rfl, hshape, hnumber⟩ := Literal.number_of_coerce hcoerce hv
  obtain ⟨n, hn⟩ := Numeral.exists_text_eq hshape
  rw [← hn] at hnumber
  exact ⟨_, n, rfl, hn.symm, hnumber, Numeral.isFinite_iff_inRange hnumber⟩

/-- Of the texts of numbers, those of the finite ones are numerals. -/
theorem isNumber_text_iff (hv : v.isNumeric = true) :
    Shape.isNumber v.text = true ↔ v.isFinite = true := by
  cases v with
  | long n => exact iff_of_true (Shape.isNumber_intText _) rfl
  | double x => exact x.isNumber_text_iff
  | _ => cases hv

theorem number_text (hv : v.isNumeric = true) (hfinite : v.isFinite = true) :
    Literal.number v.text = .ok v := by
  cases v with
  | long n => exact Literal.number_intText n
  | double x =>
    obtain ⟨n, htext, hnumber⟩ := Binary64.exists_text_eq_of_isFinite hfinite
    show Literal.number x.text = .ok (.double x)
    rw [← htext, hnumber]
  | _ => cases hv

theorem token_of_isNumeric (hv : v.isNumeric = true) :
    v.token = .literal (String.ofList v.text) false := by
  cases v with
  | long | double => rfl
  | _ => cases hv

theorem trim_text_of_isNumeric (hv : v.isNumeric = true) : trim v.text = v.text := by
  have hblank : ∀ c ∈ v.text, isBlank c = false := by
    intro c hc
    rcases mem_text_of_isNumeric hv hc with hdigit | hletter
    · exact not_isBlank_of_isDigit hdigit
    · have hall : (numeralLetters.all fun d => !isBlank d) = true := by decide
      simpa using List.all_eq_true.1 hall c hletter
  exact trim_eq_self (fun c hc => hblank c (List.mem_of_mem_head? hc))
    fun c hc => hblank c (List.mem_of_getLast? hc)

theorem denotesNumber_token (hv : v.isNumeric = true) (hfinite : v.isFinite = true)
    (op : Operator) : Condition.DenotesNumber zones op v.token v := by
  have hshape := (isNumber_text_iff hv).2 hfinite
  have htrim : trim (String.ofList v.text).toList = v.text := by
    rw [String.toList_ofList, trim_text_of_isNumeric hv]
  rw [token_of_isNumeric hv]
  refine .intro (by rwa [htrim]) ?_
  rw [htrim, Condition.Context.coerce_number hshape, number_text hv hfinite]
  rfl

/-- The literal that is written for a number denotes it if the number is finite, and else not. -/
theorem denotes_token_iff (hv : v.isNumeric = true) (op : Operator) :
    Condition.Denotes zones op v.token v ↔ v.isFinite = true := by
  constructor
  · intro h
    rw [token_of_isNumeric hv] at h
    obtain ⟨hcoerce⟩ := h
    rw [String.toList_ofList, trim_text_of_isNumeric hv] at hcoerce
    exact (isNumber_text_iff hv).1 (Literal.number_of_coerce hcoerce hv).2.1
  · intro hfinite
    exact (denotesNumber_token hv hfinite op).denotes

/-- A value that is read back from its literal: a number if it is finite, and any other value if it
can be written. -/
def IsLegible (v : Value) : Prop := if v.isNumeric then v.isFinite = true else v.Writable .eq

namespace IsLegible

theorem spelled (h : v.IsLegible) : v.Spelled := by
  cases v with
  | string s => exact Condition.spelled_of_writable h
  | _ => trivial

theorem denotes_token (h : v.IsLegible) (hfits : v.fits op = true) :
    Condition.Denotes zones op v.token v.shown := by
  cases v with
  | long | double => exact (Value.denotesNumber_token rfl h op).denotes
  | string s =>
    refine Value.denotes_token ⟨h.1, fun hop => ?_⟩
    simpa [fits, hop] using hfits
  | _ => exact Value.denotes_token h

theorem denotesNumber_token (h : v.IsLegible) (hv : v.isNumeric = true) :
    Condition.DenotesNumber zones op v.token v.shown := by
  cases v with
  | long | double => exact Value.denotesNumber_token rfl h op
  | _ => cases hv

end IsLegible

end Value

/-! ## Numerals of a clause -/

/-- The text of an operand that is written as it is. -/
def Operand.numeral? : Operand → Option (List Char)
  | .numeral cs => some cs
  | _ => none

namespace Clause

mutual

/-- The numerals of a clause, from left to right: operands of comparisons and lists, and the bounds
of totals. -/
def numerals : Clause → List (List Char)
  | .compare _ _ operand => operand.numeral?.toList
  | .oneOf _ items | .noneOf _ items => items.filterMap Operand.numeral?
  | .not clause => numerals clause
  | .group _ clauses => numeralsAll clauses
  | .members _ _ _ restriction => numerals restriction
  | .totals _ _ _ _ _ _ bound => [bound]
  | .null _ | .notNull _ | .compareText .. | .compareComponent .. => []

/-- The numerals of all clauses in turn. -/
def numeralsAll : List Clause → List (List Char)
  | [] => []
  | clause :: clauses => numerals clause ++ numeralsAll clauses

end

variable {ref : Ref} {op : Operator} {clause : Clause}

theorem numeralsAll_eq_nil {clauses : List Clause} (h : ∀ clause ∈ clauses, clause.numerals = []) :
    numeralsAll clauses = [] := by
  induction clauses with
  | nil => rfl
  | cons clause rest ih =>
    obtain ⟨hclause, hrest⟩ := List.forall_mem_cons.1 h
    rw [numeralsAll, hclause, ih hrest, List.append_nil]

theorem numerals_of_compareRow? {row : List (Component × Nat)}
    (h : compareRow? ref op row = some clause) : clause.numerals = [] := by
  refine compareRow?_induction (P := fun clause => clause.numerals = []) ?_ ?_ h
  · intro component symbol n
    rw [numerals]
  · intro connective clauses hclauses
    rw [numerals, numeralsAll_eq_nil hclauses]

end Clause

/-- The texts of the numbers among some values. -/
def Value.numberTexts (vs : List Value) : List (List Char) := (vs.filter isNumeric).map text

namespace Scope

variable {s : Scope} {field : String} {ref : Ref} {attr : Attribute} {op : Operator}
  {names names' : Names} {clause : Clause}

theorem numerals_of_comparison {value : Value}
    (h : s.comparison field ref attr op value names = .ok (clause, names')) :
    clause.numerals.Sublist (Value.numberTexts [value]) := by
  cases value with
  | long | double =>
    obtain ⟨symbol, -, h⟩ := bind_eq_ok_iff.1 h
    cases h
    -- The text is a literal if the attribute is not numeric.
    cases attr.isNumeric with
    | true => exact List.Sublist.refl _
    | false => exact List.nil_sublist _
  | string text =>
    simp only [comparison] at h
    split at h
    · cases h
      exact List.nil_sublist _
    · obtain ⟨symbol, -, h⟩ := bind_eq_ok_iff.1 h
      cases h
      exact List.nil_sublist _
  | boolean b =>
    simp only [comparison] at h
    split at h
    all_goals
      obtain ⟨symbol, -, h⟩ := bind_eq_ok_iff.1 h
      split at h
      · cases h
        exact List.nil_sublist _
      · cases h
        exact List.nil_sublist _
  | date | dateTime | year =>
    obtain ⟨symbol, -, h⟩ := bind_eq_ok_iff.1 h
    cases h
    exact List.nil_sublist _
  | monthDay | time =>
    obtain ⟨row, hrow, h⟩ := bind_eq_ok_iff.1 h
    cases h
    rw [Clause.numerals_of_compareRow? (orFail_eq_ok.1 hrow)]
    exact List.nil_sublist _
  | instant i =>
    obtain ⟨symbol, -, h⟩ := bind_eq_ok_iff.1 h
    obtain ⟨bound, -, h⟩ := bind_eq_ok_iff.1 h
    cases h
    exact List.nil_sublist _

theorem numerals_of_simple {value : Option Value}
    (h : s.simple field op value names = .ok (clause, names')) :
    clause.numerals.Sublist (Value.numberTexts value.toList) := by
  obtain ⟨⟨ref, attr⟩, -, h⟩ := bind_eq_ok_iff.1 h
  simp only at h
  split at h
  · cases h
    exact List.nil_sublist _
  · cases h
    exact List.nil_sublist _
  · obtain ⟨v, hv, h⟩ := bind_eq_ok_iff.1 h
    rw [orFail_eq_ok.1 hv]
    exact numerals_of_comparison h

/-- The numbers of a list are all written as they are. -/
theorem numerals_of_mapM_listItem {values : List Value} {items : List Operand}
    (h : values.mapM listItem = .ok items) :
    items.filterMap Operand.numeral? = Value.numberTexts values := by
  induction values generalizing items with
  | nil =>
    cases h
    rfl
  | cons value values ih =>
    rw [List.mapM_cons] at h
    obtain ⟨item, hitem, h⟩ := bind_eq_ok_iff.1 h
    obtain ⟨rest, hrest, h⟩ := bind_eq_ok_iff.1 h
    cases h
    have htail := ih hrest
    cases value with
    | string =>
      cases hitem
      exact htail
    | long | double =>
      cases hitem
      exact congrArg (List.cons _) htail
    | _ => cases hitem

theorem numerals_of_list {values : List Value} {items : List Operand}
    (h : s.list field values = .ok (ref, items)) :
    items.filterMap Operand.numeral? = Value.numberTexts values := by
  obtain ⟨⟨found, attr⟩, -, h⟩ := bind_eq_ok_iff.1 h
  obtain ⟨written, hitems, h⟩ := bind_eq_ok_iff.1 h
  cases h
  exact numerals_of_mapM_listItem hitems

theorem numerals_of_aggregate {function : Aggregate} {bound : Value}
    (h : s.aggregate field function op bound names = .ok (clause, names')) :
    clause.numerals = Value.numberTexts [bound] := by
  obtain ⟨hop, ownerId, aggregated, symbol, -, -, -, -, hnumeric, rfl, -⟩ := aggregate_eq_ok h
  simp [Clause.numerals, Value.numberTexts, hnumeric]

end Scope

namespace Condition

mutual

/-- What a condition is compiled to has texts of its numbers for numerals, in turn. -/
theorem numerals_sublist {s : Scope} {names names' : Names} {clause : Clause} :
    ∀ {c : Condition}, c.compile s names = .ok (clause, names') →
      clause.numerals.Sublist (Value.numberTexts c.values)
  | .simple field op value, h => Scope.numerals_of_simple (compile_simple.symm.trans h)
  | .oneOf field vs, h => by
    obtain ⟨ref, items, hlist, rfl, rfl⟩ := compile_oneOf_eq_ok h
    rw [Clause.numerals, values, Scope.numerals_of_list hlist]
  | .noneOf field vs, h => by
    obtain ⟨ref, items, hlist, rfl, rfl⟩ := compile_noneOf_eq_ok h
    rw [Clause.numerals, values, Scope.numerals_of_list hlist]
  | .not c, h => by
    obtain ⟨inner, hinner, rfl⟩ := compile_not_eq_ok h
    rw [Clause.numerals, values]
    exact numerals_sublist hinner
  | .group connective first second more, h => by
    obtain ⟨a, b, rest, names₁, names₂, ha, hb, hrest, rfl⟩ := compile_group_eq_ok h
    have hall := (numerals_sublist ha).append
      ((numerals_sublist hb).append (numeralsAll_sublist hrest))
    simpa [Clause.numerals, Clause.numeralsAll, values, Value.numberTexts] using hall
  | .having field sub, h => by
    obtain ⟨hop, restriction, names₁, -, -, hsub, rfl, -⟩ := compile_having_eq_ok h
    rw [Clause.numerals, values]
    exact numerals_sublist hsub
  | .aggregate field function op bound, h => by
    rw [values, Scope.numerals_of_aggregate (compile_aggregate.symm.trans h)]

theorem numeralsAll_sublist {s : Scope} {names names' : Names} {clauses : List Clause} :
    ∀ {cs : List Condition}, compileAll s cs names = .ok (clauses, names') →
      (Clause.numeralsAll clauses).Sublist (Value.numberTexts (valuesAll cs))
  | [], h => by
    cases compileAll_nil.symm.trans h
    exact List.nil_sublist _
  | c :: cs, h => by
    obtain ⟨a, rest, names₁, ha, hrest, rfl⟩ := compileAll_cons_eq_ok h
    simpa [Clause.numeralsAll, valuesAll, Value.numberTexts] using
      (numerals_sublist ha).append (numeralsAll_sublist hrest)

end

/-! ## Texts of parsed filters -/

/-- The tokens of a derived condition derive what its text shows. -/
theorem Derives.derives_tokens {phrase : Phrase} {n : Nat} {row : List Token} {c : Condition}
    (h : Derives zones phrase n row c) (hfields : ∀ field ∈ c.fields, IsField field)
    (hvalues : ∀ v ∈ c.values, v.IsLegible) (zones' : Zone.Database) :
    Derives zones' .term c.nesting c.tokens c.shown := by
  induction h with
  | term _ ih => exact ih hfields hvalues
  | join join _ _ ihleft ihright =>
    simp only [fields, fieldsAll, values, valuesAll, List.append_nil, List.forall_mem_append]
      at hfields hvalues
    have hderives := Derives.parentheses
      (.join join (.term (ihleft hfields.1 hvalues.1)) (ihright hfields.2 hvalues.2))
    simpa [nesting, nestingAll, shown, shownAll, tokens, moreTokens] using hderives
  | not _ ih => exact .not (ih hfields hvalues)
  | parentheses _ ih => exact ih hfields hvalues
  | having name quoted _ ih =>
    obtain ⟨hfield, hrest⟩ := List.forall_mem_cons.1 hfields
    have hderives := Derives.having (trimmed name) false (.term (ih hrest hvalues))
    rwa [hfield.2.1] at hderives
  | @aggregate function t bound name field quoted quoted' op hname hop hbound =>
    have hfield : IsField (trimmed field) := by simpa [fields] using hfields
    have hlegible : bound.IsLegible := by simpa [values] using hvalues
    have hfunction : Aggregate.ofName? (trimmed function.name) = some function := by
      have htrim : trimmed function.name = function.name := by cases function <;> decide
      rw [htrim, Aggregate.ofName?_name]
    have hderives : Derives zones' .term 1 _ _ :=
      .aggregate function.name (trimmed field) false false op hfunction hop
        (hlegible.denotesNumber_token hbound.isNumeric)
    rwa [hfield.2.1] at hderives
  | nullity field quoted hop =>
    have hfield : IsField (trimmed field) := by simpa [fields] using hfields
    have hderives : Derives zones' .term 0 _ _ := .nullity (trimmed field) false hop
    rwa [hfield.2.1] at hderives
  | oneOf field quoted h =>
    have hfield : IsField (trimmed field) := by simpa [fields] using hfields
    obtain ⟨hne, hfits⟩ := h.fits
    have hderives : Derives zones' .term 0 _ _ := .oneOf (trimmed field) false
      (denotesList_valueTokens hne fun v hv => (hvalues v hv).denotes_token (hfits v hv))
    rwa [hfield.2.1] at hderives
  | noneOf field quoted h =>
    have hfield : IsField (trimmed field) := by simpa [fields] using hfields
    obtain ⟨hne, hfits⟩ := h.fits
    have hderives : Derives zones' .term 0 _ _ := .noneOf (trimmed field) false
      (denotesList_valueTokens hne fun v hv => (hvalues v hv).denotes_token (hfits v hv))
    rwa [hfield.2.1] at hderives
  | @comparison op t v field quoted hop h =>
    have hfield : IsField (trimmed field) := by simpa [fields] using hfields
    have hlegible : v.IsLegible := by simpa [values] using hvalues
    have hderives : Derives zones' .term 0 _ _ :=
      .comparison (trimmed field) false hop (hlegible.denotes_token h.fits)
    rwa [hfield.2.1] at hderives

/-- **Numbers of a filter are written as numerals if and only if they are finite.** The numbers of a
parsed filter are read from bare numerals, in turn, and are infinite if these have a point and are
too large. A number has a numeral for its text, and its literal denotes the same number, exactly if
it is finite. The numerals of the clause that the filter is compiled to are such texts, and if no
number of the filter is infinite, its text is parsed as the filter that it shows. -/
theorem numerals_of_parse {limits : Limits} {source : String} {c : Condition}
    (h : parse limits source zones = .ok c) :
    (∃ row, lexemes source.toList = .ok row ∧
      List.Forall₂ (fun operand v => v.isNumeric = true → v.IsReadFrom operand.2)
        (operands none (row.map Lexeme.token)) c.values) ∧
    (∀ v ∈ c.values, v.isNumeric = true →
      (Shape.isNumber v.text = true ↔ v.isFinite = true) ∧
        ∀ op, Denotes zones op v.token v ↔ v.isFinite = true) ∧
    (∀ s names clause names', c.compile s names = .ok (clause, names') →
      clause.numerals.Sublist (Value.numberTexts c.values) ∧
        ((∀ v ∈ c.values, v.isFinite = true) →
          ∀ cs ∈ clause.numerals, Shape.isNumber cs = true)) ∧
    (∀ (limits' : Limits) (zones' : Zone.Database), (∀ field ∈ c.fields, IsField field) →
      (∀ v ∈ c.values, v.IsLegible) → byteSize c.compactText ≤ limits'.maxLength →
      c.nesting ≤ limits'.maxDepth →
        parse limits' (String.ofList c.compactText) zones' = .ok c.shown) := by
  obtain ⟨row, n, hrow, -, hderives⟩ := exists_derives_of_parse h
  refine ⟨⟨row, hrow, ?_⟩, ?_, ?_, ?_⟩
  · exact (operands_of_parse h hrow).2.imp fun operand v => Value.isReadFrom_of_denotes
  · intro v _ hv
    exact ⟨Value.isNumber_text_iff hv, Value.denotes_token_iff hv⟩
  · intro s names clause names' hcompile
    have hsublist := numerals_sublist hcompile
    refine ⟨hsublist, fun hfinite cs hcs => ?_⟩
    obtain ⟨v, hv, rfl⟩ := List.mem_map.1 (hsublist.subset hcs)
    obtain ⟨hmem, hnumeric⟩ := List.mem_filter.1 hv
    exact (Value.isNumber_text_iff hnumeric).2 (hfinite v hmem)
  · intro limits' zones' hfields hvalues hlength hdepth
    exact parse_compactText_of_derives hfields (fun v hv => (hvalues v hv).spelled)
      (.term (hderives.derives_tokens hfields hvalues zones')) hlength hdepth

/-- A filter with doubles in a list and for a bound, some with more digits than they need. -/
def longNumerals : String :=
  "a$in:[0.10000000000000000555, -0.0, 7]$and:$not:$having:sum(b)$lt:-7.250"

/-- Its text has the same numbers. -/
theorem parse_compactText_longNumerals : ∃ c, parse {} longNumerals = .ok c ∧
    Value.numberTexts c.values = ["0.1", "-0.0", "7", "-7.25"].map String.toList ∧
    parse {} (String.ofList c.compactText) = .ok c.shown := by
  have hrun : (parse {} longNumerals).toOption.any (fun c => decide (c.fields = ["a", "b"] ∧
      (c.values.all fun v => v.isNumeric && v.isFinite) = true ∧
      Value.numberTexts c.values = ["0.1", "-0.0", "7", "-7.25"].map String.toList ∧
      byteSize c.compactText ≤ ({} : Limits).maxLength ∧
      c.nesting ≤ ({} : Limits).maxDepth)) = true := by decide +kernel
  obtain ⟨c, hparse, hrun⟩ := exists_ok_of_any hrun
  obtain ⟨hfields, hall, htexts, hlength, hdepth⟩ := of_decide_eq_true hrun
  have hbare : ∀ field ∈ c.fields, IsField field := by
    have ha : IsField "a" := ⟨by decide, by decide, by decide +kernel⟩
    have hb : IsField "b" := ⟨by decide, by decide, by decide +kernel⟩
    simpa [hfields] using ⟨ha, hb⟩
  have hlegible : ∀ v ∈ c.values, v.IsLegible := by
    intro v hv
    obtain ⟨hnumeric, hfinite⟩ : v.isNumeric = true ∧ v.isFinite = true := by
      simpa using List.all_eq_true.1 hall v hv
    rwa [Value.IsLegible, if_pos hnumeric]
  exact ⟨c, hparse, htexts, (numerals_of_parse hparse).2.2.2 {} _ hbare hlegible hlength hdepth⟩

/-- A comparison with a numeral is parsed as one with what the numeral denotes. -/
theorem parse_comparison_numeral {limits : Limits} {field : String} {op : Operator} {n : Numeral}
    {v : Value} (hfield : IsField field) (hop : op.takesValue = true)
    (hn : Literal.number n.text = .ok v)
    (hlength : byteSize (field.toList ++ (op.token.toList ++ n.text)) ≤ limits.maxLength) :
    parse limits (String.ofList (field.toList ++ (op.token.toList ++ n.text))) zones =
      .ok (.simple field op (some v)) := by
  refine parse_comparison_of_reads hfield hop n.reads_text (.intro ?_) hlength
  rw [String.toList_ofList, n.plainText.trim_eq, Context.coerce_number n.isNumber_text, hn]
  rfl

/-- A number of 309 digits with a point. -/
def beyondRange : Numeral where
  negative := false
  whole := List.replicate 309 '9'
  fraction := some ['0']
  allDigits_whole := by decide +kernel
  allDigits_fraction := by decide

/-- A comparison with it is accepted. But its number is infinite: the query has no numeral for it,
and the text of the filter is parsed as a comparison with a string. -/
theorem parse_beyondRange : ∃ catalog s c c' t,
    Catalog.build Example.company = .ok catalog ∧ Session.start catalog "Department" = .ok s ∧
    parse {} (String.ofList ("budget$gt:".toList ++ beyondRange.text)) = .ok c ∧
    (∃ v ∈ c.values, v.isNumeric = true ∧ Shape.isNumber v.text = false) ∧
    s.accept c = .ok t ∧ String.ofList t.whereText = "de_0.budget > inf" ∧
    parse {} (String.ofList c.compactText) = .ok c' ∧ c'.values = [.string "inf"] := by
  let v : Value := .double (Binary64.ofMagnitude false Binary64.infinity)
  let c : Condition := .simple "budget" .gt (some v)
  have hnumber : Literal.number beyondRange.text = .ok v := by decide +kernel
  have hparse : parse {} (String.ofList ("budget$gt:".toList ++ beyondRange.text)) = .ok c := by
    have hsplit : "budget$gt:".toList = "budget".toList ++ Operator.gt.token.toList := by decide
    rw [hsplit, List.append_assoc]
    exact parse_comparison_numeral ⟨by decide, by decide, by decide +kernel⟩ rfl hnumber
      (by decide +kernel)
  have hquery : (Catalog.build Example.company).toOption.any (fun catalog =>
      (Session.start catalog "Department").toOption.any fun s =>
        (s.accept c).toOption.any fun t =>
          decide (String.ofList t.whereText = "de_0.budget > inf")) = true := by decide +kernel
  have hagain : (parse {} (String.ofList c.compactText)).toOption.any
      (fun c' => decide (c'.values = [.string "inf"])) = true := by decide +kernel
  obtain ⟨catalog, hbuild, hquery⟩ := exists_ok_of_any hquery
  obtain ⟨s, hstart, hquery⟩ := exists_ok_of_any hquery
  obtain ⟨t, haccept, hquery⟩ := exists_ok_of_any hquery
  obtain ⟨c', hreparse, hagain⟩ := exists_ok_of_any hagain
  exact ⟨catalog, s, c, c', t, hbuild, hstart, hparse, ⟨v, List.mem_cons_self, rfl, by decide⟩,
    haccept, of_decide_eq_true hquery, hreparse, of_decide_eq_true hagain⟩

end Condition

end FilterQuery
