import FilterQuery.Proofs.Parse
import FilterQuery.Proofs.Scoping
import FilterQuery.Proofs.SessionRun
import FilterQuery.Proofs.Shapes

set_option autoImplicit false

/-! # What a compile error means

A compile error is raised by one condition of the filter, in the scope that it stands in:
`Condition.Reaches` follows the compiler to that condition, and `Condition.own` is what the
condition checks there by itself. `Condition.Refused` lists what it can be refused for. The list is
shorter than the type of errors. A filter that was parsed has a value where its operator takes one,
and bounds functions by numbers (`Grammatical`). In a catalog that is built from definitions,
associations lead to types and types have identifiers, and a path that was resolved once is walked
again without surprises (`Scope.hop_outcome`). So the compiler has checks that never fail. -/

namespace FilterQuery

open FilterQuery.Text

variable {zones : Zone.Database}

/-- Steps in a row fail exactly if one of them does. -/
theorem bind_eq_error_iff {ε α β : Type} {x : Except ε α} {f : α → Except ε β} {e : ε} :
    x >>= f = .error e ↔ x = .error e ∨ ∃ a, x = .ok a ∧ f a = .error e := by
  cases x with
  | error e' => simp
  | ok a => simp

theorem orFail_eq_error_iff {α : Type} {e : CompileError} {e' : Failure CompileError}
    {o : Option α} : orFail e o = .error e' ↔ o = none ∧ e' = .error e := by
  cases o with
  | none => simp [orFail, refuse, eq_comm]
  | some a => simp [orFail]

namespace Condition

/-! ## Filters that were parsed -/

/-- A condition whose operators have what they take: a value, or nothing, or a number. -/
inductive Grammatical : Condition → Prop
  | nullity (field : String) {op : Operator} (hop : op.takesNothing = true) :
    Grammatical (.simple field op none)
  | comparison (field : String) {op : Operator} (hop : op.takesValue = true) (v : Value) :
    Grammatical (.simple field op (some v))
  | oneOf (field : String) (values : List Value) : Grammatical (.oneOf field values)
  | noneOf (field : String) (values : List Value) : Grammatical (.noneOf field values)
  | not {c : Condition} (h : Grammatical c) : Grammatical (.not c)
  | group {first second : Condition} {more : List Condition} (join : Connective)
    (hfirst : Grammatical first) (hsecond : Grammatical second)
    (hmore : ∀ c ∈ more, Grammatical c) : Grammatical (.group join first second more)
  | having {sub : Condition} (field : String) (h : Grammatical sub) :
    Grammatical (.having field sub)
  | aggregate (field : String) (function : Aggregate) {op : Operator} {bound : Value}
    (hop : op.isComparison = true) (hbound : bound.isNumeric = true) :
    Grammatical (.aggregate field function op bound)

theorem DenotesNumber.isNumeric {op : Operator} {t : Token} {v : Value}
    (h : DenotesNumber zones op t v) : v.isNumeric = true := by
  obtain ⟨hshape, hv⟩ := h
  rw [Context.coerce_number hshape, orRefuse_eq_ok] at hv
  exact Literal.isNumeric_of_number hv

theorem Derives.grammatical {phrase : Phrase} {n : Nat} {row : List Token} {c : Condition}
    (h : Derives zones phrase n row c) : Grammatical c := by
  induction h with
  | term _ ih => exact ih
  | join join _ _ ihleft ihright => exact .group join ihleft ihright (by simp)
  | not _ ih => exact .not ih
  | parentheses _ ih => exact ih
  | having name quoted _ ih => exact .having _ ih
  | aggregate name field quoted quoted' op hname hop hbound =>
    exact .aggregate _ _ hop hbound.isNumeric
  | nullity field quoted hop => exact .nullity _ hop
  | oneOf field quoted h => exact .oneOf _ _
  | noneOf field quoted h => exact .noneOf _ _
  | comparison field quoted hop h => exact .comparison _ hop _

/-- What is parsed is grammatical. -/
theorem grammatical_of_parse {limits : Limits} {source : String} {c : Condition}
    (h : parse limits source zones = .ok c) : Grammatical c := by
  obtain ⟨_, _, -, -, hderives⟩ := exists_derives_of_parse h
  exact hderives.grammatical

/-! ## The condition that fails -/

/-- What a condition checks by itself, before its parts are looked at. -/
def own (s : Scope) (names : Names) : Condition → Compile Unit
  | .simple field op value => (s.simple field op value names).map fun _ => ()
  | .oneOf field values | .noneOf field values => (s.list field values).map fun _ => ()
  | .having field _ => (s.havingHop field names).map fun _ => ()
  | .aggregate field function op bound =>
    (s.aggregate field function op bound names).map fun _ => ()
  | .not _ | .group .. => .ok ()

/-- The compiler comes from one condition to another that is a part of it: everything in front of it
has compiled. -/
inductive Reaches : Scope → Names → Condition → Scope → Names → Condition → Prop
  | here {s : Scope} {names : Names} {c : Condition} : Reaches s names c s names c
  | not {s s' : Scope} {names names' : Names} {c d : Condition}
    (h : Reaches s names c s' names' d) : Reaches s names (.not c) s' names' d
  | first {s s' : Scope} {names names' : Names} {join : Connective} {first second d : Condition}
    {more : List Condition} (h : Reaches s names first s' names' d) :
    Reaches s names (.group join first second more) s' names' d
  | second {s s' : Scope} {names names₁ names' : Names} {join : Connective}
    {first second d : Condition} {more : List Condition} {a : Clause}
    (hfirst : first.compile s names = .ok (a, names₁)) (h : Reaches s names₁ second s' names' d) :
    Reaches s names (.group join first second more) s' names' d
  | more {s s' : Scope} {names names₁ names₂ names₃ names' : Names} {join : Connective}
    {first second c d : Condition} {before after : List Condition} {a b : Clause}
    {clauses : List Clause} (hfirst : first.compile s names = .ok (a, names₁))
    (hsecond : second.compile s names₁ = .ok (b, names₂))
    (hbefore : compileAll s before names₂ = .ok (clauses, names₃))
    (h : Reaches s names₃ c s' names' d) :
    Reaches s names (.group join first second (before ++ c :: after)) s' names' d
  | having {s s' : Scope} {names names' : Names} {field : String} {sub d : Condition}
    {hop : Scope.Hop} (hhop : s.havingHop field names = .ok hop)
    (h : Reaches (s.inner hop.target (names.nextAlias hop.target).1)
      (names.nextAlias hop.target).2.enter sub s' names' d) :
    Reaches s names (.having field sub) s' names' d

mutual

/-- A failure is that of one condition. -/
theorem exists_own_error_of_compile {s : Scope} {names : Names} {e : Failure CompileError} :
    ∀ {c : Condition}, c.compile s names = .error e →
      ∃ s' names' d, Reaches s names c s' names' d ∧ d.own s' names' = .error e
  | .simple field op value, h =>
    ⟨s, names, _, .here, map_eq_error_iff.2 (compile_simple.symm.trans h)⟩
  | .oneOf field values, h => by
    rw [compile_oneOf] at h
    rcases bind_eq_error_iff.1 h with hlist | ⟨⟨ref, items⟩, -, h⟩
    · exact ⟨s, names, _, .here, map_eq_error_iff.2 hlist⟩
    · cases h
  | .noneOf field values, h => by
    rw [compile_noneOf] at h
    rcases bind_eq_error_iff.1 h with hlist | ⟨⟨ref, items⟩, -, h⟩
    · exact ⟨s, names, _, .here, map_eq_error_iff.2 hlist⟩
    · cases h
  | .not c, h => by
    rw [compile_not] at h
    rcases bind_eq_error_iff.1 h with hinner | ⟨⟨clause, names₁⟩, -, h⟩
    · obtain ⟨s', names', d, hreaches, hown⟩ := exists_own_error_of_compile hinner
      exact ⟨s', names', d, .not hreaches, hown⟩
    · cases h
  | .group join first second more, h => by
    rw [compile_group] at h
    rcases bind_eq_error_iff.1 h with hfirst | ⟨⟨a, names₁⟩, hfirst, h⟩
    · obtain ⟨s', names', d, hreaches, hown⟩ := exists_own_error_of_compile hfirst
      exact ⟨s', names', d, .first hreaches, hown⟩
    rcases bind_eq_error_iff.1 h with hsecond | ⟨⟨b, names₂⟩, hsecond, h⟩
    · obtain ⟨s', names', d, hreaches, hown⟩ := exists_own_error_of_compile hsecond
      exact ⟨s', names', d, .second hfirst hreaches, hown⟩
    rcases bind_eq_error_iff.1 h with hmore | ⟨⟨rest, names₃⟩, -, h⟩
    · obtain ⟨before, c, after, clauses, names₃, hsplit, hbefore, s', names', d, hreaches, hown⟩ :=
        exists_own_error_of_compileAll hmore
      exact ⟨s', names', d, hsplit ▸ .more hfirst hsecond hbefore hreaches, hown⟩
    · cases h
  | .having field sub, h => by
    rw [compile_having] at h
    rcases bind_eq_error_iff.1 h with hhop | ⟨hop, hhop, h⟩
    · exact ⟨s, names, _, .here, map_eq_error_iff.2 hhop⟩
    rcases bind_eq_error_iff.1 h with hsub | ⟨⟨clause, names₁⟩, -, h⟩
    · obtain ⟨s', names', d, hreaches, hown⟩ := exists_own_error_of_compile hsub
      exact ⟨s', names', d, .having hhop hreaches, hown⟩
    · cases h
  | .aggregate field function op bound, h =>
    ⟨s, names, _, .here, map_eq_error_iff.2 (compile_aggregate.symm.trans h)⟩

theorem exists_own_error_of_compileAll {s : Scope} {names : Names} {e : Failure CompileError} :
    ∀ {cs : List Condition}, compileAll s cs names = .error e →
      ∃ before c after clauses names₁, cs = before ++ c :: after ∧
        compileAll s before names = .ok (clauses, names₁) ∧
        ∃ s' names' d, Reaches s names₁ c s' names' d ∧ d.own s' names' = .error e
  | [], h => by
    rw [compileAll_nil] at h
    cases h
  | c :: cs, h => by
    rw [compileAll_cons] at h
    rcases bind_eq_error_iff.1 h with hc | ⟨⟨a, names₁⟩, hc, h⟩
    · exact ⟨[], c, cs, [], names, rfl, compileAll_nil, exists_own_error_of_compile hc⟩
    rcases bind_eq_error_iff.1 h with hrest | ⟨⟨rest, names₂⟩, -, h⟩
    · obtain ⟨before, c', after, clauses, names₂, hsplit, hbefore, hfails⟩ :=
        exists_own_error_of_compileAll hrest
      refine ⟨c :: before, c', after, a :: clauses, names₂, by rw [hsplit]; rfl, ?_, hfails⟩
      rw [compileAll_cons]
      exact bind_eq_ok_iff.2 ⟨(a, names₁), hc, bind_eq_ok_iff.2 ⟨(clauses, names₂), hbefore, rfl⟩⟩
    · cases h

end

/-! ## What a condition is refused for -/

/-- The field of a condition that has one. -/
def field? : Condition → Option String
  | .simple field _ _ | .oneOf field _ | .noneOf field _ | .having field _
  | .aggregate field _ _ _ => some field
  | .not _ | .group .. => none

/-- The members of a list that a field is looked for in. -/
def values? : Condition → Option (List Value)
  | .oneOf _ values | .noneOf _ values => some values
  | _ => none

/-- Why a condition is refused in a scope. -/
inductive Refused (s : Scope) (names : Names) : Condition → CompileError → Prop
  | invalidField {c : Condition} {field : String} {cause : PathError}
    (hfield : c.field? = some field) (hcause : ∀ type, cause ≠ .unknownType type) :
    Refused s names c (.invalidField s.entity field cause)
  | pattern {field : String} {v : Value} (hv : v.string? = none) :
    Refused s names (.simple field .like (some v)) (.illegalOperator .like v.kind)
  | orderedBoolean {field : String} {op : Operator} (hop : op ∈ [Operator.gt, .gte, .lt, .lte])
    (b : Bool) : Refused s names (.simple field op (some (.boolean b)))
      (.illegalOperator op (Value.boolean b).kind)
  | temporal {field : String} {op : Operator} (i : Instant) (title : String) :
    Refused s names (.simple field op (some (.instant i))) (.unsupportedTemporalTarget field title)
  | listValue {c : Condition} {values : List Value} {v : Value} (hc : c.values? = some values)
    (hv : v ∈ values) : Refused s names c (.illegalListValue v.kind)
  | nesting {c : Condition} (h : s.options.maxHavingDepth < names.depth + 1) :
    Refused s names c (.nestingNotAllowed s.options.maxHavingDepth)
  | notACollection {c : Condition} {field : String} (hfield : c.field? = some field) :
    Refused s names c (.notACollection field)
  | noInverseAttribute {c : Condition} {field : String} (hfield : c.field? = some field)
    (target : String) : Refused s names c (.noInverseAttribute field target)
  | havingPath {field : String} {sub : Condition} {before rest : List String}
    {collection : Attribute}
    (hfirst : s.catalog.firstCollection? s.entity (segments (s.rename field)) =
      some (before, collection, rest))
    (hrest : rest ≠ []) : Refused s names (.having field sub) (.invalidHavingPath field)
  | functionPath {field : String} {function : Aggregate} {op : Operator} {bound : Value} :
    Refused s names (.aggregate field function op bound) (.multiHopFunctionPath field)
  | functionField {field : String} {function : Aggregate} {op : Operator} {bound : Value}
    (hfunction : function ≠ .count) :
    Refused s names (.aggregate field function op bound) (.missingAggregateField function field)

end Condition

namespace Operator

variable {op : Operator}

/-- Of the operators that take a value, one is no comparison. -/
theorem isComparison_or_eq_like (h : op.takesValue = true) :
    op.isComparison = true ∨ op = .like := by
  revert h
  cases op <;> decide

theorem isSome_symbol? (op : Operator) : op.symbol?.isSome = op.isComparison := by
  cases op <;> rfl

theorem isSome_compareRow? (ref : Ref) (op : Operator) (row : List (Component × Nat)) :
    (Clause.compareRow? ref op row).isSome = op.isComparison := by
  cases op <;> rfl

end Operator

namespace Scope

open Condition

variable {s : Scope} {names : Names} {field : String} {op : Operator} {e : CompileError}

/-- From a type of the catalog no path leads to an unknown type. -/
theorem ne_unknownType_of_resolve {c : Catalog} {type path : String} {cause : PathError}
    (htype : c.hasType type = true) (h : c.resolve type path = .error cause) :
    ∀ unknown, cause ≠ .unknownType unknown := by
  have hwalk : ∀ (path : List String) (type : String),
      c.resolveSegments type path = .error cause → ∀ unknown, cause ≠ .unknownType unknown := by
    intro path
    induction path with
    | nil =>
      intro type hpath
      cases hpath
      simp
    | cons segment path ih =>
      intro type hpath
      rw [Catalog.resolveSegments] at hpath
      split at hpath
      · cases hpath
        simp
      · split at hpath
        · cases hpath
        · split at hpath
          · cases hpath
            simp
          · exact ih _ hpath
  unfold Catalog.resolve at h
  split at h
  · cases h
    simp
  · rw [htype] at h
    exact hwalk _ _ h

theorem refused_of_resolve {c : Condition} (hfield : c.field? = some field)
    (htype : s.catalog.hasType s.entity = true) (h : s.resolve field = .error (.error e)) :
    Refused s names c e := by
  rcases bind_eq_error_iff.1 h with hat | ⟨attr, -, h⟩
  · unfold attributeAt at hat
    cases hresolve : s.catalog.resolve s.entity (s.rename field) with
    | ok attr => simp [hresolve, orRefuse] at hat
    | error cause =>
      rw [hresolve] at hat
      cases hat
      exact .invalidField hfield (ne_unknownType_of_resolve htype hresolve)
  · cases h

/-! ### Comparisons -/

theorem refused_of_boundInstant {attr : Attribute} {i : Instant}
    (h : s.boundInstant field attr i = .error (.error e)) :
    Refused s names (.simple field op (some (.instant i))) e := by
  rcases bind_eq_error_iff.1 h with htype | ⟨type, -, h⟩
  · obtain ⟨-, heq⟩ := orFail_eq_error_iff.1 htype
    cases heq
    exact .temporal i _
  rcases bind_eq_error_iff.1 h with hstop | ⟨bound, -, h⟩
  · unfold orStop at hstop
    split at hstop <;> cases hstop
  · obtain ⟨-, heq⟩ := orFail_eq_error_iff.1 h
    cases heq
    exact .temporal i _

theorem refused_of_comparison {ref : Ref} {attr : Attribute} {value : Value}
    (hop : op.takesValue = true)
    (h : s.comparison field ref attr op value names = .error (.error e)) :
    Refused s names (.simple field op (some value)) e := by
  -- An operator that is no comparison is refused for every value but a text.
  have hlike : value.string? = none →
      ∀ {α : Type} {o : Option α}, o.isSome = op.isComparison →
        orFail (.illegalOperator op value.kind) o = .error (.error e) →
        Refused s names (.simple field op (some value)) e := by
    intro hvalue α o ho herror
    obtain ⟨rfl, heq⟩ := orFail_eq_error_iff.1 herror
    cases heq
    rcases Operator.isComparison_or_eq_like hop with hcomparison | rfl
    · rw [← ho] at hcomparison
      cases hcomparison
    · exact .pattern hvalue
  cases value
  case string text =>
    simp only [comparison] at h
    split at h
    · cases h
    · next hne =>
      have hcomparison := (Operator.isComparison_or_eq_like hop).resolve_right hne
      obtain ⟨symbol, hsymbol⟩ := Option.isSome_iff_exists.1
        ((Operator.isSome_symbol? op).trans hcomparison)
      rw [hsymbol] at h
      cases h
  case boolean b =>
    simp only [comparison] at h
    split at h
    case h_3 heq hne =>
      cases h
      rcases Operator.isComparison_or_eq_like hop with hcomparison | rfl
      · have hordered : op ∈ [Operator.gt, .gte, .lt, .lte] := by
          revert hcomparison heq hne
          cases op <;> decide
        exact .orderedBoolean hordered b
      · exact .pattern rfl
    all_goals
      rw [pure_bind] at h
      split at h <;> cases h
  case instant i =>
    rcases bind_eq_error_iff.1 h with herror | ⟨symbol, -, h⟩
    · exact hlike rfl (Operator.isSome_symbol? op) herror
    rcases bind_eq_error_iff.1 h with herror | ⟨bound, -, h⟩
    · exact refused_of_boundInstant herror
    · cases h
  case monthDay md =>
    rcases bind_eq_error_iff.1 h with herror | ⟨row, -, h⟩
    · exact hlike rfl (Operator.isSome_compareRow? ref op _) herror
    · cases h
  case time t =>
    rcases bind_eq_error_iff.1 h with herror | ⟨row, -, h⟩
    · exact hlike rfl (Operator.isSome_compareRow? ref op _) herror
    · cases h
  all_goals
    rcases bind_eq_error_iff.1 h with herror | ⟨symbol, -, h⟩
    · exact hlike rfl (Operator.isSome_symbol? op) herror
    · cases h

theorem refused_of_simple {value : Option Value} (htype : s.catalog.hasType s.entity = true)
    (hc : Grammatical (.simple field op value))
    (h : s.simple field op value names = .error (.error e)) :
    Refused s names (.simple field op value) e := by
  rcases bind_eq_error_iff.1 h with hresolve | ⟨⟨ref, attr⟩, -, h⟩
  · exact refused_of_resolve rfl htype hresolve
  simp only at h
  cases hc with
  | nullity _ hop =>
    obtain rfl | rfl : op = .null ∨ op = .notNull := by
      revert hop
      cases op <;> decide
    · cases h
    · cases h
  | comparison _ hop v =>
    split at h
    · cases hop
    · cases hop
    · exact refused_of_comparison hop h

theorem refused_of_list {c : Condition} {values : List Value} (hfield : c.field? = some field)
    (hvalues : c.values? = some values) (htype : s.catalog.hasType s.entity = true)
    (h : s.list field values = .error (.error e)) : Refused s names c e := by
  have hitems : ∀ vs : List Value, vs.mapM listItem = .error (.error e) →
      ∃ v ∈ vs, e = .illegalListValue v.kind := by
    intro vs
    induction vs with
    | nil =>
      intro herror
      cases herror
    | cons v vs ih =>
      intro herror
      rw [List.mapM_cons] at herror
      rcases bind_eq_error_iff.1 herror with hitem | ⟨item, -, herror⟩
      · unfold listItem at hitem
        split at hitem <;> cases hitem
        exact ⟨v, List.mem_cons_self, rfl⟩
      rcases bind_eq_error_iff.1 herror with hrest | ⟨items, -, herror⟩
      · obtain ⟨w, hw, heq⟩ := ih hrest
        exact ⟨w, List.mem_cons_of_mem _ hw, heq⟩
      · cases herror
  rcases bind_eq_error_iff.1 h with hresolve | ⟨⟨ref, attr⟩, -, h⟩
  · exact refused_of_resolve hfield htype hresolve
  rcases bind_eq_error_iff.1 h with herror | ⟨items, -, h⟩
  · obtain ⟨v, hv, rfl⟩ := hitems values herror
    exact .listValue hvalues hv
  · cases h

/-! ### Collections -/

theorem refused_of_checkDepth {c : Condition} (h : s.checkDepth names = .error (.error e)) :
    Refused s names c e := by
  unfold checkDepth at h
  split at h
  · next hdepth =>
    cases h
    exact .nesting hdepth
  · cases h

theorem refused_of_hop {c : Condition} (hfield : c.field? = some field)
    (htype : s.catalog.hasType s.entity = true) (h : s.hop field = .error (.error e)) :
    Refused s names c e := by
  have houtcome := hop_outcome s field
  rw [h] at houtcome
  cases houtcome with
  | @invalidField cause hcause =>
    refine .invalidField hfield ?_
    rcases hcause with hresolve | rfl
    · exact ne_unknownType_of_resolve htype hresolve
    · simp
  | notACollection => exact .notACollection hfield
  | noInverseAttribute target => exact .noInverseAttribute hfield target

theorem refused_of_havingHop {sub : Condition} (htype : s.catalog.hasType s.entity = true)
    (h : s.havingHop field names = .error (.error e)) :
    Refused s names (.having field sub) e := by
  rcases bind_eq_error_iff.1 h with hdepth | ⟨-, -, h⟩
  · exact refused_of_checkDepth hdepth
  rcases bind_eq_error_iff.1 h with hhop | ⟨hop, hhop, h⟩
  · exact refused_of_hop rfl htype hhop
  split at h
  · cases h
  · next hrest =>
    cases h
    obtain ⟨before, collection, hfound⟩ := exists_found_of_hop hhop
    exact .havingPath hfound.first (by simpa using hrest)

theorem refused_of_aggregate {function : Aggregate} {bound : Value} (hc : s.catalog.WellFormed)
    (htype : s.catalog.hasType s.entity = true) (hop : op.isComparison = true)
    (hbound : bound.isNumeric = true)
    (h : s.aggregate field function op bound names = .error (.error e)) :
    Refused s names (.aggregate field function op bound) e := by
  rcases bind_eq_error_iff.1 h with hdepth | ⟨-, -, h⟩
  · exact refused_of_checkDepth hdepth
  rcases bind_eq_error_iff.1 h with hhop | ⟨hop', hhop, h⟩
  · exact refused_of_hop rfl htype hhop
  have hscoped := scoped_of_hop hc htype hhop
  obtain ⟨ownerId, -, hownerId, -⟩ := hc.exists_identifier hscoped.hasType_owner
  obtain ⟨memberId, -, hmemberId, -⟩ := hc.exists_identifier hscoped.hasType_target
  obtain ⟨symbol, hsymbol⟩ := Option.isSome_iff_exists.1 ((Operator.isSome_symbol? op).trans hop)
  simp only at h
  split at h
  · cases h
    exact .functionPath
  rw [hownerId, orFail, ok_bind] at h
  rcases bind_eq_error_iff.1 h with hname | ⟨aggregated, -, h⟩
  · unfold aggregatedName at hname
    split at hname
    · cases hname
    · split at hname
      · rw [hmemberId] at hname
        cases hname
      · next hfunction =>
        cases hname
        exact .functionField hfunction
  · rw [hsymbol, orFail, ok_bind, hbound] at h
    cases h

end Scope

namespace Condition

variable {s s' : Scope} {names names' : Names} {c d : Condition} {e : CompileError}

/-- On its way the compiler stays in the catalog, at types of it and at grammatical conditions. -/
theorem Reaches.keeps (h : Reaches s names c s' names' d) (hc : s.catalog.WellFormed)
    (htype : s.catalog.hasType s.entity = true) (hgrammatical : Grammatical c) :
    s'.catalog.WellFormed ∧ s'.catalog.hasType s'.entity = true ∧ Grammatical d := by
  induction h with
  | here => exact ⟨hc, htype, hgrammatical⟩
  | not h ih =>
    cases hgrammatical with
    | not hinner => exact ih hc htype hinner
  | first h ih =>
    cases hgrammatical with
    | group _ hfirst hsecond hmore => exact ih hc htype hfirst
  | second _ h ih =>
    cases hgrammatical with
    | group _ hfirst hsecond hmore => exact ih hc htype hsecond
  | more _ _ _ h ih =>
    cases hgrammatical with
    | group _ hfirst hsecond hmore => exact ih hc htype (hmore _ (by simp))
  | having hhop h ih =>
    cases hgrammatical with
    | having _ hsub =>
      have hscoped := Scope.scoped_of_hop hc htype (Scope.havingHop_eq_ok hhop).1
      exact ih hc hscoped.hasType_target hsub

/-- What a grammatical condition checks by itself is refused for one of the listed reasons. -/
theorem refused_of_own (hc : s.catalog.WellFormed) (htype : s.catalog.hasType s.entity = true)
    (hgrammatical : Grammatical d) (h : d.own s names = .error (.error e)) :
    Refused s names d e := by
  cases d with
  | simple field op value =>
    exact Scope.refused_of_simple htype hgrammatical (map_eq_error_iff.1 h)
  | oneOf field values => exact Scope.refused_of_list rfl rfl htype (map_eq_error_iff.1 h)
  | noneOf field values => exact Scope.refused_of_list rfl rfl htype (map_eq_error_iff.1 h)
  | not c => cases h
  | group join first second more => cases h
  | having field sub => exact Scope.refused_of_havingHop htype (map_eq_error_iff.1 h)
  | aggregate field function op bound =>
    cases hgrammatical with
    | aggregate _ _ hop hbound =>
      exact Scope.refused_of_aggregate hc htype hop hbound (map_eq_error_iff.1 h)

theorem exists_refused_of_compile (hc : s.catalog.WellFormed)
    (htype : s.catalog.hasType s.entity = true) (hgrammatical : Grammatical c)
    (h : c.compile s names = .error (.error e)) :
    ∃ s' names' d, Reaches s names c s' names' d ∧ d.own s' names' = .error (.error e) ∧
      Refused s' names' d e := by
  obtain ⟨s', names', d, hreaches, hown⟩ := exists_own_error_of_compile h
  obtain ⟨hc', htype', hd⟩ := hreaches.keeps hc htype hgrammatical
  exact ⟨s', names', d, hreaches, hown, refused_of_own hc' htype' hd hown⟩

end Condition

/-! ## Sessions -/

namespace Session

variable {catalog : Catalog} {entity : String} {s : Session} {steps : List Step}

/-- An error of a filter that was parsed is raised by one of its conditions, whatever was done to
the session before. It never says that a value, a target type, an identifier or a type is missing.
A path is wrong for a condition on members only, and only if it goes on behind its first collection.
An operator is illegal only if it is a pattern for something else than a text, or an order of
booleans. -/
theorem accept_error_of_parse {defs : List EntityDef} {limits : Limits} {source : String}
    {condition : Condition} {e : CompileError} (hbuild : Catalog.build defs = .ok catalog)
    (hstart : Session.start catalog entity = .ok s)
    (hparse : Condition.parse limits source zones = .ok condition)
    (h : (s.afterAll steps).accept condition = .error (.error e)) :
    let t := s.afterAll steps
    (∀ field op, e ≠ .missingValue field op) ∧ (∀ field, e ≠ .noTargetType field) ∧
    (∀ type, e ≠ .noIdentifier type) ∧ (∀ type, e ≠ .unknownEntity type) ∧
    (∀ type field unknown, e ≠ .invalidField type field (.unknownType unknown)) ∧
    ∃ scope names d, condition.Reaches t.scope t.names scope names d ∧
      d.own scope names = .error (.error e) ∧
      (∀ field, e = .invalidHavingPath field → ∃ sub before collection rest,
        d = .having field sub ∧
        scope.catalog.firstCollection? scope.entity (segments (scope.rename field)) =
          some (before, collection, rest) ∧
        rest ≠ []) ∧
      ∀ op kind, e = .illegalOperator op kind → ∃ field v,
        d = .simple field op (some v) ∧ kind = v.kind ∧
        (op = .like ∧ v.string? = none ∨
          op ∈ [Operator.gt, .gte, .lt, .lte] ∧ ∃ b, v = .boolean b) := by
  intro t
  obtain ⟨hcatalog, hentity⟩ := scope_afterAll s steps
  obtain ⟨htype, rfl⟩ := start_cases hstart
  have hc : t.scope.catalog.WellFormed := hcatalog ▸ Catalog.wellFormed_of_build hbuild
  have htype' : t.scope.catalog.hasType t.scope.entity = true := by
    rw [hcatalog, hentity]
    exact htype
  have hcompile : condition.compile t.scope t.names = .error (.error e) := by
    rw [accept_eq] at h
    rcases bind_eq_error_iff.1 h with hcompile | ⟨⟨clause, names⟩, -, h⟩
    · exact hcompile
    · cases h
  obtain ⟨scope, names, d, hreaches, hown, hrefused⟩ := Condition.exists_refused_of_compile hc
    htype' (Condition.grammatical_of_parse hparse) hcompile
  refine ⟨?_, ?_, ?_, ?_, ?_, scope, names, d, hreaches, hown, ?_, ?_⟩
  · rintro field op rfl
    cases hrefused
  · rintro field rfl
    cases hrefused
  · rintro type rfl
    cases hrefused
  · rintro type rfl
    cases hrefused
  · rintro type field unknown rfl
    cases hrefused with
    | invalidField hfield hcause => exact hcause unknown rfl
  · rintro field rfl
    cases hrefused with
    | havingPath hfirst hrest => exact ⟨_, _, _, _, rfl, hfirst, hrest⟩
  · rintro op kind rfl
    cases hrefused with
    | pattern hv => exact ⟨_, _, rfl, rfl, .inl ⟨rfl, hv⟩⟩
    | orderedBoolean hop b => exact ⟨_, _, rfl, rfl, .inr ⟨hop, b, rfl⟩⟩

/-- A path that goes on behind a collection, in a filter on the members of another. -/
def departmentOfReports : String :=
  "$having:employees(isPartTime$eq:true$and:$not:$having:reports.department(name$eq:x))"

/-- The error is that of the inner condition, in the scope of employees. -/
theorem accept_departmentOfReports : ∃ catalog s condition,
    Catalog.build Example.company = .ok catalog ∧ Session.start catalog "Department" = .ok s ∧
    Condition.parse {} departmentOfReports = .ok condition ∧
    let t := s.afterAll [.withAlias "d", .accept condition, .accept (.simple "name" .null none)]
    t.accept condition = .error (.error (.invalidHavingPath "reports.department")) ∧
    ∃ scope names sub before collection rest,
      condition.Reaches t.scope t.names scope names (.having "reports.department" sub) ∧
      scope.catalog.firstCollection? scope.entity
        (segments (scope.rename "reports.department")) = some (before, collection, rest) ∧
      rest ≠ [] := by
  have hrun : ((Catalog.build Example.company).toOption.any fun catalog =>
      (Session.start catalog "Department").toOption.any fun s =>
        (Condition.parse {} departmentOfReports).toOption.any fun condition =>
          decide (((s.afterAll [.withAlias "d", .accept condition,
              .accept (.simple "name" .null none)]).accept condition).map whereText =
            .error (.error (.invalidHavingPath "reports.department")))) = true := by decide +kernel
  obtain ⟨catalog, hbuild, hrun⟩ := exists_ok_of_any hrun
  obtain ⟨s, hstart, hrun⟩ := exists_ok_of_any hrun
  obtain ⟨condition, hparse, hrun⟩ := exists_ok_of_any hrun
  have herror := map_eq_error_iff.1 (of_decide_eq_true hrun)
  obtain ⟨-, -, -, -, -, scope, names, d, hreaches, -, hpath, -⟩ :=
    accept_error_of_parse hbuild hstart hparse herror
  obtain ⟨sub, before, collection, rest, rfl, hfirst, hrest⟩ := hpath _ rfl
  exact ⟨catalog, s, condition, hbuild, hstart, hparse, herror, scope, names, sub, before,
    collection, rest, hreaches, hfirst, hrest⟩

end Session

end FilterQuery
