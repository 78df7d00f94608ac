import FilterQuery.Query.Session
import Mathlib.Tactic.Common

set_option autoImplicit false

/-! # Renaming fields

A scope renames the fields of a filter before it looks them up. The same comes out if the fields of
the filter are renamed first and the scope then takes them as they are: the two ways end with the
same clause and the same names, or both fail, and then the errors differ in the name of the field
that they blame and in nothing else.

`relabel` changes that name. It goes through every step of a compilation (`relabel_bind`), so each
function of the compiler needs one lemma, which says that it renames a field exactly once. -/

namespace FilterQuery

/-! ## Errors that name a field -/

/-- The error with the field that it blames under its new name. -/
def CompileError.renamed (rename : String → String) : CompileError → CompileError
  | .unknownEntity entity => .unknownEntity entity
  | .invalidField entity field cause => .invalidField entity (rename field) cause
  | .notACollection field => .notACollection (rename field)
  | .noTargetType field => .noTargetType (rename field)
  | .noInverseAttribute field target => .noInverseAttribute (rename field) target
  | .noIdentifier entity => .noIdentifier entity
  | .multiHopFunctionPath field => .multiHopFunctionPath (rename field)
  | .missingAggregateField function field => .missingAggregateField function (rename field)
  | .illegalOperator op valueKind => .illegalOperator op valueKind
  | .illegalListValue valueKind => .illegalListValue valueKind
  | .missingValue field op => .missingValue (rename field) op
  | .nestingNotAllowed max => .nestingNotAllowed max
  | .unsupportedTemporalTarget field target => .unsupportedTemporalTarget (rename field) target
  | .illegalSortField field => .illegalSortField (rename field)
  | .invalidHavingPath field => .invalidHavingPath (rename field)

/-- The computation with its error renamed, if it ends with one. -/
def relabel {α : Type} (rename : String → String) (x : Compile α) : Compile α :=
  x.mapError (Failure.map (CompileError.renamed rename))

section

variable {α β : Type} (rename : String → String)

@[simp] theorem relabel_ok (a : α) : relabel rename (.ok a) = .ok a := rfl

@[simp] theorem relabel_bind (x : Compile α) (f : α → Compile β) :
    relabel rename (x >>= f) = relabel rename x >>= fun a => relabel rename (f a) := by
  cases x with
  | error e => rfl
  | ok a => rfl

@[simp] theorem relabel_map (x : Compile α) (f : α → β) :
    relabel rename (f <$> x) = f <$> relabel rename x := by
  cases x with
  | error e => rfl
  | ok a => rfl

@[simp] theorem relabel_orFail (e : CompileError) (o : Option α) :
    relabel rename (orFail e o) = orFail (e.renamed rename) o := by
  cases o with
  | none => rfl
  | some a => rfl

@[simp] theorem relabel_orRefuse {ε : Type} (f : ε → CompileError) (x : Except ε α) :
    relabel rename (orRefuse f x) = orRefuse (fun e => (f e).renamed rename) x := by
  cases x with
  | error e => rfl
  | ok a => rfl

@[simp] theorem relabel_orStop (x : Except Fault α) :
    relabel rename (orStop x : Compile α) = orStop x := by
  cases x with
  | error e => rfl
  | ok a => rfl

end

/-! ## Scopes -/

namespace Scope

/-- The scope with another way to rename fields. -/
def withRename (s : Scope) (rename : String → String) : Scope := { s with rename := rename }

variable (s : Scope) (rename : String → String) (field : String)

theorem attributeAt_rename (path : String) :
    (s.withRename id).attributeAt (rename field) path =
      relabel rename ((s.withRename rename).attributeAt field path) := by
  simp [attributeAt, withRename, CompileError.renamed]

theorem resolve_rename :
    (s.withRename id).resolve (rename field) =
      relabel rename ((s.withRename rename).resolve field) := by
  unfold resolve
  rw [relabel_bind, ← attributeAt_rename]
  rfl

/-! ### Comparisons -/

theorem boundInstant_rename (attr : Attribute) (i : Instant) :
    (s.withRename id).boundInstant (rename field) attr i =
      relabel rename ((s.withRename rename).boundInstant field attr i) := by
  simp [boundInstant, withRename, CompileError.renamed]

theorem comparison_rename (ref : Ref) (attr : Attribute) (op : Operator) (value : Value)
    (names : Names) :
    (s.withRename id).comparison (rename field) ref attr op value names =
      relabel rename ((s.withRename rename).comparison field ref attr op value names) := by
  cases value with
  | string text =>
    simp only [comparison]
    split
    · rfl
    · simp [CompileError.renamed]
  | boolean b =>
    simp only [comparison]
    split
    · split <;> rfl
    · split <;> rfl
    · rfl
  | instant i =>
    simp [comparison, boundInstant_rename, CompileError.renamed]
  | _ => simp [comparison, CompileError.renamed]

theorem simple_rename (op : Operator) (value : Option Value) (names : Names) :
    (s.withRename id).simple (rename field) op value names =
      relabel rename ((s.withRename rename).simple field op value names) := by
  unfold simple
  rw [resolve_rename, relabel_bind]
  congr 1
  funext found
  obtain ⟨ref, attr⟩ := found
  simp only
  split
  · rfl
  · rfl
  · simp [comparison_rename, CompileError.renamed]

/-! ### Lists -/

theorem relabel_listItem (value : Value) : relabel rename (listItem value) = listItem value := by
  cases value <;> rfl

theorem relabel_mapM_listItem (values : List Value) :
    relabel rename (values.mapM listItem) = values.mapM listItem := by
  induction values with
  | nil => rfl
  | cons value values ih =>
    rw [List.mapM_cons, relabel_bind, relabel_listItem]
    simp [ih]

theorem list_rename (values : List Value) :
    (s.withRename id).list (rename field) values =
      relabel rename ((s.withRename rename).list field values) := by
  unfold list
  rw [resolve_rename, relabel_bind]
  congr 1
  funext found
  simp [relabel_mapM_listItem]

/-! ### Collections -/

theorem firstCollection_rename (before segments : List String) :
    (s.withRename id).firstCollection (rename field) before segments =
      relabel rename ((s.withRename rename).firstCollection field before segments) := by
  induction segments generalizing before with
  | nil => rfl
  | cons segment rest ih =>
    simp only [firstCollection, relabel_bind, ← attributeAt_rename]
    congr 1
    funext attr
    split
    · rfl
    · exact ih _

theorem checkRest_rename (type : String) (rest : List String) :
    (s.withRename id).checkRest (rename field) type rest =
      relabel rename ((s.withRename rename).checkRest field type rest) := by
  induction rest generalizing type with
  | nil => rfl
  | cons segment rest ih =>
    simp only [checkRest, relabel_bind, relabel_orFail, CompileError.renamed]
    congr 1
    funext attr
    exact ih _

theorem hop_rename :
    (s.withRename id).hop (rename field) = relabel rename ((s.withRename rename).hop field) := by
  unfold hop
  simp only [relabel_bind, ← attributeAt_rename, ← firstCollection_rename, ← checkRest_rename,
    relabel_orFail, CompileError.renamed]
  rfl

theorem relabel_checkDepth (names : Names) :
    relabel rename (s.checkDepth names) = s.checkDepth names := by
  unfold checkDepth
  split <;> rfl

theorem havingHop_rename (names : Names) :
    (s.withRename id).havingHop (rename field) names =
      relabel rename ((s.withRename rename).havingHop field names) := by
  unfold havingHop
  rw [relabel_bind, relabel_checkDepth]
  congr 1
  funext _
  rw [relabel_bind, hop_rename]
  congr 1
  funext hop
  split <;> rfl

theorem aggregatedName_rename (hop : Hop) (function : Aggregate) :
    (s.withRename id).aggregatedName hop (rename field) function =
      relabel rename ((s.withRename rename).aggregatedName hop field function) := by
  unfold aggregatedName
  split
  · rfl
  · split
    · simp [withRename, CompileError.renamed]
    · rfl

theorem aggregate_rename (function : Aggregate) (op : Operator) (bound : Value) (names : Names) :
    (s.withRename id).aggregate (rename field) function op bound names =
      relabel rename ((s.withRename rename).aggregate field function op bound names) := by
  unfold aggregate
  rw [relabel_bind, relabel_checkDepth]
  congr 1
  funext _
  rw [relabel_bind, hop_rename]
  congr 1
  funext hop
  by_cases hlength : hop.rest.length > 1
  · rw [if_pos hlength, if_pos hlength]
    rfl
  · rw [if_neg hlength, if_neg hlength]
    simp only [relabel_bind, ← aggregatedName_rename, relabel_orFail, CompileError.renamed]
    by_cases hnumeric : bound.isNumeric = true
    · simp [hnumeric]
      rfl
    · simp [hnumeric]
      rfl

end Scope

/-! ## Conditions -/

namespace Condition

mutual

/-- The condition with all its fields under their new names, those of conditions on members too. -/
def renamed (rename : String → String) : Condition → Condition
  | .simple field op value => .simple (rename field) op value
  | .oneOf field values => .oneOf (rename field) values
  | .noneOf field values => .noneOf (rename field) values
  | .not c => .not (renamed rename c)
  | .group connective first second more =>
    .group connective (renamed rename first) (renamed rename second) (renamedAll rename more)
  | .having field sub => .having (rename field) (renamed rename sub)
  | .aggregate field function op bound => .aggregate (rename field) function op bound

/-- `renamed` of all conditions. -/
def renamedAll (rename : String → String) : List Condition → List Condition
  | [] => []
  | c :: cs => renamed rename c :: renamedAll rename cs

end

mutual

/-- A condition under new names is compiled as the condition is in a scope that renames. -/
theorem compile_renamed (rename : String → String) : ∀ (c : Condition) (s : Scope) (names : Names),
    (c.renamed rename).compile (s.withRename id) names =
      relabel rename (c.compile (s.withRename rename) names)
  | .simple field op value, s, names => by
    simp only [renamed, compile_simple]
    exact s.simple_rename rename field op value names
  | .oneOf field values, s, names => by
    simp only [renamed, compile_oneOf, relabel_bind, s.list_rename]
    rfl
  | .noneOf field values, s, names => by
    simp only [renamed, compile_noneOf, relabel_bind, s.list_rename]
    rfl
  | .not c, s, names => by
    simp only [renamed, compile_not, relabel_bind, compile_renamed rename c]
    rfl
  | .group connective first second more, s, names => by
    simp only [renamed, compile_group, relabel_bind, compile_renamed rename first,
      compile_renamed rename second, compileAll_renamed rename more]
    rfl
  | .having field sub, s, names => by
    simp only [renamed, compile_having, relabel_bind, s.havingHop_rename]
    congr 1
    funext hop
    -- The scope of the members renames as the scope around it does.
    have hsub := compile_renamed rename sub (s.inner hop.target (names.nextAlias hop.target).1)
      (names.nextAlias hop.target).2.enter
    exact congrArg (· >>= fun found => Except.ok (Clause.members hop.owner
      ⟨(names.nextAlias hop.target).1, [hop.inverse.name]⟩ hop.target found.1, found.2.leave)) hsub
  | .aggregate field function op bound, s, names => by
    simp only [renamed, compile_aggregate]
    exact s.aggregate_rename rename field function op bound names

theorem compileAll_renamed (rename : String → String) :
    ∀ (cs : List Condition) (s : Scope) (names : Names),
      compileAll (s.withRename id) (renamedAll rename cs) names =
        relabel rename (compileAll (s.withRename rename) cs names)
  | [], s, names => by
    simp only [renamedAll, compileAll_nil, relabel_ok]
  | c :: cs, s, names => by
    simp only [renamedAll, compileAll_cons, relabel_bind, compile_renamed rename c,
      compileAll_renamed rename cs]
    rfl

end

end Condition

/-! ## Sessions -/

/-- The sorting with all its fields under their new names. -/
def Sorting.renamed (rename : String → String) (sorting : Sorting) : Sorting :=
  ⟨sorting.criteria.map fun criterion => { criterion with field := rename criterion.field }⟩

theorem Scope.orderTerm_rename (s : Scope) (rename : String → String) (criterion : Criterion) :
    (s.withRename id).orderTerm { criterion with field := rename criterion.field } =
      relabel rename ((s.withRename rename).orderTerm criterion) := by
  unfold orderTerm
  simp only [resolve_rename]
  cases (s.withRename rename).resolve criterion.field with
  | error e => rfl
  | ok found =>
    simp only [relabel_ok]
    split <;> rfl

theorem Scope.mapM_orderTerm_rename (s : Scope) (rename : String → String)
    (criteria : List Criterion) :
    (criteria.map fun criterion => { criterion with field := rename criterion.field }).mapM
        (s.withRename id).orderTerm =
      relabel rename (criteria.mapM (s.withRename rename).orderTerm) := by
  induction criteria with
  | nil => rfl
  | cons criterion criteria ih =>
    rw [List.map_cons, List.mapM_cons, List.mapM_cons, orderTerm_rename, ih]
    simp

namespace Session

/-- Two ways to go on that agree: both fail, and the second one blames the field of the first under
its new name, or both lead to the same restriction and ordering, with the same aliases and the same
parameters. -/
def Agree (rename : String → String) (x y : Compile Session) : Prop :=
  (∃ e, x = .error e ∧ y = .error (e.map (CompileError.renamed rename))) ∨
    ∃ t u, x = .ok t ∧ y = .ok u ∧ t.whereText = u.whereText ∧ t.orderText = u.orderText ∧
      t.names = u.names

theorem agree_of_eq {rename : String → String} {x y : Compile Session}
    (h : y = (fun t => t.withRename id) <$> relabel rename x) : Agree rename x y := by
  subst h
  cases x with
  | error e => exact .inl ⟨e, rfl, rfl⟩
  | ok t => exact .inr ⟨t, t.withRename id, rfl, rfl, rfl, rfl, rfl⟩

variable (s : Session) (rename : String → String)

theorem accept_withRename (c : Condition) :
    (s.withRename rename).accept c =
      c.compile (s.scope.withRename rename) s.names >>= fun found =>
        .ok { s.withRename rename with names := found.2, clauses := s.clauses ++ [found.1] } :=
  (s.withRename rename).accept_eq c

theorem accept_renamed (c : Condition) :
    (s.withRename id).accept (c.renamed rename) =
      (fun t => t.withRename id) <$> relabel rename ((s.withRename rename).accept c) := by
  rw [accept_withRename, accept_withRename, c.compile_renamed]
  cases c.compile (s.scope.withRename rename) s.names with
  | error e => rfl
  | ok found => rfl

theorem orderBy_withRename (sorting : Sorting) :
    (s.withRename rename).orderBy sorting =
      sorting.criteria.mapM (s.scope.withRename rename).orderTerm >>= fun ordering =>
        .ok { s.withRename rename with ordering := ordering } :=
  (s.withRename rename).orderBy_eq sorting

theorem orderBy_renamed (sorting : Sorting) :
    (s.withRename id).orderBy (sorting.renamed rename) =
      (fun t => t.withRename id) <$> relabel rename ((s.withRename rename).orderBy sorting) := by
  rw [orderBy_withRename, orderBy_withRename, Sorting.renamed, Scope.mapM_orderTerm_rename]
  cases sorting.criteria.mapM (s.scope.withRename rename).orderTerm with
  | error e => rfl
  | ok ordering => rfl

/-- **Renaming fields commutes with compilation.** To accept a filter in a session that renames
fields is to accept the filter with its fields renamed in one that does not: both fail or both
succeed, with the same restriction, aliases and parameters. The same holds of an ordering. -/
theorem agree_renamed (c : Condition) (sorting : Sorting) :
    Agree rename ((s.withRename rename).accept c)
        ((s.withRename id).accept (c.renamed rename)) ∧
      Agree rename ((s.withRename rename).orderBy sorting)
        ((s.withRename id).orderBy (sorting.renamed rename)) :=
  ⟨agree_of_eq (s.accept_renamed rename c), agree_of_eq (s.orderBy_renamed rename sorting)⟩

end Session

end FilterQuery
