import FilterQuery.Pagination
import FilterQuery.Query.Compile
import FilterQuery.Sorting

set_option autoImplicit false

/-! # Query sessions

A session builds the query for one entity type: filters are accepted one after the other and hold
together, and an ordering replaces the one before it. What is done to a session may fail, and is
done in a way that leaves the session as it was then. -/

namespace FilterQuery

open FilterQuery.Text

/-! ## Ordering -/

/-- One term of an ordering. -/
structure OrderTerm where
  ref : Ref
  direction : Direction
  deriving DecidableEq, Repr

def OrderTerm.text (t : OrderTerm) : List Char :=
  (if t.direction.isAlphabetic then Clause.call "STR" t.ref.text else t.ref.text) ++
    if t.direction.isDescending then " DESC".toList else " ASC".toList

namespace Scope

/-- Entities are ordered by scalar attributes. -/
def orderTerm (s : Scope) (criterion : Criterion) : Compile OrderTerm :=
  match s.resolve criterion.field with
  | .ok (ref, attr) =>
    if attr.isAssociation then refuse (.illegalSortField criterion.field)
    else .ok ⟨ref, criterion.direction⟩
  | .error _ => refuse (.illegalSortField criterion.field)

end Scope

/-! ## Sessions -/

structure Session where
  scope : Scope
  names : Names
  /-- The clauses of the accepted filters, in turn. -/
  clauses : List Clause
  ordering : List OrderTerm

namespace Session

/-- A session for an entity type, which gets a generated alias. -/
def start (catalog : Catalog) (entity : String) : Compile Session :=
  if catalog.hasType entity then
    let (aliasName, names) := Names.empty.nextAlias entity
    .ok ⟨⟨catalog, id, {}, entity, aliasName⟩, names, [], []⟩
  else refuse (.unknownEntity entity)

/-- Use another alias for the entity. Clauses that exist already keep theirs. -/
def withAlias (s : Session) (aliasName : String) : Session :=
  { s with
    scope := { s.scope with aliasName := aliasName }
    names := (s.names.releaseAlias s.scope.aliasName).registerAlias aliasName }

def withRename (s : Session) (rename : String → String) : Session :=
  { s with scope := { s.scope with rename := rename } }

def withOptions (s : Session) (options : CompileOptions) : Session :=
  { s with scope := { s.scope with options := options } }

/-- Restrict the query by one more condition. It is translated with a copy of the names, which
takes their place once nothing can fail any more. -/
def restrict (c : Condition) : Stateful CompileError Session Unit := do
  let s ← get
  let (result, names) := (c.translate s.scope).outcome s.names
  let clause ← result
  set { s with names := names, clauses := s.clauses ++ [clause] }

/-- Order the query; no criteria mean no order. -/
def order (sorting : Sorting) : Stateful CompileError Session Unit := do
  let s ← get
  let terms : Compile (List OrderTerm) := sorting.criteria.mapM s.scope.orderTerm
  set { s with ordering := ← terms }

/-- The session with the restriction, if the condition can be compiled. -/
def accept (s : Session) (c : Condition) : Compile Session :=
  ((restrict c).committed s).map Prod.snd

/-- The session with the ordering, if there is one. -/
def orderBy (s : Session) (sorting : Sorting) : Compile Session :=
  ((order sorting).committed s).map Prod.snd

theorem outcome_restrict (s : Session) (c : Condition) :
    (restrict c).outcome s = match (c.translate s.scope).outcome s.names with
      | (.ok clause, names) => (.ok (), { s with names := names, clauses := s.clauses ++ [clause] })
      | (.error e, _) => (.error e, s) := by
  simp only [restrict, Stateful.outcome_bind, Stateful.outcome_get, Stateful.outcome_liftM]
  rcases (c.translate s.scope).outcome s.names with ⟨e | clause, names⟩ <;> rfl

theorem outcome_order (s : Session) (sorting : Sorting) :
    (order sorting).outcome s = match sorting.criteria.mapM s.scope.orderTerm with
      | .ok ordering => (.ok (), { s with ordering := ordering })
      | .error e => (.error e, s) := by
  simp only [order, Stateful.outcome_bind, Stateful.outcome_get, Stateful.outcome_liftM]
  cases sorting.criteria.mapM s.scope.orderTerm <;> rfl

theorem accept_eq (s : Session) (c : Condition) : s.accept c = (do
    let (clause, names) ← c.compile s.scope s.names
    return { s with names := names, clauses := s.clauses ++ [clause] }) := by
  simp only [accept, Condition.compile, Stateful.committed, outcome_restrict]
  rcases (c.translate s.scope).outcome s.names with ⟨e | clause, names⟩ <;> rfl

theorem orderBy_eq (s : Session) (sorting : Sorting) : s.orderBy sorting = (do
    let ordering ← sorting.criteria.mapM s.scope.orderTerm
    return { s with ordering := ordering }) := by
  simp only [orderBy, Stateful.committed, outcome_order]
  cases sorting.criteria.mapM s.scope.orderTerm <;> rfl

/-! ## The text of the query -/

/-- The restriction: the accepted clauses, which all hold. -/
def whereText (s : Session) : List Char := Clause.textAll .and s.clauses

/-- What is selected, from which entities, and under which restriction. -/
def selection (s : Session) (projection : List Char) : List Char :=
  "SELECT ".toList ++ projection ++ " FROM ".toList ++ s.scope.entity.toList ++
    ' ' :: s.scope.aliasName.toList ++
    if s.clauses.isEmpty then [] else " WHERE ".toList ++ s.whereText

def orderText (s : Session) : List Char :=
  if s.ordering.isEmpty then []
  else " ORDER BY ".toList ++ join [',', ' '] (s.ordering.map OrderTerm.text)

def queryText (s : Session) : List Char :=
  s.selection s.scope.aliasName.toList ++ s.orderText

/-- The query that counts what the other one selects. -/
def countText (s : Session) : List Char :=
  s.selection (Clause.call "COUNT" s.scope.aliasName.toList)

end Session

/-! ## Compiled queries -/

/-- All that is needed to run a query. -/
structure CompiledQuery where
  query : String
  countQuery : String
  whereClause : String
  parameters : List (String × BoundValue)
  offset : Nat
  limit : Nat

namespace CompiledQuery

def parametersJson (parameters : List (String × BoundValue)) : Except Fault Json := do
  let members ← parameters.mapM fun (name, value) => value.toJson.map fun j => (name, j)
  return .object members

def toJson (q : CompiledQuery) : Except Fault Json := do
  let parameters ← parametersJson q.parameters
  return .object [("query", .string q.query), ("countQuery", .string q.countQuery),
    ("whereClause", .string q.whereClause), ("parameters", parameters),
    ("offset", .int q.offset), ("limit", .int q.limit)]

end CompiledQuery

namespace Session

/-- The query for one page, with a filter and a sorting where they are given. -/
def compile (s : Session) (filter : Option Condition) (sorting : Option Sorting)
    (page : Pagination) : Compile CompiledQuery := do
  let s ← match filter with
    | some c => s.accept c
    | none => pure s
  let s ← match sorting with
    | some sorting => s.orderBy sorting
    | none => pure s
  match page.offset? with
  | none => stopWith .wordOverflow
  | some offset =>
    return {
      query := String.ofList s.queryText
      countQuery := String.ofList s.countText
      whereClause := String.ofList s.whereText
      parameters := s.names.parameters
      offset := offset
      limit := page.size }

end Session

end FilterQuery
