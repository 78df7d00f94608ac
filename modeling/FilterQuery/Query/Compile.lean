import FilterQuery.Condition
import FilterQuery.Query.Clause
import FilterQuery.Query.Names

set_option autoImplicit false

/-! # From conditions to clauses

A condition is compiled in a scope: the entity that its fields belong to, under its alias. Fields
are renamed first and then resolved in the catalog; an error names the field as the filter wrote it.
A condition on the members of a collection opens a scope of its own for the type of the members.

The register of names is threaded through from left to right. A name that was taken stays taken
where the translation fails, so whoever wants it back works on a copy (`Condition.compile`). -/

namespace FilterQuery

inductive CompileError where
  | unknownEntity (entity : String)
  | invalidField (entity field : String) (cause : PathError)
  | notACollection (field : String)
  | noTargetType (field : String)
  | noInverseAttribute (field target : String)
  | noIdentifier (entity : String)
  | multiHopFunctionPath (field : String)
  | missingAggregateField (function : Aggregate) (field : String)
  | illegalOperator (op : Operator) (valueKind : String)
  | illegalListValue (valueKind : String)
  | missingValue (field : String) (op : Operator)
  | nestingNotAllowed (max : Nat)
  | unsupportedTemporalTarget (field target : String)
  | illegalSortField (field : String)
  | invalidHavingPath (field : String)
  deriving DecidableEq, Repr

def CompileError.message : CompileError → String
  | .unknownEntity entity => s!"unknown entity '{entity}'"
  | .invalidField entity field cause =>
    s!"invalid field '{field}' for entity '{entity}': {cause.message}"
  | .notACollection field => s!"field '{field}' does not navigate a collection"
  | .noTargetType field => s!"no target type for '{field}'"
  | .noInverseAttribute field target => s!"no inverse attribute for '{field}' on '{target}'"
  | .noIdentifier entity => s!"no identifier attribute for entity '{entity}'"
  | .multiHopFunctionPath field =>
    s!"function path '{field}' may have at most one segment after the collection"
  | .missingAggregateField function field =>
    s!"{function.name} on '{field}' needs an attribute of the collection"
  | .illegalOperator op valueKind => s!"illegal operator {op.token} for {valueKind} value"
  | .illegalListValue valueKind => s!"illegal list value of type {valueKind}"
  | .missingValue field op => s!"operator {op.token} on '{field}' requires a value"
  | .nestingNotAllowed max => s!"having conditions nest deeper than {max} levels"
  | .unsupportedTemporalTarget field target =>
    s!"cannot bind an instant to '{field}' of type {target}"
  | .illegalSortField field => s!"cannot sort on '{field}'"
  | .invalidHavingPath field => s!"having path '{field}' must end at the collection"

/-- A computation that ends with a value, a compile error or a fault. -/
abbrev Compile := Except (Failure CompileError)

/-- What a value that is missing is refused with. -/
def orFail {α : Type} (e : CompileError) : Option α → Compile α
  | some a => .ok a
  | none => refuse e

structure CompileOptions where
  /-- Where the clocks stand that local attributes show. -/
  zone : Zone := Zone.utc
  /-- How deep conditions on members may nest. -/
  maxHavingDepth : Nat := 2

/-- What a condition is compiled in. -/
structure Scope where
  catalog : Catalog
  /-- The name in the catalog of a field of a filter. -/
  rename : String → String
  options : CompileOptions
  entity : String
  aliasName : String

namespace Scope

/-- The scope of the members of a collection. -/
def inner (s : Scope) (entity aliasName : String) : Scope :=
  { s with entity := entity, aliasName := aliasName }

/-- The attribute at the end of a path; `field` is what an error names. -/
def attributeAt (s : Scope) (field path : String) : Compile Attribute :=
  orRefuse (.invalidField s.entity field) (s.catalog.resolve s.entity path)

/-- A field as a path of the query, and the attribute that it leads to. -/
def resolve (s : Scope) (field : String) : Compile (Ref × Attribute) := do
  let path := s.rename field
  let attr ← s.attributeAt field path
  return (⟨s.aliasName, segments path⟩, attr)

/-! ## Comparisons -/

/-- The type of an attribute, as errors call it. -/
def typeTitle (attr : Attribute) : String :=
  match attr.scalarType? with
  | some type => type.title
  | none => "association"

/-- The form of an instant that an attribute stores. -/
def boundInstant (s : Scope) (field : String) (attr : Attribute) (i : Instant) :
    Compile BoundValue := do
  let unsupported := CompileError.unsupportedTemporalTarget field (typeTitle attr)
  let type ← orFail unsupported attr.scalarType?
  orFail unsupported (← orStop (BoundValue.ofInstant i type s.options.zone))

/-- The components of a month and day. -/
def monthDayRow (md : MonthDay) : List (Component × Nat) := [(.month, md.month), (.day, md.day)]

/-- The components of a time that are compared; fractions of a second are not. -/
def timeRow (t : Time) : List (Component × Nat) :=
  [(.hour, t.hour), (.minute, t.minute), (.second, t.second)]

/-- The comparison of an attribute with a value. Text is compared without regard to case, a number
is written as text unless the attribute is numeric, and what has no text form is bound to a
parameter. -/
def comparison (s : Scope) (field : String) (ref : Ref) (attr : Attribute) (op : Operator)
    (value : Value) (names : Names) : Compile (Clause × Names) := do
  let illegal := CompileError.illegalOperator op value.kind
  match value with
  | .string text =>
    if op = .like then
      return (.compareText ref .like (likePattern text.toList), names)
    else
      let symbol ← orFail illegal op.symbol?
      return (.compareText ref (.symbol symbol) text.toList, names)
  | .long _ | .double _ =>
    let symbol ← orFail illegal op.symbol?
    let operand := if attr.isNumeric then .numeral value.text else .quoted value.text
    return (.compare ref symbol operand, names)
  | .boolean b =>
    let symbol ← match op with
      | .eq => pure Symbol.eq
      | .ne => pure Symbol.ne
      | _ => refuse illegal
    if attr.isBoolean then
      let (name, names) := names.nextParameter attr.name (.boolean b)
      return (.compare ref symbol (.parameter name), names)
    else
      return (.compare ref symbol (.quoted value.text), names)
  | .date d =>
    let symbol ← orFail illegal op.symbol?
    return (.compare ref symbol (.date d), names)
  | .dateTime dt =>
    let symbol ← orFail illegal op.symbol?
    return (.compare ref symbol (.timestamp dt), names)
  | .monthDay md =>
    let clause ← orFail illegal (Clause.compareRow? ref op (monthDayRow md))
    return (clause, names)
  | .time t =>
    let clause ← orFail illegal (Clause.compareRow? ref op (timeRow t))
    return (clause, names)
  | .year y =>
    let symbol ← orFail illegal op.symbol?
    return (.compareComponent .year ref symbol y, names)
  | .instant i =>
    let symbol ← orFail illegal op.symbol?
    let bound ← s.boundInstant field attr i
    let (name, names) := names.nextParameter attr.name bound
    return (.compare ref symbol (.parameter name), names)

/-- A field under an operator. -/
def simple (s : Scope) (field : String) (op : Operator) (value : Option Value) (names : Names) :
    Compile (Clause × Names) := do
  let (ref, attr) ← s.resolve field
  match op with
  | .null => return (.null ref, names)
  | .notNull => return (.notNull ref, names)
  | op =>
    let value ← orFail (.missingValue field op) value
    s.comparison field ref attr op value names

/-! ## Lists -/

/-- The members of a list are written out. -/
def listItem (value : Value) : Compile Operand :=
  match value with
  | .string text => .ok (.quoted text.toList)
  | .long _ | .double _ => .ok (.numeral value.text)
  | _ => refuse (.illegalListValue value.kind)

/-- A field and the members of a list. -/
def list (s : Scope) (field : String) (values : List Value) : Compile (Ref × List Operand) := do
  let (ref, _) ← s.resolve field
  let items ← values.mapM listItem
  return (ref, items)

/-! ## Collections -/

/-- A step from an entity to the members of one of its collections. -/
structure Hop where
  /-- The path to the entity that has the collection. -/
  owner : Ref
  ownerType : String
  target : String
  /-- The attribute of a member that points back at the owner. -/
  inverse : Attribute
  /-- The attributes on the path behind the collection. -/
  rest : List String

/-- The first collection on a path that starts with the segments `before`: the segments in front of
it, the collection, and those behind it. -/
def firstCollection (s : Scope) (field : String) (before : List String) :
    List String → Compile (List String × Attribute × List String)
  | [] => refuse (.notACollection field)
  | segment :: rest => do
    let attr ← s.attributeAt field (joinSegments (before ++ [segment]))
    if attr.isCollection then return (before, attr, rest)
    else firstCollection s field (before ++ [segment]) rest

/-- Every segment names an attribute, from the type on. -/
def checkRest (s : Scope) (field type : String) : List String → Compile Unit
  | [] => .ok ()
  | segment :: rest => do
    let attr ← orFail (.invalidHavingPath field) (s.catalog.attribute? type segment)
    checkRest s field (attr.target?.getD type) rest

/-- The step at the first collection on the path of a field. -/
def hop (s : Scope) (field : String) : Compile Hop := do
  let path := s.rename field
  let _ ← s.attributeAt field path
  let (before, collection, rest) ← s.firstCollection field [] (segments path)
  let target ← orFail (.noTargetType field) collection.target?
  let inverse ← orFail (.noInverseAttribute field target)
    (s.catalog.inverse? collection.declaringType collection target)
  s.checkRest field target rest
  return ⟨⟨s.aliasName, before⟩, collection.declaringType, target, inverse, rest⟩

/-- There is room for one more level. -/
def checkDepth (s : Scope) (names : Names) : Compile Unit :=
  if names.depth + 1 > s.options.maxHavingDepth then
    refuse (.nestingNotAllowed s.options.maxHavingDepth)
  else .ok ()

/-- The collection itself, with nothing behind it on the path. -/
def havingHop (s : Scope) (field : String) (names : Names) : Compile Hop := do
  s.checkDepth names
  let hop ← s.hop field
  if hop.rest.isEmpty then return hop else refuse (.invalidHavingPath field)

/-- The attribute of the members that a function is applied to; members themselves are counted by
their identifiers. -/
def aggregatedName (s : Scope) (hop : Hop) (field : String) (function : Aggregate) :
    Compile String :=
  match hop.rest with
  | name :: _ => .ok name
  | [] =>
    if function = .count then orFail (.noIdentifier hop.target) (s.catalog.identifier? hop.target)
    else refuse (.missingAggregateField function field)

/-- A function over the members of a collection, compared with a number. -/
def aggregate (s : Scope) (field : String) (function : Aggregate) (op : Operator) (bound : Value)
    (names : Names) : Compile (Clause × Names) := do
  s.checkDepth names
  let hop ← s.hop field
  if hop.rest.length > 1 then refuse (.multiHopFunctionPath field)
  let ownerId ← orFail (.noIdentifier hop.ownerType) (s.catalog.identifier? hop.ownerType)
  let aggregated ← s.aggregatedName hop field function
  let symbol ← orFail (.illegalOperator op bound.kind) op.symbol?
  if !bound.isNumeric then refuse (.illegalOperator op bound.kind)
  let (inner, names) := names.nextAlias hop.target
  let back : Ref := ⟨inner, [hop.inverse.name, ownerId]⟩
  return (.totals (hop.owner.member ownerId) back hop.target function ⟨inner, [aggregated]⟩ symbol
    bound.text, names)

end Scope

/-! ## Conditions -/

namespace Condition

mutual

/-- Translate a condition. What fails in it leaves the names as they are by then, and the depth as
it was. -/
def translate (s : Scope) : Condition → Stateful CompileError Names Clause
  | .simple field op value => .step (s.simple field op value)
  | .oneOf field values => do
    let (ref, items) ← s.list field values
    return .oneOf ref items
  | .noneOf field values => do
    let (ref, items) ← s.list field values
    return .noneOf ref items
  | .not c => do
    let clause ← translate s c
    return .not clause
  | .group join first second more => do
    let a ← translate s first
    let b ← translate s second
    let rest ← translateAll s more
    return .group join (a :: b :: rest)
  | .having field sub => do
    let hop ← s.havingHop field (← get)
    let inner ← modifyGet (·.nextAlias hop.target)
    let clause ← (translate (s.inner hop.target inner) sub).between Names.enter Names.leave
    return .members hop.owner ⟨inner, [hop.inverse.name]⟩ hop.target clause
  | .aggregate field function op bound => .step (s.aggregate field function op bound)

/-- Translate all conditions in turn. -/
def translateAll (s : Scope) : List Condition → Stateful CompileError Names (List Clause)
  | [] => return []
  | c :: cs => do
    let clause ← translate s c
    let rest ← translateAll s cs
    return clause :: rest

end

/-- The clause of a condition, and the names after it. The names that it is given are a copy. -/
def compile (s : Scope) (c : Condition) (names : Names) : Compile (Clause × Names) :=
  (c.translate s).committed names

/-- The clauses of all conditions in turn, and the names after them. -/
def compileAll (s : Scope) (cs : List Condition) (names : Names) :
    Compile (List Clause × Names) :=
  (translateAll s cs).committed names

variable {s : Scope} {names : Names} {field : String} {op : Operator}

theorem compile_simple {value : Option Value} :
    compile s (.simple field op value) names = s.simple field op value names := by
  rw [compile, translate, Stateful.committed_step]

theorem compile_oneOf {values : List Value} : compile s (.oneOf field values) names = (do
    let (ref, items) ← s.list field values
    return (.oneOf ref items, names)) := by
  rw [compile, translate, Stateful.committed_bind, Stateful.committed_liftM]
  cases s.list field values <;> rfl

theorem compile_noneOf {values : List Value} : compile s (.noneOf field values) names = (do
    let (ref, items) ← s.list field values
    return (.noneOf ref items, names)) := by
  rw [compile, translate, Stateful.committed_bind, Stateful.committed_liftM]
  cases s.list field values <;> rfl

theorem compile_not {c : Condition} : compile s (.not c) names = (do
    let (clause, names) ← compile s c names
    return (.not clause, names)) := by
  rw [compile, translate, Stateful.committed_bind]
  rfl

theorem compile_group {join : Connective} {first second : Condition} {more : List Condition} :
    compile s (.group join first second more) names = (do
      let (a, names) ← compile s first names
      let (b, names) ← compile s second names
      let (rest, names) ← compileAll s more names
      return (.group join (a :: b :: rest), names)) := by
  rw [compile, translate]
  simp only [Stateful.committed_bind]
  rfl

theorem compile_having {sub : Condition} : compile s (.having field sub) names = (do
    let hop ← s.havingHop field names
    let (inner, names) := names.nextAlias hop.target
    let (clause, names) ← compile (s.inner hop.target inner) sub names.enter
    return (.members hop.owner ⟨inner, [hop.inverse.name]⟩ hop.target clause, names.leave)) := by
  rw [compile, translate]
  simp only [Stateful.committed_bind, Stateful.committed_get, Stateful.committed_liftM,
    Stateful.committed_modifyGet, Stateful.committed_between, ok_bind]
  cases s.havingHop field names with
  | error e => rfl
  | ok hop =>
    show Except.map _ (compile _ _ _) >>= _ = compile _ _ _ >>= _
    generalize compile (s.inner hop.target (names.nextAlias hop.target).1) sub _ = found
    cases found <;> rfl

theorem compile_aggregate {function : Aggregate} {bound : Value} :
    compile s (.aggregate field function op bound) names =
      s.aggregate field function op bound names := by
  rw [compile, translate, Stateful.committed_step]

theorem compileAll_nil : compileAll s [] names = .ok ([], names) := by
  rw [compileAll, translateAll, Stateful.committed_pure]

theorem compileAll_cons {c : Condition} {cs : List Condition} :
    compileAll s (c :: cs) names = (do
      let (clause, names) ← compile s c names
      let (rest, names) ← compileAll s cs names
      return (clause :: rest, names)) := by
  rw [compileAll, translateAll]
  simp only [Stateful.committed_bind]
  rfl

end Condition

end FilterQuery
