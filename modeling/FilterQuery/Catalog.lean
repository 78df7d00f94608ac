import FilterQuery.Text.Replace

set_option autoImplicit false

/-! # Catalogs

A catalog describes the entity types that a filter can ask about: their attributes, which are
scalars or associations to other entity types, and their identifiers. A dotted path names an
attribute by walking associations; a scalar ends the walk.

`Catalog.resolve` follows a path and says what is wrong with it if it leads nowhere.
`Catalog.inverse?` finds the association that points back. -/

namespace FilterQuery

inductive ScalarType where
  | string | integer | float | boolean
  | date | time | localDateTime
  | instant | offsetDateTime | zonedDateTime | offsetTime | timestamp
  deriving DecidableEq, Repr

namespace ScalarType

def all : List ScalarType :=
  [.string, .integer, .float, .boolean, .date, .time, .localDateTime, .instant, .offsetDateTime,
   .zonedDateTime, .offsetTime, .timestamp]

/-- The name in schema documents. -/
def name : ScalarType → String
  | .string => "string"
  | .integer => "integer"
  | .float => "float"
  | .boolean => "boolean"
  | .date => "date"
  | .time => "time"
  | .localDateTime => "localDateTime"
  | .instant => "instant"
  | .offsetDateTime => "offsetDateTime"
  | .zonedDateTime => "zonedDateTime"
  | .offsetTime => "offsetTime"
  | .timestamp => "timestamp"

/-- The name in error messages. -/
def title : ScalarType → String
  | .string => "String"
  | .integer => "Integer"
  | .float => "Float"
  | .boolean => "Boolean"
  | .date => "Date"
  | .time => "Time"
  | .localDateTime => "LocalDateTime"
  | .instant => "Instant"
  | .offsetDateTime => "OffsetDateTime"
  | .zonedDateTime => "ZonedDateTime"
  | .offsetTime => "OffsetTime"
  | .timestamp => "Timestamp"

def ofName? (name : String) : Option ScalarType := all.find? fun t => t.name == name

theorem ofName?_name (t : ScalarType) : ofName? t.name = some t := by
  cases t <;> decide

end ScalarType

inductive AssociationKind where
  | manyToOne | oneToOne | oneToMany | manyToMany
  deriving DecidableEq, Repr

namespace AssociationKind

def all : List AssociationKind := [.manyToOne, .oneToOne, .oneToMany, .manyToMany]

/-- The name in schema documents. -/
def name : AssociationKind → String
  | .manyToOne => "manyToOne"
  | .oneToOne => "oneToOne"
  | .oneToMany => "oneToMany"
  | .manyToMany => "manyToMany"

def ofName? (name : String) : Option AssociationKind := all.find? fun k => k.name == name

/-- Leads to any number of entities. -/
def isCollection : AssociationKind → Bool
  | .oneToMany | .manyToMany => true
  | _ => false

theorem ofName?_name (k : AssociationKind) : ofName? k.name = some k := by
  cases k <;> decide

end AssociationKind

inductive AttributeKind where
  | scalar (type : ScalarType)
  /-- `mappedBy` names the attribute of the target that holds the association. -/
  | association (kind : AssociationKind) (target : String) (mappedBy : Option String)
  deriving DecidableEq, Repr

structure Attribute where
  name : String
  declaringType : String
  kind : AttributeKind
  deriving DecidableEq, Repr

namespace Attribute

def isAssociation (a : Attribute) : Bool :=
  match a.kind with
  | .association .. => true
  | .scalar _ => false

def isCollection (a : Attribute) : Bool :=
  match a.kind with
  | .association kind _ _ => kind.isCollection
  | .scalar _ => false

def scalarType? (a : Attribute) : Option ScalarType :=
  match a.kind with
  | .scalar type => some type
  | .association .. => none

/-- The entity type that an association leads to. -/
def target? (a : Attribute) : Option String :=
  match a.kind with
  | .association _ target _ => some target
  | .scalar _ => none

def mappedBy? (a : Attribute) : Option String :=
  match a.kind with
  | .association _ _ mappedBy => mappedBy
  | .scalar _ => none

def isNumeric (a : Attribute) : Bool :=
  a.kind == .scalar .integer || a.kind == .scalar .float

def isBoolean (a : Attribute) : Bool := a.kind == .scalar .boolean

end Attribute

structure EntityType where
  name : String
  /-- The name of the attribute that identifies an entity. -/
  id : String
  /-- In the order of their declaration. -/
  attributes : List Attribute
  deriving DecidableEq, Repr

structure Catalog where
  types : List EntityType
  deriving DecidableEq, Repr

/-- Why a path leads nowhere. -/
inductive PathError where
  | unknownType (name : String)
  | unknownAttribute (type attr : String)
  /-- A scalar with more segments behind it. -/
  | notNavigable (segment : String)
  | empty
  deriving DecidableEq, Repr

def PathError.message : PathError → String
  | .unknownType name => s!"unknown entity type '{name}'"
  | .unknownAttribute type attr => s!"no attribute '{attr}' defined for entity '{type}'"
  | .notNavigable segment =>
    s!"non-association attribute '{segment}' encountered before the end of the path"
  | .empty => "empty path"

/-- The segments of a dotted path. -/
def segments (path : String) : List String :=
  (Text.splitAll '.' path.toList).map String.ofList

/-- The path with the given segments. -/
def joinSegments (parts : List String) : String :=
  String.ofList (Text.join ['.'] (parts.map String.toList))

/-- A path is made of its segments. -/
theorem joinSegments_segments (path : String) : joinSegments (segments path) = path := by
  have h : (String.toList ∘ String.ofList) = id := by
    funext cs
    simp
  simp [joinSegments, segments, h, Text.join_splitAll]

namespace Catalog

def type? (c : Catalog) (name : String) : Option EntityType :=
  c.types.find? fun t => t.name == name

def hasType (c : Catalog) (name : String) : Bool := (c.type? name).isSome

/-- The names of the entity types in ascending order. -/
def typeNames (c : Catalog) : List String :=
  (c.types.map EntityType.name).mergeSort fun a b => decide (a ≤ b)

def attributes (c : Catalog) (type : String) : List Attribute :=
  ((c.type? type).map EntityType.attributes).getD []

def attribute? (c : Catalog) (type name : String) : Option Attribute :=
  (c.attributes type).find? fun a => a.name == name

def identifier? (c : Catalog) (type : String) : Option String := (c.type? type).map EntityType.id

/-- Walk the segments of a path from an entity type. -/
def resolveSegments (c : Catalog) (type : String) : List String → Except PathError Attribute
  | [] => .error .empty
  | segment :: rest =>
    match c.attribute? type segment with
    | none => .error (.unknownAttribute type segment)
    | some attr =>
      if rest.isEmpty then .ok attr
      else
        match attr.target? with
        | none => .error (.notNavigable segment)
        | some target => resolveSegments c target rest

/-- The attribute at the end of a path. -/
def resolve (c : Catalog) (root path : String) : Except PathError Attribute :=
  if path.isEmpty then .error .empty
  else if !c.hasType root then .error (.unknownType root)
  else c.resolveSegments root (segments path)

/-- The attribute of `target` that points back at an attribute of `source`: the one that holds the
association or, if the attribute holds it itself, the first one mapped by it. -/
def inverse? (c : Catalog) (source : String) (attr : Attribute) (target : String) :
    Option Attribute :=
  match attr.mappedBy?.filter fun m => !m.isEmpty with
  | some owner => c.attribute? target owner
  | none => (c.attributes target).find? fun candidate =>
      candidate.target? == some source && candidate.mappedBy? == some attr.name

end Catalog

end FilterQuery
