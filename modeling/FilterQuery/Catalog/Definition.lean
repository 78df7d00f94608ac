import FilterQuery.Catalog

set_option autoImplicit false

/-! # Defining a catalog

A catalog is built from definitions of entities. They are checked one after the other: attribute
names do not repeat, associations lead to an entity that is defined somewhere, the identifier is an
attribute, and entity names do not repeat. -/

namespace FilterQuery

/-- The kind of an attribute before its target is known. -/
inductive KindDef where
  | scalar (type : ScalarType)
  | association (kind : AssociationKind)
  deriving DecidableEq, Repr

structure AttributeDef where
  name : String
  kind : KindDef
  target : Option String := none
  mappedBy : Option String := none
  deriving DecidableEq, Repr

structure EntityDef where
  name : String
  id : String := "id"
  attributes : List AttributeDef
  deriving DecidableEq, Repr

/-- How a schema document fails to be one. -/
inductive DocumentFault where
  /-- It ends too early. -/
  | truncated
  /-- It is no JSON. -/
  | malformed
  /-- It is JSON of another shape. -/
  | mismatched
  deriving DecidableEq, Repr

inductive CatalogError where
  | document (fault : DocumentFault)
  | duplicateEntity (entity : String)
  | duplicateAttribute (entity attr : String)
  | missingIdentifier (entity id : String)
  | missingTarget (entity attr : String)
  | unknownTarget (entity attr target : String)
  deriving DecidableEq, Repr

def CatalogError.message : CatalogError → String
  | .document .truncated => "invalid schema document: unexpected end"
  | .document .malformed => "invalid schema document: not JSON"
  | .document .mismatched => "invalid schema document: unexpected shape"
  | .duplicateEntity entity => s!"entity '{entity}' is defined more than once"
  | .duplicateAttribute entity attr =>
    s!"attribute '{entity}.{attr}' is defined more than once"
  | .missingIdentifier entity id =>
    s!"identifier '{id}' of entity '{entity}' is not one of its attributes"
  | .missingTarget entity attr =>
    s!"association '{entity}.{attr}' needs a target entity"
  | .unknownTarget entity attr target =>
    s!"association '{entity}.{attr}' targets unknown entity '{target}'"

namespace AttributeDef

/-- The kind of an attribute, given the names of all entities. -/
def resolveKind (d : AttributeDef) (entity : String) (names : List String) :
    Except CatalogError AttributeKind :=
  match d.kind with
  | .scalar type => .ok (.scalar type)
  | .association kind =>
    match d.target with
    | none => .error (.missingTarget entity d.name)
    | some target =>
      if names.contains target then .ok (.association kind target d.mappedBy)
      else .error (.unknownTarget entity d.name target)

end AttributeDef

namespace EntityDef

/-- The attributes of an entity behind those of `earlier` names. -/
def buildAttributes (entity : String) (names : List String) (earlier : List String) :
    List AttributeDef → Except CatalogError (List Attribute)
  | [] => .ok []
  | d :: rest =>
    if earlier.contains d.name then .error (.duplicateAttribute entity d.name)
    else
      match d.resolveKind entity names with
      | .error e => .error e
      | .ok kind =>
        match buildAttributes entity names (d.name :: earlier) rest with
        | .error e => .error e
        | .ok attributes => .ok (⟨d.name, entity, kind⟩ :: attributes)

def build (d : EntityDef) (names : List String) : Except CatalogError EntityType :=
  match buildAttributes d.name names [] d.attributes with
  | .error e => .error e
  | .ok attributes =>
    if attributes.any (·.name == d.id) then .ok ⟨d.name, d.id, attributes⟩
    else .error (.missingIdentifier d.name d.id)

end EntityDef

namespace Catalog

/-- The entity types of definitions behind those of `earlier` names. -/
def buildTypes (names : List String) (earlier : List String) :
    List EntityDef → Except CatalogError (List EntityType)
  | [] => .ok []
  | d :: rest =>
    match d.build names with
    | .error e => .error e
    | .ok type =>
      if earlier.contains d.name then .error (.duplicateEntity d.name)
      else
        match buildTypes names (d.name :: earlier) rest with
        | .error e => .error e
        | .ok types => .ok (type :: types)

/-- The catalog of a list of definitions. -/
def build (entities : List EntityDef) : Except CatalogError Catalog :=
  match buildTypes (entities.map EntityDef.name) [] entities with
  | .error e => .error e
  | .ok types => .ok ⟨types⟩

end Catalog

end FilterQuery
