import FilterQuery.Json.Scan

set_option autoImplicit false

/-! # Schema documents

A catalog is written down as a JSON object with one member `entities`, an array of objects with a
`name`, an `id` and `attributes`; an attribute has a `name`, a `type`, and for associations a
`target` and `mappedBy`. Members with other names are passed over. A record may also be written as
an array of its fields in order.

A fault of shape is noticed as soon as it is met, a missing member at the closing brace. -/

namespace FilterQuery

namespace SchemaDocument

open FilterQuery.JsonScan

/-- A value is of another type than the expected one. A scalar is still read to its end, so that a
broken one is reported as such. -/
def otherType {α : Type} (cs : List Char) : Scan α :=
  match skipSpace cs with
  | '[' :: _ => mismatched
  | '{' :: _ => mismatched
  | cs =>
    match valueAt false none cs with
    | .error e => .error e
    | .ok _ => mismatched

/-! ## Fields -/

def readString (cs : List Char) : Scan (String × List Char) :=
  match skipSpace cs with
  | '"' :: cs => string false cs
  | cs => otherType cs

/-- A string or null. -/
def readOptional (cs : List Char) : Scan (Option String × List Char) :=
  match skipSpace cs with
  | 'n' :: cs => (keyword ['u', 'l', 'l'] cs).map (none, ·)
  | cs => (readString cs).map fun (s, cs) => (some s, cs)

/-- The kind of attribute that a type name stands for. -/
def kindOfName? (name : String) : Option KindDef :=
  ((ScalarType.ofName? name).map KindDef.scalar).or
    ((AssociationKind.ofName? name).map KindDef.association)

/-- The levels of nesting that are left for the type of an attribute. -/
def typeLevels : Nat := 122

/-- The type of an attribute: its name, by itself or as the only key of an object with null. -/
def readKind (cs : List Char) : Scan (KindDef × List Char) := do
  let (outline, cs) ← value false typeLevels cs
  let name? := match outline with
    | .string s => some s
    | .object [(s, .null)] => some s
    | _ => none
  match name?.bind kindOfName? with
  | some kind => return (kind, cs)
  | none => mismatched

/-! ## Records

A record is read member by member into a partial record, whose fields are filled one after the
other. -/

/-- How to read a record: what a known member does to the partial record, the fields in the order in
which an array lists them, and the finished record. -/
structure Shape (σ α : Type) where
  start : σ
  /-- The field of a name; `none` if it is filled already. -/
  field? : String → σ → Option (Option (List Char → Scan (σ × List Char)))
  /-- The fields in order, each with what happens if the array ends before it. -/
  order : List (σ → List Char → Scan (σ × List Char))
  finish : σ → Option α

variable {σ α : Type}

/-- The members of an object behind its brace. A repeated member is a fault before its value is
read. -/
def readMembers (shape : Shape σ α) :
    (fuel : Nat) → (first : Bool) → σ → List Char → Scan (σ × List Char)
  | 0, _, _, _ => truncated
  | fuel + 1, first, partialRecord, cs =>
    match skipSpace cs with
    | [] => truncated
    | '}' :: cs => .ok (partialRecord, cs)
    | c :: cs => do
      let start ← if first then pure (c :: cs) else if c = ',' then pure cs else malformed
      let (key, cs) ← memberKey false start
      match shape.field? key partialRecord with
      | none =>
        let cs ← colon cs
        let cs ← skipValue cs
        readMembers shape fuel false partialRecord cs
      | some none => mismatched
      | some (some read) =>
        let cs ← colon cs
        let (partialRecord, cs) ← read cs
        readMembers shape fuel false partialRecord cs

/-- The fields of a record that is written as an array; fields at the end may be left out. -/
def readFields (first : Bool) (record : σ) :
    List (σ → List Char → Scan (σ × List Char)) → List Char → Scan (σ × List Char)
  | [], cs =>
    match skipSpace cs with
    | [] => truncated
    | ']' :: cs => .ok (record, cs)
    | _ => malformed
  | read :: reads, cs =>
    match skipSpace cs with
    | [] => truncated
    | ']' :: cs => .ok (record, cs)
    | c :: cs => do
      let start ← if first then pure (c :: cs) else if c = ',' then pure cs else malformed
      match skipSpace start with
      | [] => truncated
      | ']' :: _ => malformed
      | start =>
        let (record, cs) ← read record start
        readFields false record reads cs

/-- A record written as an object or as an array. -/
def readRecord (shape : Shape σ α) (cs : List Char) : Scan (α × List Char) := do
  let (record, cs) ← match skipSpace cs with
    | [] => truncated
    | '{' :: cs => readMembers shape (cs.length + 1) true shape.start cs
    | '[' :: cs => readFields true shape.start shape.order cs
    | cs => otherType cs
  match shape.finish record with
  | some a => return (a, cs)
  | none => mismatched

/-- The items of an array behind its bracket. -/
def readItems (read : List Char → Scan (α × List Char)) :
    (fuel : Nat) → (first : Bool) → List Char → Scan (List α × List Char)
  | 0, _, _ => truncated
  | fuel + 1, first, cs =>
    match skipSpace cs with
    | [] => truncated
    | ']' :: cs => .ok ([], cs)
    | c :: cs => do
      let start ← if first then pure (c :: cs) else if c = ',' then pure cs else malformed
      match skipSpace start with
      | [] => truncated
      | ']' :: _ => malformed
      | start =>
        let (a, cs) ← read start
        let (rest, cs) ← readItems read fuel false cs
        return (a :: rest, cs)

/-- An array of records. -/
def readArray (read : List Char → Scan (α × List Char)) (cs : List Char) :
    Scan (List α × List Char) :=
  match skipSpace cs with
  | [] => truncated
  | '[' :: cs => readItems read (cs.length + 1) true cs
  | cs => otherType cs

/-- Fill a field of a partial record with what a reader finds. -/
def fill {β : Type} (read : List Char → Scan (β × List Char)) (set : β → σ) (cs : List Char) :
    Scan (σ × List Char) :=
  (read cs).map fun (b, cs) => (set b, cs)

/-- A field is read once only. -/
def once {β γ : Type} (current : Option β) (read : γ) : Option (Option γ) :=
  match current with
  | some _ => some none
  | none => some (some read)

/-! ## Attributes, entities, documents -/

structure AttributeParts where
  name : Option String := none
  kind : Option KindDef := none
  target : Option (Option String) := none
  mappedBy : Option (Option String) := none

def setName (r : AttributeParts) (cs : List Char) : Scan (AttributeParts × List Char) :=
  fill readString (fun s => { r with name := some s }) cs

def setKind (r : AttributeParts) (cs : List Char) : Scan (AttributeParts × List Char) :=
  fill readKind (fun k => { r with kind := some k }) cs

def setTarget (r : AttributeParts) (cs : List Char) : Scan (AttributeParts × List Char) :=
  fill readOptional (fun s => { r with target := some s }) cs

def setMappedBy (r : AttributeParts) (cs : List Char) : Scan (AttributeParts × List Char) :=
  fill readOptional (fun s => { r with mappedBy := some s }) cs

def attributeShape : Shape AttributeParts AttributeDef where
  start := {}
  field? key r := match key with
    | "name" => once r.name (setName r)
    | "type" => once r.kind (setKind r)
    | "target" => once r.target (setTarget r)
    | "mappedBy" => once r.mappedBy (setMappedBy r)
    | _ => none
  order := [setName, setKind, setTarget, setMappedBy]
  finish r := match r.name, r.kind with
    | some name, some kind => some ⟨name, kind, r.target.getD none, r.mappedBy.getD none⟩
    | _, _ => none

structure EntityParts where
  name : Option String := none
  id : Option String := none
  attributes : Option (List AttributeDef) := none

def setEntityName (r : EntityParts) (cs : List Char) : Scan (EntityParts × List Char) :=
  fill readString (fun s => { r with name := some s }) cs

def setId (r : EntityParts) (cs : List Char) : Scan (EntityParts × List Char) :=
  fill readString (fun s => { r with id := some s }) cs

def setAttributes (r : EntityParts) (cs : List Char) : Scan (EntityParts × List Char) :=
  fill (readArray (readRecord attributeShape)) (fun as => { r with attributes := some as }) cs

def entityShape : Shape EntityParts EntityDef where
  start := {}
  field? key r := match key with
    | "name" => once r.name (setEntityName r)
    | "id" => once r.id (setId r)
    | "attributes" => once r.attributes (setAttributes r)
    | _ => none
  order := [setEntityName, setId, setAttributes]
  finish r := match r.name, r.attributes with
    | some name, some attributes => some ⟨name, r.id.getD "id", attributes⟩
    | _, _ => none

def setEntities (_ : Option (List EntityDef)) (cs : List Char) :
    Scan (Option (List EntityDef) × List Char) :=
  fill (readArray (readRecord entityShape)) some cs

def documentShape : Shape (Option (List EntityDef)) (List EntityDef) where
  start := none
  field? key r := match key with
    | "entities" => once r (setEntities r)
    | _ => none
  order := [setEntities]
  finish := id

/-- The entities of a whole document. -/
def read (text : List Char) : Except DocumentFault (List EntityDef) := do
  let (entities, rest) ← readRecord documentShape text
  match skipSpace rest with
  | [] => return entities
  | _ => malformed

end SchemaDocument

/-- The catalog that a schema document describes. -/
def Catalog.ofDocument (text : String) : Except CatalogError Catalog :=
  match SchemaDocument.read text.toList with
  | .error fault => .error (.document fault)
  | .ok entities => build entities

end FilterQuery
