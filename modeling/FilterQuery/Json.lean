import FilterQuery.Number.Binary64

set_option autoImplicit false

/-! # Structured documents

The documents that the service answers with: JSON values, in which integers and doubles are told
apart. Members of an object keep their order. -/

namespace FilterQuery

inductive Json where
  | null
  | bool (b : Bool)
  | int (n : Int)
  | double (x : Binary64)
  | string (s : String)
  | array (items : List Json)
  | object (members : List (String × Json))

namespace Json

/-- The string of a text. -/
def text (cs : List Char) : Json := .string (String.ofList cs)

/-- An object that says which kind of thing it holds. -/
def tagged (tag : String) (value : Json) : Json :=
  .object [("type", .string tag), ("value", value)]

/-- A string, or null. -/
def optional : Option String → Json
  | some s => .string s
  | none => .null

end Json

end FilterQuery
