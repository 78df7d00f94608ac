import FilterQuery.Text.Ascii
import FilterQuery.Text.Blank
import FilterQuery.Text.CaseMap

set_option autoImplicit false

/-! # Field naming

The fields of a filter may be written in another style than the attributes they stand for. A naming
is one of the known styles, and its `transform` turns a field into the path of an attribute. -/

namespace FilterQuery

open FilterQuery.Text

/-- Camel case of a snake-case path, given what has been written (last character first) and whether
the next letter is a capital. An underscore at the start of a segment makes no capital. -/
def camelFrom (written : List Char) (upperNext : Bool) : List Char → List Char
  | [] => written.reverse
  | c :: rest =>
    if c = '_' then
      camelFrom written (written.head?.any (· != '.')) rest
    else if c = '.' then camelFrom ('.' :: written) false rest
    else if upperNext then camelFrom ((upper c).reverse ++ written) false rest
    else camelFrom (c :: written) false rest

/-- `year_of_birth` becomes `yearOfBirth`, each segment of a dotted path by itself. -/
def snakeToCamel (field : String) : String := String.ofList (camelFrom [] false field.toList)

inductive Naming where
  | identity
  | snakeToCamel
  deriving DecidableEq, Repr

/-- A name that no style has. -/
structure UnknownNaming where
  name : String
  deriving DecidableEq, Repr

def UnknownNaming.message (e : UnknownNaming) : String :=
  s!"unknown field naming '{e.name}', expected 'identity' or 'snake_to_camel'"

namespace Naming

def name : Naming → String
  | .identity => "identity"
  | .snakeToCamel => "snake_to_camel"

def transform : Naming → String → String
  | .identity => id
  | .snakeToCamel => FilterQuery.snakeToCamel

/-- The style of a name; blanks around it and the case of ASCII letters do not count. -/
def parse (text : String) : Except UnknownNaming Naming :=
  let name := String.ofList ((trim text.toList).map lowerAscii)
  if name = Naming.identity.name then .ok .identity
  else if name = Naming.snakeToCamel.name then .ok .snakeToCamel
  else .error ⟨name⟩

end Naming

end FilterQuery
