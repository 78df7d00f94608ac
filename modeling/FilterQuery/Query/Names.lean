import FilterQuery.Query.BoundValue
import FilterQuery.Text.Ascii
import FilterQuery.Text.CaseMap

set_option autoImplicit false

/-! # Names of a compilation

One query and all its subqueries share a register of names: the aliases of entities and the
parameters with the values bound to them. A generated name is a stem with a number, the least one
that is not in use, so a new name never meets an old one. -/

namespace FilterQuery

structure Names where
  aliases : List String
  /-- In the order in which they were bound. -/
  parameters : List (String × BoundValue)
  /-- How many subqueries the compilation stands in. -/
  depth : Nat
  deriving DecidableEq

namespace Names

def empty : Names := ⟨[], [], 0⟩

/-! ## Fresh names -/

/-- The name with a number behind its stem. -/
def numbered (stem : String) (n : Nat) : String :=
  String.ofList (stem.toList ++ '_' :: Text.natDigits n)

/-- The least number whose name is not taken. Of the first `taken.length + 1` numbers one is free.
-/
def freshIndex (taken : List String) (stem : String) : Nat :=
  ((List.range taken.length).find? fun n => !taken.contains (numbered stem n)).getD taken.length

/-- The first name of a stem that is not taken. -/
def fresh (taken : List String) (stem : String) : String := numbered stem (freshIndex taken stem)

/-! ## Aliases -/

/-- The stem of the aliases of an entity type: its first two letters in lower case. -/
def aliasStem (type : String) : String := String.ofList ((type.toList.take 2).flatMap Text.lower)

def hasAlias (names : Names) (name : String) : Bool := names.aliases.contains name

def registerAlias (names : Names) (name : String) : Names :=
  { names with aliases := names.aliases.insert name }

def releaseAlias (names : Names) (name : String) : Names :=
  { names with aliases := names.aliases.filter (· != name) }

/-- A new alias for an entity type. -/
def nextAlias (names : Names) (type : String) : String × Names :=
  let name := fresh names.aliases (aliasStem type)
  (name, names.registerAlias name)

/-! ## Parameters -/

/-- Bind a value to a new parameter for an attribute. -/
def nextParameter (names : Names) (attr : String) (value : BoundValue) : String × Names :=
  let name := fresh (names.parameters.map Prod.fst) attr
  (name, { names with parameters := names.parameters ++ [(name, value)] })

/-! ## Nesting -/

def enter (names : Names) : Names := { names with depth := names.depth + 1 }

def leave (names : Names) : Names := { names with depth := names.depth - 1 }

end Names

end FilterQuery
