import FilterQuery.Operator
import FilterQuery.Query.Quote
import FilterQuery.Value

set_option autoImplicit false

/-! # Clauses

The restriction of a query as a tree, and its text. A path starts at the alias of an entity, so a
clause that holds a subquery declares the alias of the entity that it selects from. Every clause
that joins others stands in parentheses of its own. -/

namespace FilterQuery

open FilterQuery.Text

/-- An alias, or a path of attributes that starts at one. -/
structure Ref where
  aliasName : String
  path : List String
  deriving DecidableEq, Repr

namespace Ref

def text (r : Ref) : List Char := join ['.'] ((r.aliasName :: r.path).map String.toList)

/-- The path with one more attribute. -/
def member (r : Ref) (name : String) : Ref := { r with path := r.path ++ [name] }

end Ref

/-- How two things are compared in a query. -/
inductive Symbol where
  | eq | ne | gt | gte | lt | lte
  deriving DecidableEq, Repr

def Symbol.text : Symbol → List Char
  | .eq => ['=']
  | .ne => ['<', '>']
  | .gt => ['>']
  | .gte => ['>', '=']
  | .lt => ['<']
  | .lte => ['<', '=']

namespace Operator

/-- The symbol of an operator that compares two things. -/
def symbol? : Operator → Option Symbol
  | .eq => some .eq
  | .ne => some .ne
  | .gt => some .gt
  | .gte => some .gte
  | .lt => some .lt
  | .lte => some .lte
  | _ => none

/-- The symbols with which a row of components is ordered: the strict one decides on the earlier
components, the other one on the last. -/
def ordering? : Operator → Option (Symbol × Symbol)
  | .gt => some (.gt, .gt)
  | .gte => some (.gt, .gte)
  | .lt => some (.lt, .lt)
  | .lte => some (.lt, .lte)
  | _ => none

end Operator

/-- How texts are compared, without regard to case. -/
inductive TextSymbol where
  | symbol (s : Symbol)
  | like
  deriving DecidableEq, Repr

def TextSymbol.text : TextSymbol → List Char
  | .symbol s => s.text
  | .like => "LIKE".toList

/-- What stands behind a symbol. -/
inductive Operand where
  | quoted (cs : List Char)
  | numeral (cs : List Char)
  | parameter (name : String)
  | date (d : Date)
  | timestamp (dt : LocalDateTime)

def Operand.text : Operand → List Char
  | .quoted cs => FilterQuery.quoted cs
  | .numeral cs => cs
  | .parameter name => ':' :: name.toList
  | .date d => "CAST(".toList ++ FilterQuery.quoted d.text ++ " AS DATE)".toList
  | .timestamp dt => "CAST(".toList ++ FilterQuery.quoted dt.text ++ " AS TIMESTAMP)".toList

/-- A component of a date or time. -/
inductive Component where
  | year | month | day | hour | minute | second
  deriving DecidableEq, Repr

def Component.name : Component → String
  | .year => "YEAR"
  | .month => "MONTH"
  | .day => "DAY"
  | .hour => "HOUR"
  | .minute => "MINUTE"
  | .second => "SECOND"

inductive Clause where
  | null (ref : Ref)
  | notNull (ref : Ref)
  | compareText (ref : Ref) (symbol : TextSymbol) (literal : List Char)
  | compare (ref : Ref) (symbol : Symbol) (operand : Operand)
  | compareComponent (component : Component) (ref : Ref) (symbol : Symbol) (n : Int)
  | oneOf (ref : Ref) (items : List Operand)
  | noneOf (ref : Ref) (items : List Operand)
  | not (clause : Clause)
  | group (join : Connective) (clauses : List Clause)
  /-- The owner is among those that members of a collection under a restriction point back at. -/
  | members (owner back : Ref) (target : String) (restriction : Clause)
  /-- The owner is among those whose members of a collection, taken together, meet a bound. -/
  | totals (owner back : Ref) (target : String) (function : Aggregate) (aggregated : Ref)
    (symbol : Symbol) (bound : List Char)

namespace Clause

/-- What stands between the members of a group. -/
def joint : Connective → List Char
  | .and => " AND ".toList
  | .or => " OR ".toList

/-- A function call. -/
def call (function : String) (argument : List Char) : List Char :=
  function.toList ++ '(' :: argument ++ [')']

/-- Operands with commas between them, in parentheses. -/
def row (items : List Operand) : List Char :=
  '(' :: join [',', ' '] (items.map Operand.text) ++ [')']

/-- The head of a subquery. -/
def selection (back : Ref) (target : String) : List Char :=
  "SELECT ".toList ++ back.text ++ " FROM ".toList ++ target.toList ++ ' ' :: back.aliasName.toList

mutual

def text : Clause → List Char
  | .null ref => ref.text ++ " IS NULL".toList
  | .notNull ref => ref.text ++ " IS NOT NULL".toList
  | .compareText ref symbol literal =>
    call "LOWER" ref.text ++ ' ' :: symbol.text ++ ' ' :: call "LOWER" (quoted literal)
  | .compare ref symbol operand => ref.text ++ ' ' :: symbol.text ++ ' ' :: operand.text
  | .compareComponent component ref symbol n =>
    call component.name ref.text ++ ' ' :: symbol.text ++ ' ' :: intText n
  | .oneOf ref items => ref.text ++ " IN ".toList ++ row items
  | .noneOf ref items => ref.text ++ " NOT IN ".toList ++ row items
  | .not clause => "NOT ".toList ++ text clause
  | .group connective clauses => '(' :: textAll connective clauses ++ [')']
  | .members owner back target restriction =>
    owner.text ++ " IN (".toList ++ selection back target ++ " WHERE ".toList ++ text restriction ++
      [')']
  | .totals owner back target function aggregated symbol bound =>
    owner.text ++ " IN (".toList ++ selection back target ++ " GROUP BY ".toList ++ back.text ++
      " HAVING ".toList ++ call function.name aggregated.text ++ ' ' :: symbol.text ++
      ' ' :: bound ++ [')']

/-- The texts of all clauses in turn, joined. -/
def textAll (connective : Connective) : List Clause → List Char
  | [] => []
  | [clause] => text clause
  | clause :: rest => text clause ++ joint connective ++ textAll connective rest

end

/-! ## Rows of components

Dates and times are compared component by component: a later component matters only where the
earlier ones are equal. -/

/-- Every component equals its value. -/
def allEqual (ref : Ref) (row : List (Component × Nat)) : Clause :=
  .group .and (row.map fun (component, n) => .compareComponent component ref .eq n)

/-- Some component differs from its value. -/
def someDiffers (ref : Ref) (row : List (Component × Nat)) : Clause :=
  .group .or (row.map fun (component, n) => .compareComponent component ref .ne n)

/-- The row stands in the given order to the values. -/
def ordered (ref : Ref) (strict last : Symbol) : List (Component × Nat) → Clause
  | [] => .group .and []
  | [(component, n)] => .compareComponent component ref last n
  | (component, n) :: rest =>
    .group .or [.compareComponent component ref strict n,
      .group .and [.compareComponent component ref .eq n, ordered ref strict last rest]]

/-- The comparison of a row of components with their values. -/
def compareRow? (ref : Ref) (op : Operator) (row : List (Component × Nat)) : Option Clause :=
  match op with
  | .eq => some (allEqual ref row)
  | .ne => some (someDiffers ref row)
  | op => op.ordering?.map fun (strict, last) => ordered ref strict last row

end Clause

end FilterQuery
