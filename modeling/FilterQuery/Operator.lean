import FilterQuery.Text.Ascii

set_option autoImplicit false

/-! # Operators and aggregate functions

A predicate names its operator by a token such as `$eq:`. Fourteen operators have a token; the six
comparisons among them may also bound an aggregate function. -/

namespace FilterQuery

/-- The operators of the filter language. -/
inductive Operator where
  | eq | ne | gt | gte | lt | lte | like
  | and | or | not
  | oneOf | noneOf
  | null | notNull
  deriving DecidableEq, Repr

namespace Operator

def all : List Operator :=
  [.eq, .ne, .gt, .gte, .lt, .lte, .like, .and, .or, .not, .oneOf, .noneOf, .null, .notNull]

/-- The token that stands for the operator. -/
def token : Operator → String
  | .eq => "$eq:"
  | .ne => "$ne:"
  | .gt => "$gt:"
  | .gte => "$gte:"
  | .lt => "$lt:"
  | .lte => "$lte:"
  | .like => "$like:"
  | .and => "$and:"
  | .or => "$or:"
  | .not => "$not:"
  | .oneOf => "$in:"
  | .noneOf => "$nin:"
  | .null => "$null:"
  | .notNull => "$nnull:"

/-- The operator of a token. Tokens match exactly, in small letters. -/
def ofToken? (text : String) : Option Operator := all.find? fun op => op.token == text

/-- The operators that compare a field with one value by equality or order. -/
def isComparison : Operator → Bool
  | .eq | .ne | .gt | .gte | .lt | .lte => true
  | _ => false

theorem ofToken?_token (op : Operator) : ofToken? op.token = some op := by
  cases op <;> decide

end Operator

/-- The two ways to join conditions into a group. -/
inductive Connective where
  | and | or
  deriving DecidableEq, Repr

def Connective.operator : Connective → Operator
  | .and => .and
  | .or => .or

/-- Functions over the members of a to-many relationship. -/
inductive Aggregate where
  | count | sum | avg | min | max
  deriving DecidableEq, Repr

namespace Aggregate

def all : List Aggregate := [.count, .sum, .avg, .min, .max]

def name : Aggregate → String
  | .count => "COUNT"
  | .sum => "SUM"
  | .avg => "AVG"
  | .min => "MIN"
  | .max => "MAX"

/-- The function of a name; ASCII letters match in either case. -/
def ofName? (name : String) : Option Aggregate :=
  all.find? fun f => f.name.toList.map Text.lowerAscii == name.toList.map Text.lowerAscii

theorem ofName?_name (f : Aggregate) : ofName? f.name = some f := by
  cases f <;> decide

end Aggregate

end FilterQuery
