import FilterQuery.Operator
import FilterQuery.Value

set_option autoImplicit false

/-! # Conditions

A filter denotes a tree of conditions on the fields of an entity. Leaves compare one field with a
value or a list; inner nodes negate, join, or ask something of the members of a to-many
relationship. A group joins two conditions or more, which its shape guarantees. -/

namespace FilterQuery

inductive Condition where
  /-- A field under an operator, with the value the operator needs, if it needs one. -/
  | simple (field : String) (op : Operator) (value : Option Value)
  | oneOf (field : String) (values : List Value)
  | noneOf (field : String) (values : List Value)
  | not (condition : Condition)
  | group (join : Connective) (first second : Condition) (more : List Condition)
  /-- Some member of the relationship satisfies the condition. -/
  | having (field : String) (sub : Condition)
  /-- A function over the members of the relationship, compared with a bound. -/
  | aggregate (field : String) (function : Aggregate) (op : Operator) (bound : Value)

namespace Condition

/-- Join conditions into a group; there is no group of fewer than two. -/
def join? (join : Connective) : List Condition → Option Condition
  | first :: second :: more => some (.group join first second more)
  | _ => none

/-! ## Equality -/

/-- Lists of values that are equal member by member. -/
def sameValues : List Value → List Value → Bool
  | [], [] => true
  | v :: vs, w :: ws => v.same w && sameValues vs ws
  | _, _ => false

/-- Optional values that are both missing or equal. -/
def sameValue? : Option Value → Option Value → Bool
  | none, none => true
  | some v, some w => v.same w
  | _, _ => false

mutual

/-- Equality of conditions, in which doubles are equal as numbers. -/
def same : Condition → Condition → Bool
  | .simple f op v, .simple g oq w => f == g && op == oq && sameValue? v w
  | .oneOf f vs, .oneOf g ws => f == g && sameValues vs ws
  | .noneOf f vs, .noneOf g ws => f == g && sameValues vs ws
  | .not c, .not d => same c d
  | .group j a b cs, .group k d e fs => j == k && same a d && same b e && sameAll cs fs
  | .having f c, .having g d => f == g && same c d
  | .aggregate f a op v, .aggregate g b oq w => f == g && a == b && op == oq && v.same w
  | _, _ => false

/-- `same` member by member. -/
def sameAll : List Condition → List Condition → Bool
  | [], [] => true
  | c :: cs, d :: ds => same c d && sameAll cs ds
  | _, _ => false

end

/-! ## Walks -/

mutual

/-- The fields of the simple conditions that stand in groups only, from left to right. -/
def comparedFields : Condition → List String
  | .simple field _ _ => [field]
  | .group _ first second more =>
    comparedFields first ++ comparedFields second ++ comparedFieldsAll more
  | _ => []

/-- `comparedFields` of all conditions in turn. -/
def comparedFieldsAll : List Condition → List String
  | [] => []
  | c :: cs => comparedFields c ++ comparedFieldsAll cs

end

/-- The conditions that a filter of having conditions must not have outside of them. -/
inductive Restricted where
  | simple | oneOf | noneOf | not
  deriving DecidableEq, Repr

def Restricted.message : Restricted → String
  | .simple => "Simple condition not allowed"
  | .oneOf => "InList condition not allowed"
  | .noneOf => "NotInList condition not allowed"
  | .not => "Not condition not allowed"

mutual

/-- The first condition, from left to right, that is neither a having condition nor a group of such.
-/
def restricted? : Condition → Option Restricted
  | .simple .. => some .simple
  | .oneOf .. => some .oneOf
  | .noneOf .. => some .noneOf
  | .not _ => some .not
  | .group _ first second more =>
    (restricted? first).or ((restricted? second).or (restrictedAll? more))
  | .having .. => none
  | .aggregate .. => none

/-- `restricted?` of the first condition that has one. -/
def restrictedAll? : List Condition → Option Restricted
  | [] => none
  | c :: cs => (restricted? c).or (restrictedAll? cs)

end

end Condition

end FilterQuery
