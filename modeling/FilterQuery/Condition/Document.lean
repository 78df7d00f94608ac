import FilterQuery.Condition
import FilterQuery.Json

set_option autoImplicit false

/-! # Conditions as documents

The structured form in which the service shows values and conditions to its callers. -/

namespace FilterQuery

/-- The name of an operator. -/
def Operator.name : Operator → String
  | .eq => "EQ"
  | .ne => "NE"
  | .gt => "GT"
  | .gte => "GTE"
  | .lt => "LT"
  | .lte => "LTE"
  | .like => "LIKE"
  | .and => "AND"
  | .or => "OR"
  | .not => "NOT"
  | .oneOf => "IN"
  | .noneOf => "NIN"
  | .null => "NULL"
  | .notNull => "NNULL"

def MonthDay.toJson (md : MonthDay) : Json :=
  .object [("month", .int md.month), ("day", .int md.day)]

/-- A value with its kind. Doubles that are no finite numbers have no form of their own. -/
def Value.toJson : Value → Json
  | .string s => .tagged "string" (.string s)
  | .long n => .tagged "long" (.int n.toInt)
  | .double x => .tagged "double" (if x.isFinite then .double x else .null)
  | .boolean b => .tagged "boolean" (.bool b)
  | .date d => .tagged "date" (.text d.text)
  | .time t => .tagged "time" (.text t.text)
  | .dateTime dt => .tagged "dateTime" (.text dt.text)
  | .monthDay md => .tagged "monthDay" md.toJson
  | .year y => .tagged "year" (.int y)
  | .instant i => .tagged "utcInstant" (.text i.text)

namespace Condition

/-- A field and a list of values. -/
def listDocument (field : String) (values : List Value) : Json :=
  .object [("field", .string field), ("values", .array (values.map Value.toJson))]

mutual

/-- An object with one member, named for the kind of condition. -/
def toJson : Condition → Json
  | .simple field op value =>
    .object [("simple", .object [("field", .string field), ("operator", .string op.name),
      ("value", (value.map Value.toJson).getD .null)])]
  | .oneOf field values => .object [("inList", listDocument field values)]
  | .noneOf field values => .object [("notInList", listDocument field values)]
  | .not c => .object [("not", .object [("condition", toJson c)])]
  | .group join first second more =>
    .object [("group", .object [("operator", .string join.operator.name),
      ("conditions", .array (toJson first :: toJson second :: toJsonAll more))])]
  | .having field sub =>
    .object [("having", .object [("field", .string field), ("sub_filter", toJson sub)])]
  | .aggregate field function op bound =>
    .object [("havingFunction", .object [("field", .string field),
      ("function", .string function.name), ("operator", .string op.name),
      ("value", bound.toJson)])]

/-- The documents of all conditions in turn. -/
def toJsonAll : List Condition → List Json
  | [] => []
  | c :: cs => toJson c :: toJsonAll cs

end

end Condition

end FilterQuery
