import FilterQuery.Calendar.Zoned
import FilterQuery.Escape
import FilterQuery.Operator
import FilterQuery.Value

set_option autoImplicit false

/-! # Literals

The text of a bare literal decides what it denotes: six shapes of digits and marks stand for
numbers, dates and times, and everything else is a string, `true` and `false` in any case being
booleans. A quoted literal is never one of the six shapes.

A literal of a shape can still be no value: `2023-02-30` has the shape of a date. -/

namespace FilterQuery

open FilterQuery.Text

/-- The shapes of bare literals. -/
inductive Shape where
  | number | dateTime | date | time | year | monthDay | string
  deriving DecidableEq, Repr

namespace Shape

/-- `-`? digits (`.` digits)? -/
def isNumber (cs : List Char) : Bool :=
  let unsigned := match cs with
    | '-' :: rest => rest
    | _ => cs
  match splitFirst '.' unsigned with
  | some (whole, fraction) => allDigits whole && allDigits fraction
  | none => allDigits unsigned

/-- `dddd-dd-dd` -/
def isDate (cs : List Char) : Bool :=
  cs.length == 10 && areDigits 4 (cs.take 4) && cs[4]? == some '-' &&
    areDigits 2 ((cs.drop 5).take 2) && cs[7]? == some '-' && areDigits 2 (cs.drop 8)

/-- A date, `T` and something behind it. -/
def isDateTime (cs : List Char) : Bool :=
  11 < cs.length && isDate (cs.take 10) && cs[10]? == some 'T'

/-- `dd:dd` or `dd:dd:dd`, the latter with a fraction or without. -/
def isTime (cs : List Char) : Bool :=
  match splitAll ':' cs with
  | [hours, minutes] => areDigits 2 hours && areDigits 2 minutes
  | [hours, minutes, seconds] =>
    let (whole, fraction) := (splitFirst '.' seconds).getD (seconds, ['0'])
    areDigits 2 hours && areDigits 2 minutes && areDigits 2 whole && allDigits fraction
  | _ => false

/-- `dddd-` or `dddd--` -/
def isYear (cs : List Char) : Bool :=
  areDigits 4 (cs.take 4) && (cs.drop 4 == ['-'] || cs.drop 4 == ['-', '-'])

/-- `dd-dd`, with two hyphens in front or none -/
def isMonthDay (cs : List Char) : Bool :=
  let body := match cs with
    | '-' :: '-' :: rest => rest
    | _ => cs
  body.length == 5 && areDigits 2 (body.take 2) && body[2]? == some '-' && areDigits 2 (body.drop 3)

/-- The shape of a bare literal. -/
def ofText (cs : List Char) : Shape :=
  if isNumber cs then .number
  else if isDateTime cs then .dateTime
  else if isDate cs then .date
  else if isTime cs then .time
  else if isYear cs then .year
  else if isMonthDay cs then .monthDay
  else .string

end Shape

/-- Why a literal is no value. -/
inductive LiteralError where
  | unknownValueType
  | dateTime (e : DateTimeError)
  deriving DecidableEq, Repr

namespace Literal

/-- A bare literal that is neither empty nor of another shape. -/
def readsAsString (cs : List Char) : Bool := !cs.isEmpty && Shape.ofText cs == .string

/-- A number with a point is a double; one without has to fit into 64 bits. -/
def number (cs : List Char) : Except LiteralError Value :=
  let (negative, unsigned) := match cs with
    | '-' :: rest => (true, rest)
    | _ => (false, cs)
  match splitFirst '.' unsigned with
  | some (whole, fraction) => .ok (.double (Binary64.ofDecimal negative whole fraction))
  | none =>
    let n : Int := if negative then -(ofDigits unsigned : Int) else ofDigits unsigned
    if Int64.minValue.toInt ≤ n ∧ n ≤ Int64.maxValue.toInt then .ok (.long (Int64.ofInt n))
    else .error .unknownValueType

/-- A string, or a boolean. Under `like` a string without wildcards is looked for anywhere. Letters
beyond ASCII never stand for those of `true` and `false`. -/
def stringOrBoolean (cs : List Char) (op : Operator) : Value :=
  let lower := cs.map lowerAscii
  if lower = ['t', 'r', 'u', 'e'] then .boolean true
  else if lower = ['f', 'a', 'l', 's', 'e'] then .boolean false
  else if op = .like then .string (String.ofList (Escape.containing (Escape.resolve cs)))
  else .string (String.ofList (Escape.resolve cs))

/-- A date-time with a zone or an offset is an instant. -/
def isZoned (cs : List Char) : Bool :=
  cs.getLast? == some 'Z' || cs.getLast? == some ']' || (cs.drop 11).any Instant.isSign

/-- The value or, without one, an invalid format. -/
def orInvalid (cs : List Char) (value : Option Value) : Except (Failure LiteralError) Value :=
  match value with
  | some v => .ok v
  | none => refuse (.dateTime (.invalidFormat (String.ofList cs)))

/-- The value of a literal under an operator. -/
def coerce (zones : Zone.Database) (cs : List Char) (quoted : Bool) (op : Operator) :
    Except (Failure LiteralError) Value :=
  match if quoted then .string else Shape.ofText cs with
  | .number => orRefuse id (number cs)
  | .string => .ok (stringOrBoolean cs op)
  | .dateTime =>
    if isZoned cs then
      match Instant.read Zone.utc cs zones with
      | .ok instant => .ok (.instant instant)
      | .error e => .error (e.map .dateTime)
    else orInvalid cs ((LocalDateTime.read? cs).map .dateTime)
  | .date => orInvalid cs ((Date.read? cs).map .date)
  | .time => orInvalid cs ((Time.read? cs).map .time)
  | .monthDay =>
    let body := cs.dropWhile (· == '-')
    orInvalid cs ((MonthDay.of? (ofDigits (body.take 2)) (ofDigits (body.drop 3))).map .monthDay)
  | .year => .ok (.year (ofDigits (cs.take 4)))

end Literal

end FilterQuery
