import FilterQuery.Calendar.Instant
import FilterQuery.Number.Decimal

set_option autoImplicit false

/-! # Values

The typed values that a literal can denote, and the text of each. The text of a value other than a
string is written so that it reads back as a value of the same kind. -/

namespace FilterQuery

inductive Value where
  | string (s : String)
  | long (n : Int64)
  | double (x : Binary64)
  | boolean (b : Bool)
  | date (d : Date)
  | time (t : Time)
  | dateTime (dt : LocalDateTime)
  | monthDay (md : MonthDay)
  | year (y : Int)
  | instant (i : Instant)
  deriving DecidableEq

/-- Decimal digits with a minus sign if there is need of one. -/
def intText (n : Int) : List Char :=
  if n < 0 then '-' :: Text.natDigits n.natAbs else Text.natDigits n.natAbs

namespace Value

def isNumeric : Value → Bool
  | .long _ | .double _ => true
  | _ => false

/-- The name of the kind of value. -/
def kind : Value → String
  | .string _ => "String"
  | .long _ => "Long"
  | .double _ => "Double"
  | .boolean _ => "Boolean"
  | .date _ => "Date"
  | .time _ => "Time"
  | .dateTime _ => "DateTime"
  | .monthDay _ => "MonthDay"
  | .year _ => "Year"
  | .instant _ => "UtcInstant"

/-- A year of four characters at least, a sign being one of them, and two hyphens. -/
def yearText (y : Int) : List Char :=
  (if y < 0 then '-' :: Text.padded 3 y.natAbs else Text.padded 4 y.natAbs) ++ ['-', '-']

def text : Value → List Char
  | .string s => s.toList
  | .long n => intText n.toInt
  | .double x => x.text
  | .boolean b => if b then ['t', 'r', 'u', 'e'] else ['f', 'a', 'l', 's', 'e']
  | .date d => d.text
  | .time t => t.text
  | .dateTime dt => dt.text
  | .monthDay md => md.text
  | .year y => yearText y
  | .instant i => i.text

/-- Equality of values. Doubles are equal as numbers, everything else by its fields. -/
def same : Value → Value → Bool
  | .double x, .double y => x.numEq y
  | v, w => decide (v = w)

end Value

end FilterQuery
