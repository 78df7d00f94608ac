import FilterQuery.Text.Ascii

set_option autoImplicit false

/-! # Calendar dates

Dates of the Gregorian calendar, extended backwards over its introduction, with a year zero. A
`Date` is always an existing day; how far the years may go is a question of the reader, which
accepts the years `minYear` to `maxYear`. -/

namespace FilterQuery

def isLeapYear (year : Int) : Bool :=
  year % 4 == 0 && (year % 100 != 0 || year % 400 == 0)

def daysInMonth (year : Int) (month : Nat) : Nat :=
  match month with
  | 2 => if isLeapYear year then 29 else 28
  | 4 | 6 | 9 | 11 => 30
  | _ => 31

/-- A day of the calendar. -/
structure Date where
  year : Int
  month : Nat
  day : Nat
  month_pos : 1 ≤ month
  month_le : month ≤ 12
  day_pos : 1 ≤ day
  day_le : day ≤ daysInMonth year month
  deriving DecidableEq

namespace Date

/-- The first year that a date-time may have. -/
def minYear : Int := -262143

/-- The last year that a date-time may have. -/
def maxYear : Int := 262142

/-- The date of a year, month and day, if there is such a day. -/
def of? (year : Int) (month day : Nat) : Option Date :=
  if h : (1 ≤ month ∧ month ≤ 12) ∧ 1 ≤ day ∧ day ≤ daysInMonth year month then
    some ⟨year, month, day, h.1.1, h.1.2, h.2.1, h.2.2⟩
  else none

/-- The year lies in the range of representable date-times. -/
def inRange (d : Date) : Bool := minYear ≤ d.year && d.year ≤ maxYear

theorem one_le_daysInMonth (year : Int) (month : Nat) : 1 ≤ daysInMonth year month := by
  unfold daysInMonth
  split
  · split <;> omega
  all_goals omega

/-! ## Neighbouring days -/

/-- The next day. -/
def next (d : Date) : Date :=
  if h : d.day < daysInMonth d.year d.month then
    ⟨d.year, d.month, d.day + 1, d.month_pos, d.month_le, by omega, h⟩
  else if h' : d.month < 12 then
    ⟨d.year, d.month + 1, 1, by omega, h', by omega, one_le_daysInMonth _ _⟩
  else ⟨d.year + 1, 1, 1, by omega, by omega, by omega, one_le_daysInMonth _ _⟩

/-- The day before. -/
def previous (d : Date) : Date :=
  if h : 1 < d.day then
    ⟨d.year, d.month, d.day - 1, d.month_pos, d.month_le, by omega, by have := d.day_le; omega⟩
  else if h' : 1 < d.month then
    ⟨d.year, d.month - 1, daysInMonth d.year (d.month - 1), by omega, by have := d.month_le; omega,
      one_le_daysInMonth _ _, Nat.le_refl _⟩
  else ⟨d.year - 1, 12, 31, by omega, by omega, by omega, by simp [daysInMonth]⟩

/-- The day `n` days later, or earlier for a negative `n`. -/
def addDays (d : Date) : Int → Date
  | .ofNat n => n.repeat next d
  | .negSucc n => (n + 1).repeat previous d

@[simp] theorem addDays_zero (d : Date) : d.addDays 0 = d := rfl

/-! ## Counting days -/

/-- Days from 1970-01-01. The year is taken to start in March, so that the leap day is its last day;
400 years have 146097 days. -/
def daysOfFields (year : Int) (month day : Nat) : Int :=
  let marchYear := if month ≤ 2 then year - 1 else year
  let era := marchYear / 400
  let yearOfEra := marchYear % 400
  let dayOfYear := (153 * ((month + 9) % 12) + 2) / 5 + day - 1
  let dayOfEra := yearOfEra * 365 + yearOfEra / 4 - yearOfEra / 100 + dayOfYear
  era * 146097 + dayOfEra - 719468

/-- Days from 1970-01-01. -/
def toDays (d : Date) : Int := daysOfFields d.year d.month d.day

/-- Day, month and year of a count of days from 1970-01-01. -/
def fieldsOfDays (days : Int) : Int × Nat × Nat :=
  let shifted := days + 719468
  let era := shifted / 146097
  let dayOfEra := (shifted % 146097).toNat
  let yearOfEra := (dayOfEra - dayOfEra / 1460 + dayOfEra / 36524 - dayOfEra / 146096) / 365
  let dayOfYear := dayOfEra - (365 * yearOfEra + yearOfEra / 4 - yearOfEra / 100)
  let marchMonth := (5 * dayOfYear + 2) / 153
  let day := dayOfYear - (153 * marchMonth + 2) / 5 + 1
  let month := if marchMonth < 10 then marchMonth + 3 else marchMonth - 9
  (era * 400 + yearOfEra + (if month ≤ 2 then 1 else 0), month, day)

/-- The date of a count of days from 1970-01-01. -/
def ofDays? (days : Int) : Option Date :=
  let (year, month, day) := fieldsOfDays days
  of? year month day

/-! ## Text -/

/-- A year of four digits; one before zero or beyond 9999 has its sign in front. -/
def yearText (year : Int) : List Char :=
  if 0 ≤ year && year ≤ 9999 then Text.padded 4 year.toNat
  else (if year < 0 then '-' else '+') :: Text.padded 4 year.natAbs

/-- `YYYY-MM-DD`. -/
def text (d : Date) : List Char :=
  yearText d.year ++ '-' :: (Text.padded 2 d.month ++ '-' :: Text.padded 2 d.day)

end Date

/-- A month and a day that recurs; the leap day is one of them. -/
structure MonthDay where
  month : Nat
  day : Nat
  month_pos : 1 ≤ month
  month_le : month ≤ 12
  day_pos : 1 ≤ day
  day_le : day ≤ daysInMonth 0 month
  deriving DecidableEq

namespace MonthDay

/-- The month and day, if some year has such a day. -/
def of? (month day : Nat) : Option MonthDay :=
  if h : (1 ≤ month ∧ month ≤ 12) ∧ 1 ≤ day ∧ day ≤ daysInMonth 0 month then
    some ⟨month, day, h.1.1, h.1.2, h.2.1, h.2.2⟩
  else none

/-- `--MM-DD`. -/
def text (md : MonthDay) : List Char :=
  '-' :: '-' :: (Text.padded 2 md.month ++ '-' :: Text.padded 2 md.day)

end MonthDay

end FilterQuery
