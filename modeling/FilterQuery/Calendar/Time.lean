import FilterQuery.Calendar.Date

set_option autoImplicit false

/-! # Times of day and local date-times

A time has hours, minutes, seconds and nanoseconds. A leap second is the second before it with at
least 10⁹ nanoseconds, so it can follow any minute; its text shows second 60. Shifting a date-time
by an offset keeps the nanoseconds, and with them the leap second. -/

namespace FilterQuery

/-- Nanoseconds of a second. -/
def nanosPerSecond : Nat := 1000000000

def secondsPerDay : Nat := 86400

structure Time where
  hour : Nat
  minute : Nat
  second : Nat
  nano : Nat
  hour_lt : hour < 24
  minute_lt : minute < 60
  second_lt : second < 60
  nano_lt : nano < 2 * nanosPerSecond
  deriving DecidableEq

namespace Time

/-- The time with these fields, if they are in range. -/
def of? (hour minute second nano : Nat) : Option Time :=
  if h : (hour < 24 ∧ minute < 60) ∧ second < 60 ∧ nano < 2 * nanosPerSecond then
    some ⟨hour, minute, second, nano, h.1.1, h.1.2, h.2.1, h.2.2⟩
  else none

/-- The time of a clock reading, in which second 60 is a leap second. -/
def ofClock? (hour minute second nano : Nat) : Option Time :=
  if nano < nanosPerSecond then
    if second = 60 then of? hour minute 59 (nano + nanosPerSecond)
    else of? hour minute second nano
  else none

/-- Seconds since midnight. -/
def secondOfDay (t : Time) : Nat := 3600 * t.hour + 60 * t.minute + t.second

/-- The time so many seconds after midnight; whole days do not count. -/
def ofSecondOfDay (seconds : Nat) (nano : Nat) (h : nano < 2 * nanosPerSecond) : Time where
  hour := seconds / 3600 % 24
  minute := seconds / 60 % 60
  second := seconds % 60
  nano := nano
  hour_lt := Nat.mod_lt _ (by omega)
  minute_lt := Nat.mod_lt _ (by omega)
  second_lt := Nat.mod_lt _ (by omega)
  nano_lt := h

@[simp] theorem ofSecondOfDay_secondOfDay (t : Time) :
    ofSecondOfDay t.secondOfDay t.nano t.nano_lt = t := by
  obtain ⟨hour, minute, second, nano, h₁, h₂, h₃, h₄⟩ := t
  simp only [ofSecondOfDay, secondOfDay, Time.mk.injEq, and_true]
  omega

/-- The fraction of a second: nothing, or the fewest of three, six or nine digits that are exact. -/
def fractionText (nano : Nat) : List Char :=
  if nano = 0 then []
  else if nano % 1000000 = 0 then '.' :: Text.padded 3 (nano / 1000000)
  else if nano % 1000 = 0 then '.' :: Text.padded 6 (nano / 1000)
  else '.' :: Text.padded 9 nano

/-- `HH:MM:SS` and the fraction. -/
def text (t : Time) : List Char :=
  Text.padded 2 t.hour ++ ':' :: (Text.padded 2 t.minute ++ ':' ::
    (Text.padded 2 (t.second + t.nano / nanosPerSecond) ++ fractionText (t.nano % nanosPerSecond)))

end Time

/-- A date and a time of day, in no particular zone. -/
structure LocalDateTime where
  date : Date
  time : Time
  deriving DecidableEq

namespace LocalDateTime

/-- Seconds since 1970-01-01T00:00:00, as if the date-time were in UTC. -/
def toSeconds (dt : LocalDateTime) : Int := dt.date.toDays * secondsPerDay + dt.time.secondOfDay

/-- The date-time so many seconds later; the nanoseconds stay. -/
def shift (dt : LocalDateTime) (seconds : Int) : LocalDateTime :=
  let total := dt.time.secondOfDay + seconds
  { date := dt.date.addDays (total / secondsPerDay)
    time := Time.ofSecondOfDay (total % secondsPerDay).toNat dt.time.nano dt.time.nano_lt }

def inRange (dt : LocalDateTime) : Bool := dt.date.inRange

/-- One hour later on the clock. A leap second counts as the second it follows, and its fraction
stays. There is no result beyond the range of years. -/
def plusHour? (dt : LocalDateTime) : Option LocalDateTime :=
  let time := dt.time
  let plain : Time := { time with
    nano := time.nano % nanosPerSecond
    nano_lt := by
      have : time.nano % nanosPerSecond < nanosPerSecond := Nat.mod_lt _ (by decide)
      omega }
  let later := shift { dt with time := plain } 3600
  if later.inRange then some later else none

/-- `YYYY-MM-DDTHH:MM:SS` and the fraction. -/
def text (dt : LocalDateTime) : List Char := dt.date.text ++ 'T' :: dt.time.text

/-- A shift by nothing changes nothing. -/
@[simp] theorem shift_zero (dt : LocalDateTime) : dt.shift 0 = dt := by
  obtain ⟨date, time⟩ := dt
  have hlt : time.secondOfDay < secondsPerDay := by
    have h₁ := time.hour_lt
    have h₂ := time.minute_lt
    have h₃ := time.second_lt
    simp only [Time.secondOfDay, secondsPerDay]
    omega
  have hdiv : (time.secondOfDay + (0 : Int)) / (secondsPerDay : Int) = 0 := by
    simp only [secondsPerDay] at hlt ⊢; omega
  have hmod :
      ((time.secondOfDay + (0 : Int)) % (secondsPerDay : Int)).toNat = time.secondOfDay := by
    simp only [secondsPerDay] at hlt ⊢; omega
  simp only [shift, hdiv, hmod, Date.addDays_zero, Time.ofSecondOfDay_secondOfDay]

end LocalDateTime

end FilterQuery
