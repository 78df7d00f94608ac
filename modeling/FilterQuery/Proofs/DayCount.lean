import FilterQuery.Calendar.Instant
import Mathlib.Tactic.IntervalCases
import Mathlib.Tactic.SplitIfs

set_option autoImplicit false

/-! # Counting days and seconds

A date is moved from day to day, over the ends of months and years, while an instant is compared by
the number of its seconds. Here the two are brought together: the next day has the next number
(`Date.toDays_next`), so a date-time that is shifted by some seconds has that many seconds more
(`LocalDateTime.toSeconds_shift`). A count that is not too large belongs to a year in range. -/

namespace FilterQuery

theorem isLeapYear_iff {year : Int} :
    isLeapYear year = true ↔ year % 4 = 0 ∧ (year % 100 ≠ 0 ∨ year % 400 = 0) := by
  simp [isLeapYear]

namespace Date

/-! ## Years that start in March -/

/-- Days in front of a year that starts in March. -/
def daysBefore (marchYear : Int) : Int :=
  marchYear / 400 * 146097 +
    (marchYear % 400 * 365 + marchYear % 400 / 4 - marchYear % 400 / 100)

/-- The leap day of a year ends the one that has started in the March before. -/
theorem daysBefore_eq (year : Int) :
    daysBefore year = daysBefore (year - 1) + if isLeapYear year then 366 else 365 := by
  unfold daysBefore
  split
  · next hleap =>
    rw [isLeapYear_iff] at hleap
    omega
  · next hleap =>
    rw [isLeapYear_iff] at hleap
    omega

theorem daysBefore_le {year year' : Int} (h : year ≤ year') :
    daysBefore year ≤ daysBefore year' := by
  unfold daysBefore
  omega

theorem daysOfFields_eq (year : Int) (month day : Nat) : daysOfFields year month day =
    daysBefore (if month ≤ 2 then year - 1 else year) +
      ((153 * ((month + 9) % 12) + 2) / 5 + day - 1 : Nat) - 719468 := by
  simp only [daysOfFields, daysBefore]
  omega

/-! ## Neighbouring days -/

/-- A month starts on the day after the last one of the month before. -/
theorem daysOfFields_nextMonth {year : Int} {month : Nat} (hpos : 1 ≤ month) (hlt : month < 12) :
    daysOfFields year (month + 1) 1 = daysOfFields year month (daysInMonth year month) + 1 := by
  have hyear := daysBefore_eq year
  simp only [daysOfFields_eq]
  interval_cases month
  all_goals
    simp only [daysInMonth]
    split_ifs at hyear ⊢ <;> omega

theorem daysOfFields_nextYear (year : Int) :
    daysOfFields (year + 1) 1 1 = daysOfFields year 12 31 + 1 := by
  simp only [daysOfFields_eq, Int.add_sub_cancel]
  split_ifs <;> omega

theorem toDays_next (d : Date) : d.next.toDays = d.toDays + 1 := by
  obtain ⟨year, month, day, hmonth, hmonth', hday, hday'⟩ := d
  unfold next
  split_ifs with hinside hmonths
  · simp only [toDays, daysOfFields_eq]
    omega
  · obtain rfl : day = daysInMonth year month := by simp only at hinside; omega
    exact daysOfFields_nextMonth hmonth hmonths
  · obtain rfl : month = 12 := by simp only at hmonths; omega
    obtain rfl : day = 31 := by simp only [daysInMonth] at hinside hday'; omega
    exact daysOfFields_nextYear year

theorem next_previous (d : Date) : d.previous.next = d := by
  obtain ⟨year, month, day, hmonth, hmonth', hday, hday'⟩ := d
  have hdecember : daysInMonth (year - 1) 12 = 31 := rfl
  unfold previous next
  split_ifs <;> grind

theorem toDays_previous (d : Date) : d.previous.toDays = d.toDays - 1 := by
  have h := d.previous.toDays_next
  rw [next_previous] at h
  omega

theorem toDays_repeat {step : Date → Date} {k : Int}
    (hstep : ∀ d, (step d).toDays = d.toDays + k) (n : Nat) (d : Date) :
    (n.repeat step d).toDays = d.toDays + n * k := by
  induction n with
  | zero => simp [Nat.repeat]
  | succ n ih =>
    rw [Nat.repeat, hstep, ih, Int.natCast_succ, Int.add_mul, Int.one_mul, Int.add_assoc]

theorem toDays_addDays (d : Date) (n : Int) : (d.addDays n).toDays = d.toDays + n := by
  cases n with
  | ofNat n =>
    rw [addDays, toDays_repeat toDays_next]
    simp
  | negSucc n =>
    rw [addDays, toDays_repeat (k := -1) toDays_previous]
    omega

/-! ## Years -/

/-- A day comes before the next year, and not before its own. -/
theorem toDays_bounds (d : Date) : daysBefore (d.year - 1) ≤ d.toDays + 719162 ∧
    d.toDays + 719162 < daysBefore d.year := by
  obtain ⟨year, month, day, hmonth, hmonth', hday, hday'⟩ := d
  have hyear := daysBefore_eq year
  simp only [toDays, daysOfFields_eq]
  interval_cases month
  all_goals
    simp only [daysInMonth] at hday'
    split_ifs at hyear hday' ⊢ <;> omega

/-- About 260000 years before 1970 and behind it are in range. -/
theorem inRange_of_toDays {d : Date} (hlow : -95000000 ≤ d.toDays) (hhigh : d.toDays ≤ 95000000) :
    d.inRange = true := by
  obtain ⟨hfirst, hlast⟩ := d.toDays_bounds
  have hmin : daysBefore (minYear - 1) = -95746130 := by decide
  have hmax : daysBefore maxYear = 95745399 := by decide
  simp only [inRange, Bool.and_eq_true, decide_eq_true_eq]
  constructor
  · by_contra hyear
    have hle := daysBefore_le (show d.year ≤ minYear - 1 by omega)
    omega
  · by_contra hyear
    have hle := daysBefore_le (show maxYear ≤ d.year - 1 by omega)
    omega

/-- The days of the years 0000 to 9999. -/
theorem toDays_of_year {d : Date} (hlow : 0 ≤ d.year) (hhigh : d.year ≤ 9999) :
    -719528 ≤ d.toDays ∧ d.toDays < 2932897 := by
  obtain ⟨hfirst, hlast⟩ := d.toDays_bounds
  have hmin := daysBefore_le (show -1 ≤ d.year - 1 by omega)
  have hmax := daysBefore_le hhigh
  have hmin' : daysBefore (-1) = -366 := by decide
  have hmax' : daysBefore 9999 = 3652059 := by decide
  omega

end Date

/-! ## Seconds -/

theorem Time.secondOfDay_lt (t : Time) : t.secondOfDay < secondsPerDay := by
  have hhour := t.hour_lt
  have hminute := t.minute_lt
  have hsecond := t.second_lt
  simp only [secondOfDay, secondsPerDay]
  omega

theorem Time.secondOfDay_ofSecondOfDay {seconds nano : Nat} (h : nano < 2 * nanosPerSecond)
    (hlt : seconds < secondsPerDay) : (ofSecondOfDay seconds nano h).secondOfDay = seconds := by
  simp only [secondOfDay, ofSecondOfDay, secondsPerDay] at hlt ⊢
  omega

namespace LocalDateTime

/-- A shift by some seconds changes the count of seconds by as much. -/
theorem toSeconds_shift (dt : LocalDateTime) (seconds : Int) :
    (dt.shift seconds).toSeconds = dt.toSeconds + seconds := by
  have hlt : ((dt.time.secondOfDay + seconds) % secondsPerDay).toNat < secondsPerDay := by
    simp only [secondsPerDay]
    omega
  simp only [toSeconds, shift, Date.toDays_addDays, Time.secondOfDay_ofSecondOfDay _ hlt]
  simp only [secondsPerDay]
  omega

theorem toDays_eq_div (dt : LocalDateTime) : dt.date.toDays = dt.toSeconds / secondsPerDay := by
  have hlt := dt.time.secondOfDay_lt
  simp only [toSeconds, secondsPerDay] at hlt ⊢
  omega

/-- About 250000 years before 1970 and behind it are in range. -/
theorem inRange_of_toSeconds {dt : LocalDateTime} (hlow : -8000000000000 ≤ dt.toSeconds)
    (hhigh : dt.toSeconds ≤ 8000000000000) : dt.inRange = true := by
  have hdays := dt.toDays_eq_div
  simp only [secondsPerDay] at hdays
  exact Date.inRange_of_toDays (by omega) (by omega)

/-- The seconds of the years 0000 to 9999. -/
theorem toSeconds_of_year {dt : LocalDateTime} (hlow : 0 ≤ dt.date.year)
    (hhigh : dt.date.year ≤ 9999) :
    -62167219200 ≤ dt.toSeconds ∧ dt.toSeconds < 253402300800 := by
  obtain ⟨hmin, hmax⟩ := Date.toDays_of_year hlow hhigh
  have hdays := dt.toDays_eq_div
  simp only [secondsPerDay] at hdays
  omega

/-! ## Later date-times -/

/-- So many seconds later on the clock. A leap second counts as the second it follows, and its
fraction stays. -/
def later (dt : LocalDateTime) (seconds : Int) : LocalDateTime :=
  let time := dt.time
  let plain : Time := { time with
    nano := time.nano % nanosPerSecond
    nano_lt := Nat.lt_of_le_of_lt (Nat.mod_le _ _) time.nano_lt }
  shift { dt with time := plain } seconds

theorem toSeconds_later (dt : LocalDateTime) (seconds : Int) :
    (dt.later seconds).toSeconds = dt.toSeconds + seconds :=
  toSeconds_shift _ seconds

theorem plusHour?_eq (dt : LocalDateTime) :
    dt.plusHour? = if (dt.later 3600).inRange then some (dt.later 3600) else none := rfl

/-- An hour more than a date-time that is in range by far is in range. -/
theorem plusHour?_of_toSeconds {dt : LocalDateTime} (hlow : -7000000000000 ≤ dt.toSeconds)
    (hhigh : dt.toSeconds ≤ 7000000000000) : dt.plusHour? = some (dt.later 3600) := by
  have hlater := dt.toSeconds_later 3600
  rw [plusHour?_eq, if_pos (inRange_of_toSeconds (by omega) (by omega))]

end LocalDateTime

end FilterQuery
