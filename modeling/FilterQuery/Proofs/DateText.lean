import FilterQuery.Calendar.Reading
import FilterQuery.Proofs.Digits
import Mathlib.Data.List.TakeWhile

set_option autoImplicit false

/-! # The texts of dates and times read back

Dates and times are written with every field at its full width, so each reader takes exactly one
field and leaves the rest.

One thing is lost on the way. A leap second is shown as second 60 at the end of a minute, and as the
second behind it anywhere else. `Time.shown` is the time that the text of a time shows. -/

namespace FilterQuery

open FilterQuery.Text

/-! ## What is shown of a leap second -/

namespace Time

/-- A leap second ends its minute, if there is one. -/
def leapEndsMinute (t : Time) : Bool := t.nano < nanosPerSecond || t.second == 59

/-- The time that the text of a time shows. -/
def shown (t : Time) : Time :=
  if h : t.leapEndsMinute then t
  else
    { t with
      second := t.second + 1
      nano := t.nano - nanosPerSecond
      second_lt := by
        have := t.second_lt
        simp only [leapEndsMinute, Bool.or_eq_true, not_or, beq_iff_eq] at h
        omega
      nano_lt := by
        have := t.nano_lt
        omega }

theorem shown_eq_self_iff (t : Time) : t.shown = t ↔ t.leapEndsMinute = true := by
  unfold shown
  split
  · next h => exact ⟨fun _ => h, fun _ => rfl⟩
  · next h =>
    refine ⟨fun heq => ?_, fun htrue => absurd htrue h⟩
    have hsecond := congrArg Time.second heq
    simp only at hsecond
    omega

theorem of?_self (t : Time) : of? t.hour t.minute t.second t.nano = some t :=
  dif_pos ⟨⟨t.hour_lt, t.minute_lt⟩, t.second_lt, t.nano_lt⟩

/-- The clock shows second 60 for a leap second that ends its minute. -/
theorem ofClock?_shown (t : Time) :
    ofClock? t.hour t.minute (t.second + t.nano / nanosPerSecond) (t.nano % nanosPerSecond) =
      some t.shown := by
  have hpos : 0 < nanosPerSecond := by decide
  have hsecond := t.second_lt
  have hnano := t.nano_lt
  rw [ofClock?, if_pos (Nat.mod_lt _ hpos)]
  by_cases hleap : t.nano < nanosPerSecond
  · have hshown : t.shown = t := t.shown_eq_self_iff.2 (by simp [leapEndsMinute, hleap])
    rw [Nat.div_eq_of_lt hleap, Nat.mod_eq_of_lt hleap, Nat.add_zero, if_neg (by omega), hshown]
    exact of?_self t
  · have hdiv : t.nano / nanosPerSecond = 1 :=
      Nat.div_eq_of_lt_le (by omega) (by omega)
    have hmod : t.nano % nanosPerSecond = t.nano - nanosPerSecond := by
      rw [Nat.mod_eq_sub_mod (by omega), Nat.mod_eq_of_lt (by omega)]
    rw [hdiv, hmod]
    by_cases hend : t.second = 59
    · have hshown : t.shown = t := t.shown_eq_self_iff.2 (by simp [leapEndsMinute, hend])
      rw [hend, if_pos rfl, Nat.sub_add_cancel (by omega), hshown, ← hend]
      exact of?_self t
    · have hends : ¬t.leapEndsMinute = true := by simp [leapEndsMinute, hleap, hend]
      rw [if_neg (by omega), ← of?_self t.shown]
      simp [shown, hends]

end Time

/-! ## Fields of full width -/

namespace Reading

variable {n width : Nat} {c : Char} {rest : List Char}

theorem digits?_padded (hwidth : 0 < width) (hn : n < 10 ^ width) :
    digits? width (padded width n ++ rest) = some (n, rest) := by
  have hlength := length_padded hwidth hn
  have htake : ((padded width n ++ rest).take width).takeWhile isDigit = padded width n := by
    rw [List.take_append_of_le_length (by omega), List.take_of_length_le (by omega)]
    exact List.takeWhile_eq_self_iff.2 fun c hc => isDigit_of_mem_padded hc
  have hne : (padded width n).isEmpty = false := by
    rw [List.isEmpty_eq_false_iff_exists_mem, ← List.length_pos_iff_exists_mem]
    omega
  simp only [digits?, htake, hne, ofDigits_padded, Bool.false_eq_true, if_false]
  rw [List.drop_left]

theorem exactDigits?_padded (hwidth : 0 < width) (hn : n < 10 ^ width) :
    exactDigits? width (padded width n ++ rest) = some (n, rest) := by
  have hlength := length_padded hwidth hn
  have htake : (padded width n ++ rest).take width = padded width n := by
    rw [List.take_append_of_le_length (by omega), List.take_of_length_le (by omega)]
  have hdrop : (padded width n ++ rest).drop width = rest := by
    rw [List.drop_append_of_le_length (by omega), List.drop_of_length_le (by omega)]
    rfl
  simp [exactDigits?, htake, hdrop, areDigits_padded hwidth hn, ofDigits_padded]

@[simp] theorem mark?_cons : mark? c (c :: rest) = some rest := if_pos rfl

/-- The first character of a number is a digit. -/
theorem exists_padded_eq_cons (hwidth : 0 < width) (hn : n < 10 ^ width) :
    ∃ c cs, padded width n = c :: cs ∧ isDigit c = true := by
  have hlength := length_padded hwidth hn
  obtain ⟨c, cs, heq⟩ := List.exists_cons_of_length_pos (by omega : 0 < (padded width n).length)
  exact ⟨c, cs, heq, isDigit_of_mem_padded (heq ▸ List.mem_cons_self)⟩

theorem trimStart_padded (hwidth : 0 < width) (hn : n < 10 ^ width) :
    trimStart (padded width n ++ rest) = padded width n ++ rest := by
  obtain ⟨c, cs, heq, hc⟩ := exists_padded_eq_cons hwidth hn
  simp [heq, trimStart, not_isBlank_of_isDigit hc]

theorem field?_padded (hn : n < 100) : field? (padded 2 n ++ rest) = some (n, rest) := by
  rw [field?, trimStart_padded (by decide) hn]
  exact digits?_padded (by decide) hn

theorem year?_padded (hn : n < 10000) :
    year? (padded 4 n ++ rest) = some ((n : Int), rest) := by
  have hread : digits? 4 (padded 4 n ++ rest) = some (n, rest) := digits?_padded (by decide) hn
  obtain ⟨c, cs, heq, hc⟩ := exists_padded_eq_cons (by decide : 0 < 4) hn
  rw [year?, trimStart_padded (by decide) hn]
  split
  · next h =>
    rw [heq, List.cons_append] at h
    exact absurd (List.cons.inj h).1 (ne_of_isDigit hc (by decide))
  · next h =>
    rw [heq, List.cons_append] at h
    exact absurd (List.cons.inj h).1 (ne_of_isDigit hc (by decide))
  · rw [hread]
    rfl

/-- What ends a fraction: anything but a digit. -/
theorem fraction?_append {row : List Char} (hne : row ≠ []) (hle : row.length ≤ 9)
    (hdigits : ∀ c ∈ row, isDigit c = true) (hrest : ∀ c ∈ rest.head?, isDigit c = false) :
    fraction? (row ++ rest) = some (ofDigits row * Nat.pow 10 (9 - row.length), rest) := by
  obtain ⟨htake, hdrop⟩ := takeWhile_append_eq hdigits hrest
  have hcounted : row.take 9 = row := List.take_of_length_le hle
  simp only [fraction?, htake, hdrop, List.isEmpty_eq_false_iff.2 hne, hcounted]
  rfl

theorem fraction?_padded (hwidth : 0 < width) (hle : width ≤ 9) (hn : n < 10 ^ width)
    (hrest : ∀ c ∈ rest.head?, isDigit c = false) :
    fraction? (padded width n ++ rest) = some (n * Nat.pow 10 (9 - width), rest) := by
  have hlength := length_padded hwidth hn
  obtain ⟨c, cs, heq, -⟩ := exists_padded_eq_cons hwidth hn
  have hread := fraction?_append (by rw [heq]; simp) (by omega)
    (fun c hc => isDigit_of_mem_padded hc) hrest
  rwa [ofDigits_padded, hlength] at hread

/-- A fraction of so many digits that are exact. -/
theorem optionalFraction?_padded (hwidth : 0 < width) (hle : width ≤ 9) (hn : n < nanosPerSecond)
    (hexact : n % 10 ^ (9 - width) = 0) (hrest : ∀ c ∈ rest.head?, isDigit c = false) :
    optionalFraction? ('.' :: (padded width (n / 10 ^ (9 - width)) ++ rest)) = some (n, rest) := by
  have hfits : n / 10 ^ (9 - width) < 10 ^ width := by
    apply Nat.div_lt_of_lt_mul
    rw [← Nat.pow_add, Nat.sub_add_cancel hle]
    exact hn
  rw [optionalFraction?, fraction?_padded hwidth hle hfits hrest]
  have hnano := Nat.div_mul_cancel (Nat.dvd_of_mod_eq_zero hexact)
  exact congrArg (fun nano => some (nano, rest)) hnano

theorem optionalFraction?_fractionText (hn : n < nanosPerSecond)
    (hrest : ∀ c ∈ rest.head?, isDigit c = false ∧ c ≠ '.') :
    optionalFraction? (Time.fractionText n ++ rest) = some (n, rest) := by
  have hdigit : ∀ c ∈ rest.head?, isDigit c = false := fun c hc => (hrest c hc).1
  unfold Time.fractionText
  split
  · next hzero =>
    rw [hzero, List.nil_append]
    unfold optionalFraction?
    split
    · exact absurd rfl (hrest '.' rfl).2
    · rfl
  split
  · next hexact => exact optionalFraction?_padded (by decide) (by decide : 3 ≤ 9) hn hexact hdigit
  split
  · next hexact => exact optionalFraction?_padded (by decide) (by decide : 6 ≤ 9) hn hexact hdigit
  · have hread := optionalFraction?_padded (by decide) (Nat.le_refl 9) hn (Nat.mod_one n) hdigit
    rwa [Nat.sub_self, Nat.pow_zero, Nat.div_one] at hread

/-! ## Dates and times -/

theorem of?_self (d : Date) : Date.of? d.year d.month d.day = some d :=
  dif_pos ⟨⟨d.month_pos, d.month_le⟩, d.day_pos, d.day_le⟩

theorem dateInRange?_self {d : Date} (h : d.inRange = true) :
    dateInRange? d.year d.month d.day = some d := by
  simp [dateInRange?, of?_self, h]

end Reading

/-- The years of four digits. -/
def Date.hasPlainYear (d : Date) : Bool := 0 ≤ d.year && d.year ≤ 9999

namespace Reading

variable {rest : List Char} {d : Date}

theorem exists_year (h : d.hasPlainYear = true) :
    ∃ year : Nat, d.year = year ∧ year < 10000 ∧ Date.yearText d.year = padded 4 year := by
  obtain ⟨hlow, hhigh⟩ : 0 ≤ d.year ∧ d.year ≤ 9999 := by simpa [Date.hasPlainYear] using h
  obtain ⟨year, hyear⟩ := Int.eq_ofNat_of_zero_le hlow
  refine ⟨year, hyear, by omega, ?_⟩
  simp [Date.yearText, hyear, show (year : Int) ≤ 9999 by omega]

theorem daysInMonth_le (year : Int) (month : Nat) : daysInMonth year month ≤ 31 := by
  unfold daysInMonth
  split
  · split <;> omega
  all_goals omega

theorem day_lt (d : Date) : d.day < 100 := by
  have hday := d.day_le
  have := daysInMonth_le d.year d.month
  omega

theorem second_lt (t : Time) : t.second + t.nano / nanosPerSecond < 100 := by
  have hnano : t.nano / nanosPerSecond < 2 := Nat.div_lt_of_lt_mul t.nano_lt
  have := t.second_lt
  omega

theorem date?_text (h : d.hasPlainYear = true) : date? (d.text ++ rest) = some (d, rest) := by
  obtain ⟨year, hyear, hlt, htext⟩ := exists_year h
  have hmonth : d.month < 100 := by have := d.month_le; omega
  have hrange : d.inRange = true := by
    simp only [Date.inRange, Date.minYear, Date.maxYear, hyear, Bool.and_eq_true, decide_eq_true_eq]
    omega
  rw [date?, Date.text, htext]
  simp only [List.append_assoc, List.cons_append, year?_padded hlt, Option.bind_eq_bind,
    Option.bind_some, mark?_cons, field?_padded hmonth, field?_padded (day_lt d), ← hyear,
    dateInRange?_self hrange]
  rfl

theorem fullTime?_text (t : Time) (hrest : ∀ c ∈ rest.head?, isDigit c = false ∧ c ≠ '.') :
    fullTime? (t.text ++ rest) = some (t.shown, rest) := by
  have hhour : t.hour < 100 := by have := t.hour_lt; omega
  have hminute : t.minute < 100 := by have := t.minute_lt; omega
  have hsecond : t.second + t.nano / nanosPerSecond < 100 := second_lt t
  have hfraction := optionalFraction?_fractionText
    (Nat.mod_lt t.nano (by decide : 0 < nanosPerSecond)) hrest
  rw [fullTime?, hourMinuteSecond?, hourMinute?, Time.text]
  simp only [List.append_assoc, List.cons_append, field?_padded hhour, Option.bind_eq_bind,
    Option.bind_some, mark?_cons, field?_padded hminute, field?_padded hsecond, hfraction,
    Clock.time?, Time.ofClock?_shown, Option.pure_def]

end Reading

/-- The date-time that the text of a date-time shows. -/
def LocalDateTime.shown (dt : LocalDateTime) : LocalDateTime := { dt with time := dt.time.shown }

/-- The instant that the text of an instant shows. -/
def Instant.shown (i : Instant) : Instant := ⟨i.utc.shown⟩

namespace Reading

variable {rest : List Char}

theorem dateTime?_text {dt : LocalDateTime} (h : dt.date.hasPlainYear = true)
    (hrest : ∀ c ∈ rest.head?, isDigit c = false ∧ c ≠ '.') :
    dateTime? fullTime? (dt.text ++ rest) = some (dt.shown, rest) := by
  rw [dateTime?, LocalDateTime.text]
  simp only [List.append_assoc, List.cons_append, date?_text h, Option.bind_eq_bind,
    Option.bind_some, mark?_cons, fullTime?_text _ hrest, Option.pure_def]
  rfl

/-- A reader that has taken its part goes on with the next one. -/
theorem step {α β : Type} {o : Option α} {next : α → Option β} {a : α} {b : Option β}
    (h : o = some a) (hnext : next a = b) : o.bind next = b := by
  rw [h]
  exact hnext

/-- The text of an instant is a strict timestamp in UTC. -/
theorem timestamp?_text {i : Instant} (h : i.utc.date.hasPlainYear = true) :
    timestamp? i.text = some (i.shown, []) := by
  obtain ⟨year, hyear, hlt, htext⟩ := exists_year h
  have hmonth : i.utc.date.month < 10 ^ 2 := by have := i.utc.date.month_le; omega
  have hday : i.utc.date.day < 10 ^ 2 := day_lt _
  have hhour : i.utc.time.hour < 10 ^ 2 := by have := i.utc.time.hour_lt; omega
  have hminute : i.utc.time.minute < 10 ^ 2 := by have := i.utc.time.minute_lt; omega
  have hsecond : i.utc.time.second + i.utc.time.nano / nanosPerSecond < 10 ^ 2 := second_lt _
  have hof : Date.of? year i.utc.date.month i.utc.date.day = some i.utc.date := hyear ▸ of?_self _
  have hfraction : optionalFraction?
      (Time.fractionText (i.utc.time.nano % nanosPerSecond) ++ ['Z']) = some (_, ['Z']) :=
    optionalFraction?_fractionText (Nat.mod_lt _ (by decide)) (by intro c hc; cases hc; decide)
  have htwo {n : Nat} {rest : List Char} (hn : n < 10 ^ 2) :
      exactDigits? 2 (padded 2 n ++ rest) = some (n, rest) := exactDigits?_padded (by decide) hn
  rw [timestamp?, Instant.text, LocalDateTime.text, Date.text, Time.text, htext]
  simp only [List.append_assoc, List.cons_append]
  -- One field or mark after the other, from the left.
  refine step (exactDigits?_padded (by decide : 0 < 4) hlt) <| step mark?_cons <|
    step (htwo hmonth) <| step mark?_cons <|
    step (htwo hday) <| step (by rfl) <| step (htwo hhour) <| step mark?_cons <|
    step (htwo hminute) <| step mark?_cons <| step (htwo hsecond) <| step hfraction <|
    step (by rfl) <| step hof <| step (Time.ofClock?_shown _) ?_
  rw [Int.neg_zero, LocalDateTime.shift_zero]
  rfl

end Reading

/-! ## Whole texts -/

theorem Date.read?_text {d : Date} (h : d.hasPlainYear = true) : Date.read? d.text = some d := by
  have hread : Reading.date? (d.text ++ []) = some (d, []) := Reading.date?_text h
  rw [List.append_nil] at hread
  rw [read?, Reading.whole?, hread]

/-- The text of a time is longer than hours and minutes. -/
theorem Time.length_text (t : Time) : 8 ≤ t.text.length := by
  have hhour : (padded 2 t.hour).length = 2 :=
    length_padded (by decide) (by have := t.hour_lt; omega)
  have hminute : (padded 2 t.minute).length = 2 :=
    length_padded (by decide) (by have := t.minute_lt; omega)
  have hsecond : (padded 2 (t.second + t.nano / nanosPerSecond)).length = 2 :=
    length_padded (by decide) (Reading.second_lt t)
  simp only [text, List.length_append, List.length_cons, hhour, hminute, hsecond]
  omega

theorem Time.read?_text (t : Time) : Time.read? t.text = some t.shown := by
  have hread : Reading.fullTime? (t.text ++ []) = some (t.shown, []) :=
    Reading.fullTime?_text t (by simp)
  have hlength := t.length_text
  rw [List.append_nil] at hread
  rw [read?, if_neg (by omega), Reading.whole?, hread]

theorem LocalDateTime.read?_text {dt : LocalDateTime} (h : dt.date.hasPlainYear = true) :
    LocalDateTime.read? dt.text = some dt.shown := by
  have hread : Reading.dateTime? Reading.fullTime? (dt.text ++ []) = some (dt.shown, []) :=
    Reading.dateTime?_text h (by simp)
  rw [List.append_nil] at hread
  rw [read?, Reading.whole?, hread]
  rfl

theorem Instant.ofTimestamp?_text {i : Instant} (h : i.utc.date.hasPlainYear = true) :
    Instant.ofTimestamp? i.text = some i.shown := by
  rw [ofTimestamp?, Reading.whole?, Reading.timestamp?_text h]

end FilterQuery
