import FilterQuery.Proofs.DayCount
import FilterQuery.Proofs.LiteralFaults

set_option autoImplicit false

/-! # The spellings of an offset

Behind a date-time an offset is written `±HH:MM`, `±HHMM` or `±HH`, or `Z` if it is zero. Two
readers share the work. A strict timestamp has the colon, and is read in one go, from left to right.
For everything else the offset is taken off the end first, and the date-time is read without it.

Both come to the same instant: the date-time on the clock minus the offset, over the ends of days,
months and years, with the fraction of a second kept as it is. So the spelling does not matter
(`Instant.read_offset_spellings`), up to the largest offset that both accept. -/

namespace FilterQuery

open FilterQuery.Text

theorem Text.byteSize_padded_two {n : Nat} (h : n < 100) : byteSize (padded 2 n) = 2 := by
  have hascii : (padded 2 n).all isAscii = true :=
    List.all_eq_true.2 fun c hc => isAscii_of_isDigit (isDigit_of_mem_padded hc)
  rw [byteSize_of_isAscii hascii]
  exact length_padded (by decide) h

/-! ## Local date-times -/

/-- A date-time as it is written in front of its zone: a year of four digits, a clock down to the
second, and a fraction of at most nine digits, which may be missing. -/
structure LocalText where
  date : Date
  hour : Nat
  minute : Nat
  second : Nat
  fraction : List Char
  hasPlainYear_date : date.hasPlainYear = true
  hour_lt : hour < 24
  minute_lt : minute < 60
  second_lt : second < 60
  length_fraction : fraction.length ≤ 9
  isDigit_fraction : ∀ c ∈ fraction, isDigit c = true

namespace LocalText

variable (t : LocalText)

/-- The fraction in nanoseconds. -/
def nano : Nat := ofDigits t.fraction * Nat.pow 10 (9 - t.fraction.length)

theorem nano_lt : t.nano < nanosPerSecond := by
  calc t.nano < 10 ^ t.fraction.length * 10 ^ (9 - t.fraction.length) :=
        Nat.mul_lt_mul_of_pos_right (ofDigits_lt t.isDigit_fraction) (Nat.pow_pos (by decide))
    _ = nanosPerSecond := by
        rw [← Nat.pow_add, Nat.add_sub_cancel' t.length_fraction]
        rfl

/-- The date-time that is written. -/
def dateTime : LocalDateTime where
  date := t.date
  time :=
    ⟨t.hour, t.minute, t.second, t.nano, t.hour_lt, t.minute_lt, t.second_lt,
      by have := t.nano_lt; omega⟩

def clockText : List Char :=
  padded 2 t.hour ++ ':' :: (padded 2 t.minute ++ ':' :: padded 2 t.second)

/-- The fraction with its point, if there is one. -/
def fractionText : List Char := if t.fraction.isEmpty then [] else '.' :: t.fraction

/-- `YYYY-MM-DDTHH:MM:SS` and the fraction. -/
def text : List Char := t.date.text ++ 'T' :: (t.clockText ++ t.fractionText)

theorem ofClock?_eq : Time.ofClock? t.hour t.minute t.second t.nano = some t.dateTime.time := by
  have hsecond : t.second ≠ 60 := t.second_lt.ne
  rw [Time.ofClock?, if_pos t.nano_lt, if_neg hsecond]
  exact Time.of?_self t.dateTime.time

/-! ## Read in one go -/

theorem optionalFraction?_eq {rest : List Char}
    (hrest : ∀ c ∈ rest.head?, isDigit c = false ∧ c ≠ '.') :
    Reading.optionalFraction? (t.fractionText ++ rest) = some (t.nano, rest) := by
  unfold fractionText
  split
  · next hempty =>
    have hnano : t.nano = 0 := by simp [nano, List.isEmpty_iff.1 hempty, ofDigits]
    rw [hnano, List.nil_append]
    unfold Reading.optionalFraction?
    split
    · exact absurd rfl (hrest '.' rfl).2
    · rfl
  · next hne =>
    exact Reading.fraction?_append (by simpa using hne) t.length_fraction t.isDigit_fraction
      fun c hc => (hrest c hc).1

/-- A strict timestamp is a date-time and an offset that has all its marks. -/
theorem timestamp?_append {rest : List Char}
    (hrest : ∀ c ∈ rest.head?, isDigit c = false ∧ c ≠ '.') :
    Reading.timestamp? (t.text ++ rest) = (Reading.strictOffset? rest).map fun offset =>
      (⟨t.dateTime.shift (-offset.1)⟩, offset.2) := by
  obtain ⟨year, hyear, hlt, htext⟩ := Reading.exists_year t.hasPlainYear_date
  have hmonth : t.date.month < 10 ^ 2 := by have := t.date.month_le; omega
  have hof : Date.of? year t.date.month t.date.day = some t.date := hyear ▸ Reading.of?_self _
  have htwo {n : Nat} {rest : List Char} (hn : n < 10 ^ 2) :
      Reading.exactDigits? 2 (padded 2 n ++ rest) = some (n, rest) :=
    Reading.exactDigits?_padded (by decide) hn
  rw [Reading.timestamp?, text, clockText, Date.text, htext]
  simp only [List.append_assoc, List.cons_append]
  refine Reading.step (Reading.exactDigits?_padded (by decide : 0 < 4) hlt) <|
    Reading.step Reading.mark?_cons <| Reading.step (htwo hmonth) <|
    Reading.step Reading.mark?_cons <| Reading.step (htwo (Reading.day_lt _)) <|
    Reading.step (by rfl) <| Reading.step (htwo (by have := t.hour_lt; omega)) <|
    Reading.step Reading.mark?_cons <| Reading.step (htwo (by have := t.minute_lt; omega)) <|
    Reading.step Reading.mark?_cons <| Reading.step (htwo (by have := t.second_lt; omega)) <|
    Reading.step (t.optionalFraction?_eq hrest) ?_
  cases Reading.strictOffset? rest with
  | none => rfl
  | some offset =>
    obtain ⟨offset, after⟩ := offset
    exact Reading.step rfl <| Reading.step hof <| Reading.step t.ofClock?_eq rfl

theorem ofTimestamp?_append {rest : List Char}
    (hrest : ∀ c ∈ rest.head?, isDigit c = false ∧ c ≠ '.') {offset : Int}
    (h : Reading.strictOffset? rest = some (offset, [])) :
    Instant.ofTimestamp? (t.text ++ rest) = some ⟨t.dateTime.shift (-offset)⟩ := by
  rw [Instant.ofTimestamp?, Reading.whole?, t.timestamp?_append hrest, h]
  rfl

theorem ofTimestamp?_append_eq_none {rest : List Char}
    (hrest : ∀ c ∈ rest.head?, isDigit c = false ∧ c ≠ '.')
    (h : Reading.strictOffset? rest = none) : Instant.ofTimestamp? (t.text ++ rest) = none := by
  rw [Instant.ofTimestamp?, Reading.whole?, t.timestamp?_append hrest, h]
  rfl

/-! ## Read without its zone -/

theorem T_not_mem_date : 'T' ∉ t.date.text :=
  Shape.not_mem_of_isDate (Date.isDate_text t.hasPlainYear_date) (by decide) (by decide)

theorem mem_clockText {c : Char} (h : c ∈ t.clockText) : isDigit c = true ∨ c = ':' := by
  simp only [clockText, List.mem_append, List.mem_cons] at h
  rcases h with h | h | h | h | h
  · exact .inl (isDigit_of_mem_padded h)
  · exact .inr h
  · exact .inl (isDigit_of_mem_padded h)
  · exact .inr h
  · exact .inl (isDigit_of_mem_padded h)

theorem readClock?_clockText :
    Instant.readClock? t.clockText = some ⟨t.hour, t.minute, t.second⟩ := by
  have hhour : t.hour < 100 := by have := t.hour_lt; omega
  have hminute : t.minute < 100 := by have := t.minute_lt; omega
  have hsecond : t.second < 100 := by have := t.second_lt; omega
  have hsize : byteSize t.clockText = 8 := by
    rw [clockText, byteSize_append, byteSize, byteSize_append, byteSize,
      byteSize_padded_two hhour, byteSize_padded_two hminute, byteSize_padded_two hsecond]
    rfl
  have hread : Reading.field? (padded 2 t.second ++ []) = some (t.second, []) :=
    Reading.field?_padded hsecond
  rw [List.append_nil] at hread
  rw [Instant.readClock?, if_neg (by omega), if_pos hsize, Reading.whole?,
    Reading.hourMinuteSecond?, Reading.hourMinute?, clockText]
  simp only [Reading.field?_padded hhour, Reading.field?_padded hminute, hread,
    Option.bind_eq_bind, Option.bind_some, Reading.mark?_cons, Option.pure_def]

theorem splitFirst_point : (splitFirst '.' (t.clockText ++ t.fractionText)).getD
    (t.clockText ++ t.fractionText, []) = (t.clockText, t.fraction) := by
  have hpoint : '.' ∉ t.clockText := fun h => by
    rcases t.mem_clockText h with h | h <;> revert h <;> decide
  unfold fractionText
  split
  · next hempty =>
    rw [List.append_nil, splitFirst_eq_none hpoint, List.isEmpty_iff.1 hempty]
    rfl
  · rw [splitFirst_append hpoint]
    rfl

theorem readLocal?_text : Instant.readLocal? t.text = some t.dateTime := by
  have hfraction : Instant.readFraction? t.fraction = some t.nano := by
    have hall : t.fraction.all isDigit = true := List.all_eq_true.2 t.isDigit_fraction
    simp [Instant.readFraction?, t.length_fraction, hall, nano]
  rw [Instant.readLocal?, text, splitFirst_append t.T_not_mem_date]
  simp only [Option.bind_eq_bind, Option.bind_some, Date.read?_text t.hasPlainYear_date,
    splitFirst_point, readClock?_clockText, hfraction, Reading.Clock.time?, ofClock?_eq]
  rfl

end LocalText

/-! ## Offsets -/

/-- An offset as it is written: a sign, and hours and minutes of two digits each. -/
structure OffsetText where
  sign : Char
  hours : Nat
  minutes : Nat
  isSign_sign : Instant.isSign sign = true
  hours_lt : hours < 100
  minutes_lt : minutes < 100

namespace OffsetText

variable (o : OffsetText)

/-- `±HH:MM` -/
def colon : List Char := o.sign :: (padded 2 o.hours ++ ':' :: padded 2 o.minutes)

/-- `±HHMM` -/
def plain : List Char := o.sign :: (padded 2 o.hours ++ padded 2 o.minutes)

/-- `±HH` -/
def short : List Char := o.sign :: padded 2 o.hours

/-- How far ahead of UTC the clock is. -/
def seconds : Int :=
  let unsigned : Nat := 3600 * o.hours + 60 * o.minutes
  if o.sign = '-' then -unsigned else unsigned

theorem sign_eq : o.sign = '+' ∨ o.sign = '-' := by
  simpa [Instant.isSign] using o.isSign_sign

theorem head_sign {rest : List Char} :
    ∀ c ∈ (o.sign :: rest).head?, isDigit c = false ∧ c ≠ '.' := by
  rintro c ⟨⟩
  rcases o.sign_eq with h | h <;> rw [h] <;> decide

/-! ### Strict offsets -/

theorem strictOffset?_cons {rest : List Char} : Reading.strictOffset? (o.sign :: rest) =
    (Reading.exactDigits? 2 rest).bind fun hours => (Reading.mark? ':' hours.2).bind fun rest =>
      (Reading.exactDigits? 2 rest).bind fun minutes =>
        if hours.1 < 24 ∧ minutes.1 < 60 then
          some ((if o.sign = '-' then -1 else 1 : Int) *
            (3600 * hours.1 + 60 * minutes.1 : Nat), minutes.2)
        else none := by
  rcases o.sign_eq with h | h <;> rw [h] <;> rfl

theorem exactDigits?_hours {rest : List Char} :
    Reading.exactDigits? 2 (padded 2 o.hours ++ rest) = some (o.hours, rest) :=
  Reading.exactDigits?_padded (by decide) o.hours_lt

theorem exactDigits?_minutes :
    Reading.exactDigits? 2 (padded 2 o.minutes) = some (o.minutes, []) := by
  have hread : Reading.exactDigits? 2 (padded 2 o.minutes ++ []) = some (o.minutes, []) :=
    Reading.exactDigits?_padded (by decide) o.minutes_lt
  rwa [List.append_nil] at hread

theorem strictOffset?_colon : Reading.strictOffset? o.colon =
    if o.hours < 24 ∧ o.minutes < 60 then some (o.seconds, []) else none := by
  rw [colon, strictOffset?_cons, exactDigits?_hours, Option.bind_some, Reading.mark?_cons,
    Option.bind_some, exactDigits?_minutes, Option.bind_some]
  simp only [seconds]
  split_ifs <;> simp

theorem strictOffset?_plain : Reading.strictOffset? o.plain = none := by
  obtain ⟨a, b, heq, ha, -⟩ := exists_padded_two o.minutes_lt
  rw [plain, strictOffset?_cons, exactDigits?_hours, Option.bind_some, heq, Reading.mark?,
    if_neg (ne_of_isDigit ha (by decide)), Option.bind_none]

theorem strictOffset?_short : Reading.strictOffset? o.short = none := by
  have hread : Reading.exactDigits? 2 (padded 2 o.hours ++ []) = _ := o.exactDigits?_hours
  rw [List.append_nil] at hread
  rw [short, strictOffset?_cons, hread]
  rfl

/-! ### Offsets taken off the end -/

/-- Hours are cut off behind their two digits. -/
theorem splitAtByte_hours (rest : List Char) :
    splitAtByte 2 (padded 2 o.hours ++ rest) = some (padded 2 o.hours, rest) := by
  have hcut := splitAtByte_byteSize (padded 2 o.hours) rest
  rwa [byteSize_padded_two o.hours_lt] at hcut

theorem offsetFields?_colon :
    Instant.offsetFields? (padded 2 o.hours ++ ':' :: padded 2 o.minutes) =
      .ok (some (padded 2 o.hours, padded 2 o.minutes)) := by
  have hsize : byteSize (padded 2 o.hours ++ ':' :: padded 2 o.minutes) = 5 := by
    rw [byteSize_append, byteSize, byteSize_padded_two o.hours_lt,
      byteSize_padded_two o.minutes_lt]
    rfl
  rw [Instant.offsetFields?, if_pos hsize, splitAtByte_hours]
  rfl

theorem offsetFields?_plain : Instant.offsetFields? (padded 2 o.hours ++ padded 2 o.minutes) =
    .ok (some (padded 2 o.hours, padded 2 o.minutes)) := by
  have hsize : byteSize (padded 2 o.hours ++ padded 2 o.minutes) = 4 := by
    rw [byteSize_append, byteSize_padded_two o.hours_lt, byteSize_padded_two o.minutes_lt]
  rw [Instant.offsetFields?, if_neg (by omega), if_pos hsize, splitAtByte_hours]

theorem offsetFields?_short : Instant.offsetFields? (padded 2 o.hours) =
    .ok (some (padded 2 o.hours, padded 2 0)) := by
  have hsize : byteSize (padded 2 o.hours) = 2 := byteSize_padded_two o.hours_lt
  rw [Instant.offsetFields?, if_neg (by omega), if_neg (by omega), if_pos hsize]
  rfl

/-- The two fields decide, however they were written. -/
theorem readOffset_eq {digits : List Char}
    (h : Instant.offsetFields? digits = .ok (some (padded 2 o.hours, padded 2 o.minutes))) :
    Instant.readOffset o.sign digits =
      if o.hours ≤ 18 ∧ o.minutes ≤ 59 then .ok o.seconds
      else refuse (.invalidOffset (String.ofList (o.sign :: digits))) := by
  have hall : (padded 2 o.hours ++ padded 2 o.minutes).all isDigit = true := by
    refine List.all_eq_true.2 fun c hc => ?_
    rcases List.mem_append.1 hc with hc | hc <;> exact isDigit_of_mem_padded hc
  simp only [Instant.readOffset, h, hall, ofDigits_padded, Instant.maxOffsetHours, Bool.true_and,
    Bool.and_eq_true, decide_eq_true_eq, seconds]

theorem seconds_bounds (h : o.hours ≤ 18 ∧ o.minutes ≤ 59) :
    -86400 ≤ o.seconds ∧ o.seconds ≤ 86400 := by
  simp only [seconds]
  split_ifs <;> omega

end OffsetText

/-! ## Date-times with their offsets -/

namespace Instant

variable (zones : Zone.Database) (zone : Zone) (t : LocalText) (o : OffsetText)

/-- A clock that is always as far ahead of UTC shows every date-time once. -/
theorem resolve_fixed {name text : String} {dt : LocalDateTime} {offset : Int}
    (h : (dt.shift (-offset)).inRange = true) :
    resolve (Zone.fixed name offset) dt text = .ok ⟨dt.shift (-offset)⟩ := by
  simp [resolve, Zone.instants, Zone.localOffsets, Zone.offsetsFrom, Zone.fixed, h]

/-- A day more or less than a date-time of four digits is in range. -/
theorem inRange_shift {offset : Int} (hlow : -86400 ≤ offset) (hhigh : offset ≤ 86400) :
    (t.dateTime.shift (-offset)).inRange = true := by
  obtain ⟨year, hyear, hlt, -⟩ := Reading.exists_year t.hasPlainYear_date
  have hlow' : 0 ≤ t.dateTime.date.year := by show 0 ≤ t.date.year; omega
  have hhigh' : t.dateTime.date.year ≤ 9999 := by show t.date.year ≤ 9999; omega
  obtain ⟨hmin, hmax⟩ := LocalDateTime.toSeconds_of_year hlow' hhigh'
  have hshift := t.dateTime.toSeconds_shift (-offset)
  exact LocalDateTime.inRange_of_toSeconds (by omega) (by omega)

/-- Nothing but digits and colons behind the last sign: the sign starts an offset. -/
theorem splitZone_offset {digits : List Char} (hdigits : ∀ c ∈ digits, isDigit c = true ∨ c = ':') :
    splitZone zones (t.text ++ o.sign :: digits) =
      (readOffset o.sign digits).map fun offset => (t.text, some (Zone.fixed "" offset)) := by
  have hnot {c : Char} (hdigit : isDigit c = false) (hcolon : c ≠ ':') (hsign : isSign c = false) :
      (t.text ++ o.sign :: digits).getLast? ≠ some c := by
    refine getLast?_ne_of_not_mem (List.cons_ne_nil _ _) fun hmem => ?_
    rcases List.mem_cons.1 hmem with rfl | hmem
    · rw [o.isSign_sign] at hsign
      cases hsign
    · rcases hdigits c hmem with hc | hc
      · exact ne_of_isDigit hc hdigit rfl
      · exact hcolon hc
  have hrest : ∀ c ∈ digits, isSign c = false := by
    intro c hc
    rcases hdigits c hc with hdigit | rfl
    · exact Reading.not_isSign_of_isDigit hdigit
    · decide
  have hbracket := hnot (c := ']') (by decide) (by decide) (by decide)
  have hz := hnot (c := 'Z') (by decide) (by decide) (by decide)
  rw [LocalText.text, List.append_assoc, List.cons_append] at hbracket hz ⊢
  exact splitZone_signed t.T_not_mem_date o.isSign_sign hrest hbracket hz

/-- The date-time is read without its offset, which is taken off afterwards. -/
theorem read_offset {digits : List Char} (hdigits : ∀ c ∈ digits, isDigit c = true ∨ c = ':')
    (hfields : offsetFields? digits = .ok (some (padded 2 o.hours, padded 2 o.minutes)))
    (hstrict : Reading.strictOffset? (o.sign :: digits) = none) :
    read zone (t.text ++ o.sign :: digits) zones =
      if o.hours ≤ 18 ∧ o.minutes ≤ 59 then .ok ⟨t.dateTime.shift (-o.seconds)⟩
      else refuse (.invalidOffset (String.ofList (o.sign :: digits))) := by
  rw [read, t.ofTimestamp?_append_eq_none o.head_sign hstrict]
  simp only [splitZone_offset zones t o hdigits, o.readOffset_eq hfields]
  split_ifs with h
  · obtain ⟨hlow, hhigh⟩ := o.seconds_bounds h
    simp only [Except.map, t.readLocal?_text, Option.getD_some]
    exact resolve_fixed (inRange_shift t hlow hhigh)
  · rfl

theorem read_colon : read zone (t.text ++ o.colon) zones =
    if o.hours < 24 ∧ o.minutes < 60 then .ok ⟨t.dateTime.shift (-o.seconds)⟩
    else refuse (.invalidOffset (String.ofList o.colon)) := by
  have hstrict := o.strictOffset?_colon
  split_ifs at hstrict ⊢ with h
  · have htimestamp : ofTimestamp? (t.text ++ o.colon) = _ :=
      t.ofTimestamp?_append o.head_sign hstrict
    rw [read, htimestamp]
  · have hdigits : ∀ c ∈ padded 2 o.hours ++ ':' :: padded 2 o.minutes,
        isDigit c = true ∨ c = ':' := by
      intro c hc
      rcases List.mem_append.1 hc with hc | hc
      · exact .inl (isDigit_of_mem_padded hc)
      · exact (List.mem_cons.1 hc).symm.imp_left isDigit_of_mem_padded
    have hread := read_offset zones zone t o hdigits o.offsetFields?_colon hstrict
    rwa [if_neg (by omega)] at hread

theorem read_plain : read zone (t.text ++ o.plain) zones =
    if o.hours ≤ 18 ∧ o.minutes ≤ 59 then .ok ⟨t.dateTime.shift (-o.seconds)⟩
    else refuse (.invalidOffset (String.ofList o.plain)) := by
  refine read_offset zones zone t o (fun c hc => .inl ?_) o.offsetFields?_plain
    o.strictOffset?_plain
  rcases List.mem_append.1 hc with hc | hc <;> exact isDigit_of_mem_padded hc

/-- Two digits alone are hours. -/
theorem read_short (h : o.minutes = 0) : read zone (t.text ++ o.short) zones =
    if o.hours ≤ 18 then .ok ⟨t.dateTime.shift (-o.seconds)⟩
    else refuse (.invalidOffset (String.ofList o.short)) := by
  have hread := read_offset zones zone t o (fun c hc => .inl (isDigit_of_mem_padded hc))
    (h ▸ o.offsetFields?_short) o.strictOffset?_short
  simp only [h, Nat.zero_le, and_true] at hread
  exact hread

theorem read_utc : read zone (t.text ++ ['Z']) zones = .ok ⟨t.dateTime.shift 0⟩ := by
  rw [read, t.ofTimestamp?_append (by rintro c ⟨⟩; decide) rfl]
  rfl

/-- Whatever the database and the zone of the caller, all spellings of an offset give one instant,
the date-time on the clock minus the offset. Without a colon, hours and minutes beyond the largest
offset are refused; with it, those that no clock has. -/
theorem read_offset_spellings :
    (o.hours ≤ 18 ∧ o.minutes ≤ 59 → ∃ i : Instant,
      i.unixSeconds = t.dateTime.toSeconds - o.seconds ∧ i.nanos = t.nano ∧
      read zone (t.text ++ o.colon) zones = .ok i ∧ read zone (t.text ++ o.plain) zones = .ok i ∧
      (o.minutes = 0 → read zone (t.text ++ o.short) zones = .ok i) ∧
      (o.seconds = 0 → read zone (t.text ++ ['Z']) zones = .ok i)) ∧
    (18 < o.hours ∨ 59 < o.minutes →
      read zone (t.text ++ o.plain) zones = refuse (.invalidOffset (String.ofList o.plain)) ∧
      (o.minutes = 0 →
        read zone (t.text ++ o.short) zones = refuse (.invalidOffset (String.ofList o.short))) ∧
      (23 < o.hours ∨ 59 < o.minutes →
        read zone (t.text ++ o.colon) zones =
          refuse (.invalidOffset (String.ofList o.colon)))) := by
  constructor
  · intro h
    refine ⟨⟨t.dateTime.shift (-o.seconds)⟩, t.dateTime.toSeconds_shift _, rfl, ?_, ?_, ?_, ?_⟩
    · rw [read_colon, if_pos (by omega)]
    · rw [read_plain, if_pos h]
    · intro hminutes
      rw [read_short zones zone t o hminutes, if_pos h.1]
    · intro hseconds
      rw [read_utc, hseconds, Int.neg_zero]
  · intro h
    refine ⟨?_, ?_, ?_⟩
    · rw [read_plain, if_neg (by omega)]
    · intro hminutes
      rw [read_short zones zone t o hminutes, if_neg (by omega)]
    · intro hcolon
      rw [read_colon, if_neg (by omega)]

/-- The evening on a clock five and a half hours behind UTC is in the next year there. Nineteen
hours are too many. -/
theorem read_newYearsEve :
    (∃ i : Instant, i.unixSeconds = 1704072600 ∧ i.nanos = 250000000 ∧
      read Zone.utc "2023-12-31T20:00:00.25-05:30".toList = .ok i ∧
      read Zone.utc "2023-12-31T20:00:00.25-0530".toList = .ok i) ∧
    read Zone.utc "2023-12-31T20:00:00.25+19".toList = refuse (.invalidOffset "+19") := by
  have hwritten (o : OffsetText) := read_offset_spellings Zone.known Zone.utc
    ⟨⟨2023, 12, 31, by decide, by decide, by decide, by decide⟩, 20, 0, 0, ['2', '5'], by decide,
      by decide, by decide, by decide, by decide, List.all_eq_true.1 (by decide)⟩ o
  constructor
  · obtain ⟨i, hseconds, hnanos, hcolon, hplain, -⟩ :=
      (hwritten ⟨'-', 5, 30, by decide, by decide, by decide⟩).1 (by decide)
    exact ⟨i, hseconds, hnanos, hcolon, hplain⟩
  · obtain ⟨-, hshort, -⟩ :=
      (hwritten ⟨'+', 19, 0, by decide, by decide, by decide⟩).2 (by decide)
    exact hshort rfl

end Instant

end FilterQuery
