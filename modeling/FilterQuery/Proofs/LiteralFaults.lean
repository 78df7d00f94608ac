import FilterQuery.Proofs.DayCount
import FilterQuery.Proofs.LiteralSlices
import FilterQuery.Proofs.ValueText

set_option autoImplicit false

/-! # Literals without a value or an error

A literal has a value or an error, but for one kind: a date-time whose offset has four bytes behind
its sign, the second and the third of which belong to one character (`SplitsOffset`). It is cut
between these bytes. Nothing else goes wrong (`coerce_eq_stopWith_iff`): strict timestamps are read
before anything is cut, and years have four digits in a literal, so that no hour that is added to a
date-time leads out of the range of years. -/

namespace FilterQuery

open FilterQuery.Text

variable {zones : Zone.Database}

/-- A date has the year that it is made of. -/
theorem Date.year_of_of? {year : Int} {month day : Nat} {d : Date}
    (h : of? year month day = some d) : d.year = year := by
  unfold of? at h
  split_ifs at h
  cases h
  rfl

/-! ## Strict timestamps -/

namespace Reading

variable {cs rest : List Char} {n count : Nat}

theorem not_isSign_of_isDigit {c : Char} (h : isDigit c = true) : Instant.isSign c = false := by
  have hall : (['0', '1', '2', '3', '4', '5', '6', '7', '8', '9'].all fun d =>
      !Instant.isSign d) = true := by decide
  simpa using List.all_eq_true.1 hall c (mem_of_isDigit h)

theorem not_isSign_of_areDigits (h : areDigits count cs = true) :
    ∀ c ∈ cs, Instant.isSign c = false :=
  fun _ hc => not_isSign_of_isDigit (isDigit_of_areDigits h hc)

theorem eq_of_exactDigits? (h : exactDigits? count cs = some (n, rest)) :
    ∃ row, cs = row ++ rest ∧ areDigits count row = true := by
  unfold exactDigits? at h
  split_ifs at h with hdigits
  cases h
  exact ⟨cs.take count, (List.take_append_drop count cs).symm, hdigits⟩

theorem lt_of_exactDigits? (h : exactDigits? count cs = some (n, rest)) : n < 10 ^ count := by
  unfold exactDigits? at h
  split_ifs at h with hdigits
  cases h
  have hlt := ofDigits_lt fun c hc => isDigit_of_areDigits hdigits hc
  rwa [Shape.length_of_areDigits hdigits] at hlt

theorem eq_of_mark? {c : Char} (h : mark? c cs = some rest) : cs = c :: rest := by
  cases cs with
  | nil => cases h
  | cons d cs =>
    rw [mark?] at h
    split_ifs at h with hd
    cases h
    rw [hd]

theorem eq_of_strictSeparator? (h : strictSeparator? cs = some rest) : ∃ c, cs = c :: rest := by
  cases cs with
  | nil => cases h
  | cons c cs =>
    rw [strictSeparator?] at h
    split_ifs at h
    cases h
    exact ⟨c, rfl⟩

theorem eq_of_optionalFraction? (h : optionalFraction? cs = some (n, rest)) :
    ∃ row, cs = row ++ rest ∧ ∀ c ∈ row, Instant.isSign c = false := by
  unfold optionalFraction? at h
  split at h
  · next fraction =>
    simp only [fraction?] at h
    split_ifs at h
    cases h
    refine ⟨'.' :: fraction.takeWhile isDigit, ?_, ?_⟩
    · rw [List.cons_append, List.takeWhile_append_dropWhile]
    · intro c hc
      rcases List.mem_cons.1 hc with rfl | hc
      · decide
      · exact not_isSign_of_isDigit (List.all_eq_true.1 List.all_takeWhile c hc)
  · cases h
    exact ⟨[], rfl, by simp⟩

/-- Two fields of two digits with a colon between them. -/
theorem not_isSign_of_fields {left right : List Char} (hleft : areDigits 2 left = true)
    (hright : areDigits 2 right = true) :
    ∀ c ∈ left ++ ':' :: right, Instant.isSign c = false := by
  intro c hc
  rcases List.mem_append.1 hc with hc | hc
  · exact not_isSign_of_areDigits hleft c hc
  · rcases List.mem_cons.1 hc with rfl | hc
    · decide
    · exact not_isSign_of_areDigits hright c hc

/-- An offset is one letter, or a sign and two fields of two digits, and stays below a day. -/
theorem cases_of_strictOffset? {seconds : Int} (h : strictOffset? cs = some (seconds, rest)) :
    (-86400 < seconds ∧ seconds < 86400) ∧
      ((∃ letter, cs = letter :: rest ∧ (letter = 'Z' ∨ letter = 'z')) ∨
        ∃ sign left right, cs = sign :: ((left ++ ':' :: right) ++ rest) ∧
          (sign = '+' ∨ sign = '-' ∨ sign = Char.ofNat 0x2212) ∧
          areDigits 2 left = true ∧ areDigits 2 right = true) := by
  cases cs with
  | nil => cases h
  | cons first cs =>
    have hfields : ∀ factor : Int, factor = 1 ∨ factor = -1 →
        ((exactDigits? 2 cs).bind fun hours => (mark? ':' hours.2).bind fun back =>
          (exactDigits? 2 back).bind fun minutes =>
            if hours.1 < 24 ∧ minutes.1 < 60 then
              some (factor * (3600 * hours.1 + 60 * minutes.1 : Nat), minutes.2)
            else none) = some (seconds, rest) →
        (-86400 < seconds ∧ seconds < 86400) ∧ ∃ left right,
          cs = (left ++ ':' :: right) ++ rest ∧ areDigits 2 left = true ∧
            areDigits 2 right = true := by
      intro factor hfactor h
      obtain ⟨⟨hours, back⟩, hhours, h⟩ := Option.bind_eq_some_iff.1 h
      obtain ⟨back', hmark, h⟩ := Option.bind_eq_some_iff.1 h
      obtain ⟨⟨minutes, back''⟩, hminutes, h⟩ := Option.bind_eq_some_iff.1 h
      split_ifs at h
      cases h
      obtain ⟨left, rfl, hleft⟩ := eq_of_exactDigits? hhours
      obtain rfl := eq_of_mark? hmark
      obtain ⟨right, rfl, hright⟩ := eq_of_exactDigits? hminutes
      refine ⟨?_, left, right, by simp, hleft, hright⟩
      rcases hfactor with rfl | rfl <;> omega
    rw [strictOffset?] at h
    split_ifs at h with hletter hplus hminus
    · cases h
      exact ⟨by decide, .inl ⟨first, rfl, hletter⟩⟩
    · obtain ⟨hseconds, left, right, rfl, hleft, hright⟩ := hfields 1 (.inl rfl) h
      exact ⟨hseconds, .inr ⟨first, left, right, rfl, .inl hplus, hleft, hright⟩⟩
    · obtain ⟨hseconds, left, right, rfl, hleft, hright⟩ := hfields (-1) (.inr rfl) h
      exact ⟨hseconds, .inr ⟨first, left, right, rfl, .inr hminus, hleft, hright⟩⟩
    · cases h

/-- A sign of an offset has five bytes behind it. -/
theorem eq_of_strictOffset? {seconds : Int} (h : strictOffset? cs = some (seconds, rest)) :
    ∃ first row, cs = first :: (row ++ rest) ∧ (∀ c ∈ row, Instant.isSign c = false) ∧
      (byteSize row = 5 ∨ row = [] ∧ Instant.isSign first = false) := by
  rcases (cases_of_strictOffset? h).2 with ⟨letter, rfl, hletter⟩ |
    ⟨sign, left, right, rfl, -, hleft, hright⟩
  · refine ⟨letter, [], rfl, by simp, .inr ⟨rfl, ?_⟩⟩
    rcases hletter with rfl | rfl <;> decide
  · refine ⟨sign, left ++ ':' :: right, rfl, not_isSign_of_fields hleft hright, .inl ?_⟩
    simp only [byteSize_append, byteSize, byteSize_of_isAscii (Shape.isAscii_of_areDigits hleft),
      byteSize_of_isAscii (Shape.isAscii_of_areDigits hright), Shape.length_of_areDigits hleft,
      Shape.length_of_areDigits hright]
    decide

/-- A timestamp has eleven characters in front of its clock, a year of four digits, and an offset
that is taken off. -/
theorem cases_of_timestamp? {i : Instant} (h : timestamp? cs = some (i, rest)) :
    ∃ front clock offset seconds, cs = front ++ (clock ++ offset) ∧ front.length = 11 ∧
      (∀ c ∈ clock, Instant.isSign c = false) ∧ strictOffset? offset = some (seconds, rest) ∧
      ∃ dt : LocalDateTime, (0 ≤ dt.date.year ∧ dt.date.year < 10000) ∧
        i = ⟨dt.shift (-seconds)⟩ := by
  obtain ⟨⟨year, cs₁⟩, hyear, h⟩ := Option.bind_eq_some_iff.1 h
  obtain ⟨cs₂, hmark, h⟩ := Option.bind_eq_some_iff.1 h
  obtain ⟨⟨month, cs₃⟩, hmonth, h⟩ := Option.bind_eq_some_iff.1 h
  obtain ⟨cs₄, hmark', h⟩ := Option.bind_eq_some_iff.1 h
  obtain ⟨⟨day, cs₅⟩, hday, h⟩ := Option.bind_eq_some_iff.1 h
  obtain ⟨cs₆, hseparator, h⟩ := Option.bind_eq_some_iff.1 h
  obtain ⟨⟨hour, cs₇⟩, hhour, h⟩ := Option.bind_eq_some_iff.1 h
  obtain ⟨cs₈, hcolon, h⟩ := Option.bind_eq_some_iff.1 h
  obtain ⟨⟨minute, cs₉⟩, hminute, h⟩ := Option.bind_eq_some_iff.1 h
  obtain ⟨cs₁₀, hcolon', h⟩ := Option.bind_eq_some_iff.1 h
  obtain ⟨⟨second, cs₁₁⟩, hsecond, h⟩ := Option.bind_eq_some_iff.1 h
  obtain ⟨⟨nano, cs₁₂⟩, hnano, h⟩ := Option.bind_eq_some_iff.1 h
  obtain ⟨⟨seconds, cs₁₃⟩, hoffset, h⟩ := Option.bind_eq_some_iff.1 h
  obtain ⟨date, hdate, h⟩ := Option.bind_eq_some_iff.1 h
  obtain ⟨time, -, h⟩ := Option.bind_eq_some_iff.1 h
  cases h
  have hlt : year < 10 ^ 4 := lt_of_exactDigits? hyear
  obtain ⟨yearRow, rfl, hyearRow⟩ := eq_of_exactDigits? hyear
  obtain rfl := eq_of_mark? hmark
  obtain ⟨monthRow, rfl, hmonthRow⟩ := eq_of_exactDigits? hmonth
  obtain rfl := eq_of_mark? hmark'
  obtain ⟨dayRow, rfl, hdayRow⟩ := eq_of_exactDigits? hday
  obtain ⟨separator, rfl⟩ := eq_of_strictSeparator? hseparator
  obtain ⟨hourRow, rfl, hhourRow⟩ := eq_of_exactDigits? hhour
  obtain rfl := eq_of_mark? hcolon
  obtain ⟨minuteRow, rfl, hminuteRow⟩ := eq_of_exactDigits? hminute
  obtain rfl := eq_of_mark? hcolon'
  obtain ⟨secondRow, rfl, hsecondRow⟩ := eq_of_exactDigits? hsecond
  obtain ⟨fraction, rfl, hfraction⟩ := eq_of_optionalFraction? hnano
  refine ⟨yearRow ++ '-' :: (monthRow ++ '-' :: (dayRow ++ [separator])),
    (hourRow ++ ':' :: minuteRow) ++ ':' :: (secondRow ++ fraction), cs₁₂, seconds, by simp, ?_,
    ?_, hoffset, ⟨date, time⟩, ?_, rfl⟩
  · simp [Shape.length_of_areDigits hyearRow, Shape.length_of_areDigits hmonthRow,
      Shape.length_of_areDigits hdayRow]
  · intro c hc
    rcases List.mem_append.1 hc with hc | hc
    · exact not_isSign_of_fields hhourRow hminuteRow c hc
    · rcases List.mem_cons.1 hc with rfl | hc
      · decide
      · rcases List.mem_append.1 hc with hc | hc
        · exact not_isSign_of_areDigits hsecondRow c hc
        · exact hfraction c hc
  · simp only [Date.year_of_of? hdate]
    omega

/-- Behind the first eleven characters of a timestamp, a sign has five bytes behind it. -/
theorem eq_of_timestamp? {i : Instant} (h : timestamp? cs = some (i, rest)) :
    ∃ front clock first row, cs = front ++ (clock ++ first :: (row ++ rest)) ∧
      front.length = 11 ∧ (∀ c ∈ clock, Instant.isSign c = false) ∧
      (∀ c ∈ row, Instant.isSign c = false) ∧
      (byteSize row = 5 ∨ row = [] ∧ Instant.isSign first = false) := by
  obtain ⟨front, clock, offset, seconds, rfl, hfront, hclock, hoffset, -⟩ := cases_of_timestamp? h
  obtain ⟨first, row, rfl, hrow, hfirst⟩ := eq_of_strictOffset? hoffset
  exact ⟨front, clock, first, row, rfl, hfront, hclock, hrow, hfirst⟩

end Reading

/-! ## Years of four digits -/

/-- A year without a sign has four digits at most. -/
theorem Reading.lt_of_year? {c : Char} {cs rest : List Char} {year : Int} (hc : isDigit c = true)
    (h : year? (c :: cs) = some (year, rest)) : 0 ≤ year ∧ year < 10000 := by
  have htrim : trimStart (c :: cs) = c :: cs :=
    List.dropWhile_cons_of_neg (by simp [not_isBlank_of_isDigit hc])
  unfold year? at h
  rw [htrim] at h
  split at h
  · next heq =>
    obtain ⟨rfl, -⟩ := List.cons.inj heq
    exact absurd hc (by decide)
  · next heq =>
    obtain ⟨rfl, -⟩ := List.cons.inj heq
    exact absurd hc (by decide)
  · obtain ⟨⟨n, back⟩, hn, heq⟩ := Option.map_eq_some_iff.1 h
    obtain ⟨rfl, rfl⟩ := Prod.mk.inj heq
    simp only [digits?] at hn
    split_ifs at hn
    obtain ⟨rfl, rfl⟩ := Prod.mk.inj (Option.some.inj hn)
    have hlt := ofDigits_lt (List.all_eq_true.1
      (List.all_takeWhile (p := isDigit) (l := (c :: cs).take 4)))
    have hlength : (((c :: cs).take 4).takeWhile isDigit).length ≤ 4 :=
      (List.takeWhile_sublist isDigit).length_le.trans (List.length_take_le 4 _)
    have hpow := Nat.pow_le_pow_right (show 0 < 10 by decide) hlength
    omega

/-- The year of a date that starts with a digit has four digits at most. -/
theorem Reading.year_of_date? {c : Char} {cs rest : List Char} {d : Date} (hc : isDigit c = true)
    (h : date? (c :: cs) = some (d, rest)) : 0 ≤ d.year ∧ d.year < 10000 := by
  obtain ⟨⟨year, back⟩, hyear, h⟩ := Option.bind_eq_some_iff.1 h
  obtain ⟨back₁, -, h⟩ := Option.bind_eq_some_iff.1 h
  obtain ⟨⟨month, back₂⟩, -, h⟩ := Option.bind_eq_some_iff.1 h
  obtain ⟨back₃, -, h⟩ := Option.bind_eq_some_iff.1 h
  obtain ⟨⟨day, back₄⟩, -, h⟩ := Option.bind_eq_some_iff.1 h
  obtain ⟨date, hdate, h⟩ := Option.bind_eq_some_iff.1 h
  cases h
  rw [Date.year_of_of? (Option.filter_eq_some_iff.1 hdate).1]
  exact lt_of_year? hc hyear

/-! ## Offsets that split a character -/

/-- A date-time with an offset of four bytes behind its sign, and no character boundary between the
second byte and the third. -/
inductive SplitsOffset : List Char → Prop
  | intro {date time digits : List Char} {sign : Char} (hdate : Shape.isDate date = true)
    (hsign : Instant.isSign sign = true) (hdigits : ∀ c ∈ digits, Instant.isSign c = false)
    (hsize : byteSize digits = 4) (hcut : splitAtByte 2 digits = none)
    (hzone : digits.getLast? ≠ some ']' ∧ digits.getLast? ≠ some 'Z') :
    SplitsOffset (date ++ 'T' :: (time ++ sign :: digits))

namespace Instant

variable {cs : List Char}

/-- Nothing is cut in a strict timestamp. -/
theorem ofTimestamp?_of_splitsOffset (h : SplitsOffset cs) : ofTimestamp? cs = none := by
  obtain ⟨hdate, hsign, hdigits, hsize, -, -⟩ := h
  next date time digits sign =>
  cases hread : ofTimestamp? (date ++ 'T' :: (time ++ sign :: digits)) with
  | none => rfl
  | some i =>
    unfold ofTimestamp? Reading.whole? at hread
    split at hread
    · next a hread' =>
      obtain ⟨front, clock, first, row, heq, hfront, hclock, hrow, hfirst⟩ :=
        Reading.eq_of_timestamp? hread'
      have hback : time ++ sign :: digits = clock ++ first :: row := by
        have hlength : (date ++ ['T']).length = front.length := by
          simp [Shape.length_of_isDate hdate, hfront]
        have hboth : (date ++ ['T']) ++ (time ++ sign :: digits) =
            front ++ (clock ++ first :: row) := by
          simpa using heq
        exact (List.append_inj hboth hlength).2
      -- The last sign has four bytes behind it, and that of a timestamp has five.
      have hlast : splitLast isSign (time ++ sign :: digits) = some (time, sign :: digits) :=
        splitLast_append hsign hdigits
      rw [hback] at hlast
      cases hfirstSign : isSign first with
      | true =>
        rw [splitLast_append hfirstSign hrow] at hlast
        cases hlast
        simp only [hfirstSign, Bool.true_eq_false, and_false, or_false] at hfirst
        omega
      | false =>
        have hnone : splitLast isSign (clock ++ first :: row) = none := by
          refine splitLast_eq_none_iff.2 fun c hc => ?_
          rcases List.mem_append.1 hc with hc | hc
          · exact hclock c hc
          · rcases List.mem_cons.1 hc with rfl | hc
            · exact hfirstSign
            · exact hrow c hc
        rw [hnone] at hlast
        cases hlast
    · cases hread

/-- The time zone leaves the date of a text and its `T` alone. -/
theorem isPrefix_of_splitZone {date time before : List Char} {zone : Option Zone}
    (hdate : Shape.isDate date = true) (htime : time ≠ [])
    (h : splitZone zones (date ++ 'T' :: time) = .ok (before, zone)) :
    date ++ ['T'] <+: before := by
  have hdropLast : (date ++ 'T' :: time).dropLast = (date ++ ['T']) ++ time.dropLast := by
    obtain ⟨c, time, rfl⟩ := List.exists_cons_of_ne_nil htime
    simp [List.dropLast_append_of_ne_nil]
  unfold splitZone at h
  split at h
  · split at h
    · next before' c name hsplit =>
      split at h
      · cases h
        obtain ⟨c, rest, -, heq, hc, -⟩ := eq_of_splitLast hsplit
        obtain rfl : c = '[' := by simpa using hc
        rw [hdropLast] at heq
        rcases List.append_eq_append_iff.1 heq with ⟨more, rfl, -⟩ | ⟨more, hfront, hback⟩
        · exact List.prefix_append _ more
        · cases more with
          | nil =>
            rw [List.append_nil] at hfront
            exact hfront ▸ List.prefix_rfl
          | cons d more =>
            obtain ⟨rfl, -⟩ := List.cons.inj hback
            have hmem : '[' ∈ date ++ ['T'] := by simp [hfront]
            have hnot :=
              Shape.not_mem_of_isDate hdate (show isDigit '[' = false by decide) (by decide)
            simp [hnot] at hmem
      · cases h
    · cases h
  · cases h
    exact ⟨time.dropLast, hdropLast.symm⟩
  · have hsplit : splitFirst 'T' (date ++ 'T' :: time) = some (date, time) :=
      splitFirst_append (Shape.not_mem_of_isDate hdate (by decide) (by decide))
    rw [hsplit] at h
    simp only at h
    split at h
    · split at h
      · cases h
      · cases h
        simp
    · cases h
      simp

/-- The year of a local date-time that starts with a date has four digits. -/
theorem year_of_readLocal? {date before : List Char} {dt : LocalDateTime}
    (hdate : Shape.isDate date = true) (hstarts : date ++ ['T'] <+: before)
    (h : readLocal? before = some dt) : 0 ≤ dt.date.year ∧ dt.date.year < 10000 := by
  obtain ⟨time, rfl⟩ := hstarts
  rw [List.append_assoc, List.singleton_append] at h
  obtain ⟨⟨date', time'⟩, hsplit, h⟩ := Option.bind_eq_some_iff.1 h
  rw [splitFirst_append (Shape.not_mem_of_isDate hdate (by decide) (by decide))] at hsplit
  obtain ⟨rfl, rfl⟩ := Prod.mk.inj (Option.some.inj hsplit)
  obtain ⟨d, hread, h⟩ := Option.bind_eq_some_iff.1 h
  obtain ⟨clock, -, h⟩ := Option.bind_eq_some_iff.1 h
  obtain ⟨nano, -, h⟩ := Option.bind_eq_some_iff.1 h
  obtain ⟨t, -, h⟩ := Option.bind_eq_some_iff.1 h
  cases h
  obtain ⟨year, month, day, rfl, hyear, -, -⟩ := Shape.eq_of_isDate hdate
  obtain ⟨c, year, rfl⟩ := List.exists_cons_of_length_pos
    (show 0 < year.length by rw [Shape.length_of_areDigits hyear]; decide)
  have hc : isDigit c = true := isDigit_of_areDigits hyear List.mem_cons_self
  unfold Date.read? Reading.whole? at hread
  split at hread
  · next d' hdate' =>
    cases hread
    exact Reading.year_of_date? hc hdate'
  · cases hread

theorem offsetFields?_eq_error_iff {digits : List Char} {f : Fault} :
    offsetFields? digits = .error f ↔
      f = .splitCharacter ∧ byteSize digits = 4 ∧ splitAtByte 2 digits = none := by
  unfold offsetFields?
  split_ifs with h5 h4 h2
  · have hnot : byteSize digits ≠ 4 := by omega
    split <;> simp [hnot]
  · cases splitAtByte 2 digits with
    | none => simp [h4, eq_comm]
    | some parts => simp
  · simp [h4]
  · simp [h4]

theorem readOffset_eq_stopWith_iff {sign : Char} {digits : List Char} {f : Fault} :
    readOffset sign digits = stopWith f ↔
      f = .splitCharacter ∧ byteSize digits = 4 ∧ splitAtByte 2 digits = none := by
  rw [← offsetFields?_eq_error_iff]
  unfold readOffset
  cases offsetFields? digits with
  | error g => simp [stopWith]
  | ok fields =>
    cases fields with
    | none => simp [stopWith, refuse]
    | some parts =>
      simp only [reduceCtorEq, iff_false]
      split_ifs <;> simp [stopWith, refuse]

theorem getLast?_offset {digits : List Char} (hsize : byteSize digits = 4) (date time : List Char)
    (sign : Char) : (date ++ 'T' :: (time ++ sign :: digits)).getLast? = digits.getLast? := by
  have hne : digits ≠ [] := by
    rintro rfl
    cases hsize
  have hsplit : date ++ 'T' :: (time ++ sign :: digits) =
      (date ++ 'T' :: (time ++ [sign])) ++ digits := by simp
  rw [hsplit, List.getLast?_append_of_ne_nil _ hne]

/-- Behind a `T`, the last sign starts an offset, unless the text ends in another zone. -/
theorem splitZone_signed {date time digits : List Char} {sign : Char} (hdate : 'T' ∉ date)
    (hsign : isSign sign = true) (hdigits : ∀ c ∈ digits, isSign c = false)
    (hbracket : (date ++ 'T' :: (time ++ sign :: digits)).getLast? ≠ some ']')
    (hz : (date ++ 'T' :: (time ++ sign :: digits)).getLast? ≠ some 'Z') :
    splitZone zones (date ++ 'T' :: (time ++ sign :: digits)) =
      (readOffset sign digits).map fun offset =>
        (date ++ 'T' :: time, some (Zone.fixed "" offset)) := by
  unfold splitZone
  split
  · next h => exact absurd h hbracket
  · next h => exact absurd h hz
  · simp only [splitFirst_append hdate, splitLast_append hsign hdigits]
    cases readOffset sign digits <;> rfl

/-- Without a sign behind its `T`, a text has no zone of its own, unless it ends in one. -/
theorem splitZone_unsigned {date time : List Char} (hdate : 'T' ∉ date)
    (htime : ∀ c ∈ time, isSign c = false) (hbracket : (date ++ 'T' :: time).getLast? ≠ some ']')
    (hz : (date ++ 'T' :: time).getLast? ≠ some 'Z') :
    splitZone zones (date ++ 'T' :: time) = .ok (date ++ 'T' :: time, none) := by
  unfold splitZone
  split
  · next h => exact absurd h hbracket
  · next h => exact absurd h hz
  · simp only [splitFirst_append hdate, splitLast_eq_none_iff.2 htime]

theorem splitZone_eq_stopWith_iff {f : Fault} (h : Shape.isDateTime cs = true) :
    splitZone zones cs = stopWith f ↔ f = .splitCharacter ∧ SplitsOffset cs := by
  constructor
  · obtain ⟨date, time, rfl, hdate, -⟩ := Shape.isDateTime_iff.1 h
    intro hsplit
    unfold splitZone at hsplit
    split at hsplit
    · split at hsplit
      · split at hsplit <;> cases hsplit
      · cases hsplit
    · cases hsplit
    · next hbracket hz =>
      rw [splitFirst_append (Shape.not_mem_of_isDate hdate (by decide) (by decide))] at hsplit
      simp only at hsplit
      split at hsplit
      · next before sign digits hlast =>
        split at hsplit
        · next e herror =>
          cases hsplit
          obtain ⟨rfl, hsize, hcut⟩ := readOffset_eq_stopWith_iff.1 herror
          obtain ⟨sign', digits', heq, rfl, hsign, hdigits⟩ := eq_of_splitLast hlast
          cases heq
          rw [getLast?_offset hsize] at hbracket hz
          exact ⟨rfl, .intro hdate hsign hdigits hsize hcut ⟨hbracket, hz⟩⟩
        · cases hsplit
      · cases hsplit
  · rintro ⟨rfl, hsplits⟩
    obtain ⟨hdate, hsign, hdigits, hsize, hcut, hzone⟩ := hsplits
    next date time digits sign =>
    have hT := Shape.not_mem_of_isDate hdate (show isDigit 'T' = false by decide) (by decide)
    rw [← getLast?_offset hsize date time sign] at hzone
    rw [splitZone_signed hT hsign hdigits hzone.1 hzone.2,
      readOffset_eq_stopWith_iff.2 ⟨rfl, hsize, hcut⟩]
    rfl

/-- A local date-time of four digits has an instant, or none at all. -/
theorem resolve_ne_stopWith {zone : Zone} {dt : LocalDateTime} {text : String} {f : Fault}
    (hlow : 0 ≤ dt.date.year) (hhigh : dt.date.year < 10000) :
    resolve zone dt text ≠ stopWith f := by
  obtain ⟨hfirst, hlast⟩ := LocalDateTime.toSeconds_of_year hlow (by omega)
  intro h
  unfold resolve at h
  rw [LocalDateTime.plusHour?_of_toSeconds (by omega) (by omega)] at h
  split at h
  · cases h
  · simp only at h
    split at h <;> cases h

theorem read_eq_stopWith_iff {zone : Zone} {f : Fault} (h : Shape.isDateTime cs = true) :
    read zone cs zones = stopWith f ↔ f = .splitCharacter ∧ SplitsOffset cs := by
  unfold read
  cases hstrict : ofTimestamp? cs with
  | some instant =>
    simp only [stopWith, reduceCtorEq, false_iff, not_and]
    intro _ hsplits
    rw [ofTimestamp?_of_splitsOffset hsplits] at hstrict
    cases hstrict
  | none =>
    rw [← splitZone_eq_stopWith_iff h]
    cases hzone : splitZone zones cs with
    | error e => simp only [stopWith, Except.error.injEq]
    | ok parts =>
      obtain ⟨before, ownZone⟩ := parts
      obtain ⟨date, time, rfl, hdate, htime⟩ := Shape.isDateTime_iff.1 h
      simp only [stopWith, reduceCtorEq, iff_false]
      split
      · simp [refuse]
      · next dt hlocal =>
        obtain ⟨hlow, hhigh⟩ :=
          year_of_readLocal? hdate (isPrefix_of_splitZone hdate htime hzone) hlocal
        exact resolve_ne_stopWith hlow hhigh

end Instant

namespace Literal

variable {cs : List Char} {quoted : Bool} {op : Operator} {f : Fault}

theorem isDateTime_of_splitsOffset (h : SplitsOffset cs) : Shape.isDateTime cs = true := by
  obtain ⟨hdate, -, -, -, -, -⟩ := h
  next date time digits sign =>
  exact Shape.isDateTime_iff.2 ⟨date, time ++ sign :: digits, rfl, hdate, by simp⟩

theorem isZoned_of_splitsOffset (h : SplitsOffset cs) : isZoned cs = true := by
  obtain ⟨hdate, hsign, -, -, -, -⟩ := h
  simp [isZoned, List.drop_append, Shape.length_of_isDate hdate, hsign]

theorem orInvalid_ne_stopWith {value : Option Value} : orInvalid cs value ≠ stopWith f := by
  cases value <;> simp [orInvalid, refuse, stopWith]

theorem coerce_ne_stopWith (h : Shape.isDateTime cs = false) :
    coerce zones cs false op ≠ stopWith f := by
  unfold coerce
  simp only [Bool.false_eq_true, if_false]
  cases hshape : Shape.ofText cs with
  | number => cases hnumber : number cs <;> simp [orRefuse, refuse, stopWith]
  | dateTime =>
    have hdateTime : Shape.isDateTime cs = true := Shape.recognises_of_ofText hshape (by decide)
    rw [hdateTime] at h
    cases h
  | date => exact orInvalid_ne_stopWith
  | time => exact orInvalid_ne_stopWith
  | year => simp [stopWith]
  | monthDay => exact orInvalid_ne_stopWith
  | string => simp [stopWith]

/-- Only the offset of a bare date-time is cut where it should not be. -/
theorem coerce_eq_stopWith_iff :
    coerce zones cs quoted op = stopWith f ↔
      f = .splitCharacter ∧ quoted = false ∧ SplitsOffset cs := by
  cases quoted with
  | true => simp [coerce, stopWith]
  | false =>
    rw [eq_self, true_and]
    cases hdateTime : Shape.isDateTime cs with
    | false =>
      refine iff_of_false (coerce_ne_stopWith hdateTime) ?_
      rintro ⟨-, hsplits⟩
      rw [isDateTime_of_splitsOffset hsplits] at hdateTime
      cases hdateTime
    | true =>
      have hshape : Shape.ofText cs = .dateTime := Shape.ofText_of_recognises hdateTime
      simp only [coerce, Bool.false_eq_true, if_false, hshape]
      cases hzoned : isZoned cs with
      | false =>
        refine iff_of_false orInvalid_ne_stopWith ?_
        rintro ⟨-, hsplits⟩
        rw [isZoned_of_splitsOffset hsplits] at hzoned
        cases hzoned
      | true =>
        rw [← @Instant.read_eq_stopWith_iff zones cs Zone.utc f hdateTime, if_pos rfl]
        cases Instant.read Zone.utc cs zones with
        | ok instant => simp [stopWith]
        | error e => cases e <;> simp [Failure.map, stopWith]

end Literal

end FilterQuery
