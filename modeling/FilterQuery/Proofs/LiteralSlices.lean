import FilterQuery.Literal
import FilterQuery.Token
import FilterQuery.Proofs.Shapes
import FilterQuery.Proofs.Slices

set_option autoImplicit false

/-! # Literals in their UTF-8 form

The library reads literals from their characters. Here they are read from their bytes: every part is
a `slice` between two offsets, and some marks are looked up as single bytes. Each reader has a guard
on the number of bytes in front of its cuts, and the guard has to be enough, whatever characters the
text has. It is: the readers agree with those on characters (`coerceBytes_eq`), so none of these
cuts ever goes wrong, save one that `offsetFields?` shares. -/

namespace FilterQuery

open FilterQuery.Text

variable {zones : Zone.Database}

/-! ## Lines -/

/-- The position behind a text, its last line being cut out behind the line break. -/
def Position.afterBytes (before : List Char) : Except Fault Position := do
  let start := ((lastOffset? (· == '\n') before).map (· + 1)).getD 0
  let line ← slice start (byteSize before) before
  return ⟨before.count '\n' + 1, line.length⟩

theorem Position.afterBytes_eq (before : List Char) : afterBytes before = .ok (after before) := by
  have hcolumn : ∀ {line : List Char}, (∀ c ∈ line, (c == '\n') = false) → ∀ back : List Char,
      (line.reverse ++ back).takeWhile (· != '\n') =
        line.reverse ++ back.takeWhile (· != '\n') := by
    intro line hline back
    refine List.takeWhile_append_of_pos fun c hc => ?_
    simpa using hline c (List.mem_reverse.1 hc)
  unfold afterBytes after
  rw [lastOffset?_eq]
  cases hsplit : splitLast (· == '\n') before with
  | none =>
    have hslice := slice_to before []
    have hline := hcolumn (splitLast_eq_none_iff.1 hsplit) []
    rw [List.append_nil] at hslice hline
    rw [hline]
    simp [hslice, pure, Except.pure]
  | some parts =>
    obtain ⟨front, line⟩ := parts
    obtain ⟨c, rest, rfl, rfl, hc, hrest⟩ := eq_of_splitLast hsplit
    obtain rfl : c = '\n' := by simpa using hc
    have hslice := (slices_at_mark (show isAscii '\n' = true by decide) front rest).2
    have hline := hcolumn hrest ('\n' :: front.reverse)
    simp only [Option.map_some, Option.getD_some, hslice, ok_bind, List.reverse_append,
      List.reverse_cons, List.append_assoc, List.singleton_append, hline]
    simp [pure, Except.pure]

/-! ## Date-times in front of a zone name -/

/-- A bare literal that a bracketed zone name may follow. -/
def Token.looksLikeDateTimeBytes (raw : List Char) : Except Fault Bool :=
  if 16 ≤ byteSize raw then do
    let year ← bytesTo 4 raw
    let mark ← byteAt 10 raw
    return year.all isDigitByte && mark == 'T'.toNat && raw.contains ':'
  else return false

theorem Token.looksLikeDateTimeBytes_eq (raw : List Char) :
    looksLikeDateTimeBytes raw = .ok (looksLikeDateTime raw) := by
  unfold looksLikeDateTimeBytes looksLikeDateTime
  by_cases hsize : 16 ≤ byteSize raw
  · have hyear : bytesTo 4 raw = .ok ((encodeUtf8 raw).take 4) :=
      if_pos (by rw [length_encodeUtf8]; omega)
    obtain ⟨mark, hmark⟩ := exists_byteAt (show 10 < byteSize raw by omega)
    simp only [hsize, if_true, hyear, hmark, ok_bind, all_take_encodeUtf8 4 raw (by omega),
      beq_of_byteAt (show isAscii 'T' = true by decide) hmark]
    simp [pure, Except.pure]
  · simp [hsize, pure, Except.pure]

namespace Shape

variable {cs : List Char}

/-! ## Shapes -/

/-- `dddd-dd-dd` -/
def isDateBytes (cs : List Char) : Except Fault Bool :=
  if byteSize cs = 10 ∧ cs.all isAscii then do
    let year ← slice 0 4 cs
    let firstMark ← slice 4 5 cs
    let month ← slice 5 7 cs
    let secondMark ← slice 7 8 cs
    let day ← slice 8 (byteSize cs) cs
    return areDigits 4 year && firstMark == ['-'] && areDigits 2 month && secondMark == ['-'] &&
      areDigits 2 day
  else return false

/-- A date, `T` and something behind it. -/
def isDateTimeBytes (cs : List Char) : Except Fault Bool :=
  if 11 < byteSize cs ∧ (splitAtByte 10 cs).isSome then do
    let front ← slice 0 10 cs
    if ← isDateBytes front then
      let mark ← byteAt 10 cs
      return mark == 'T'.toNat
    else return false
  else return false

/-- `dd-dd` -/
def isDayInMonthBytes (body : List Char) : Except Fault Bool :=
  if byteSize body = 5 ∧ body.all isAscii then do
    let month ← slice 0 2 body
    let mark ← slice 2 3 body
    let day ← slice 3 (byteSize body) body
    return areDigits 2 month && mark == ['-'] && areDigits 2 day
  else return false

/-- `dd-dd`, with two hyphens in front or none -/
def isMonthDayBytes (cs : List Char) : Except Fault Bool :=
  isDayInMonthBytes <| match cs with
    | '-' :: '-' :: rest => rest
    | _ => cs

/-- The shape of a bare literal. -/
def ofBytes (cs : List Char) : Except Fault Shape :=
  if isNumber cs then return .number
  else do
    if ← isDateTimeBytes cs then return .dateTime
    else if ← isDateBytes cs then return .date
    else if isTime cs then return .time
    else if isYear cs then return .year
    else if ← isMonthDayBytes cs then return .monthDay
    else return .string

/-- One character that is cut out is the character there. -/
theorem take_one_drop_beq (cs : List Char) (n : Nat) (c : Char) :
    ((cs.drop n).take 1 == [c]) = (cs[n]? == some c) := by
  rw [List.take_one, List.head?_drop]
  cases cs[n]? <;> simp

theorem isAscii_of_areDigits {n : Nat} (h : areDigits n cs = true) : cs.all isAscii = true :=
  List.all_eq_true.2 fun _ hc => isAscii_of_isDigit (isDigit_of_areDigits h hc)

/-- A date has digits and hyphens only. -/
theorem not_mem_of_isDate {c : Char} (h : isDate cs = true) (hdigit : isDigit c = false)
    (hc : c ≠ '-') : c ∉ cs := by
  obtain ⟨year, month, day, rfl, hyear, hmonth, hday⟩ := eq_of_isDate h
  have hrow : ∀ {n : Nat} {row : List Char}, areDigits n row = true → c ∉ row := by
    intro n row hrow
    exact not_mem_of_isDigit (fun _ hd => isDigit_of_areDigits hrow hd) hdigit
  simp [hrow hyear, hrow hmonth, hrow hday, hc]

theorem isAscii_of_isDate (h : isDate cs = true) : cs.all isAscii = true := by
  obtain ⟨year, month, day, rfl, hyear, hmonth, hday⟩ := eq_of_isDate h
  simp [isAscii_of_areDigits hyear, isAscii_of_areDigits hmonth, isAscii_of_areDigits hday,
    show isAscii '-' = true by decide]

theorem isDateBytes_eq (cs : List Char) : isDateBytes cs = .ok (isDate cs) := by
  unfold isDateBytes
  split_ifs with h
  · obtain ⟨hsize, hascii⟩ := h
    have hlength : cs.length = 10 := (byteSize_of_isAscii hascii).symm.trans hsize
    have hday : (cs.drop 8).take 2 = cs.drop 8 := List.take_of_length_le (by simp [hlength])
    simp only [hsize, slice_of_isAscii hascii, hlength, ok_bind, Nat.reduceLeDiff, Nat.le_refl,
      Nat.reduceSub, List.drop_zero, take_one_drop_beq, hday]
    simp [isDate, hlength, pure, Except.pure]
  · cases hdate : isDate cs with
    | false => rfl
    | true =>
      have hascii := isAscii_of_isDate hdate
      exact absurd ⟨(byteSize_of_isAscii hascii).trans (length_of_isDate hdate), hascii⟩ h

/-- A date has as many bytes as characters. -/
theorem byteSize_of_isDate (h : isDate cs = true) : byteSize cs = 10 :=
  (byteSize_of_isAscii (isAscii_of_isDate h)).trans (length_of_isDate h)

/-- A text of more than eleven bytes is a date-time if there is a date in front of its tenth byte
and a `T` behind it. -/
theorem isDateTime_append {front back : List Char} (hfront : byteSize front = 10)
    (hsize : 11 < byteSize (front ++ back)) :
    isDateTime (front ++ back) = (isDate front && back.head? == some 'T') := by
  rw [Bool.eq_iff_iff, isDateTime_iff]
  constructor
  · rintro ⟨date, time, heq, hdate, -⟩
    -- A date has ten bytes, so both cuts are at the same place.
    have hcut := splitAtByte_eq_some_iff.2 ⟨heq, byteSize_of_isDate hdate⟩
    rw [splitAtByte_eq_some_iff.2 ⟨rfl, hfront⟩] at hcut
    cases hcut
    simp [hdate]
  · intro h
    obtain ⟨hdate, time, rfl⟩ : isDate front = true ∧ ∃ time, back = 'T' :: time := by
      simpa [List.head?_eq_some_iff] using h
    refine ⟨front, time, rfl, hdate, ?_⟩
    rintro rfl
    rw [byteSize_append, hfront] at hsize
    exact absurd hsize (by decide)

theorem isDateTimeBytes_eq (cs : List Char) : isDateTimeBytes cs = .ok (isDateTime cs) := by
  unfold isDateTimeBytes
  split_ifs with h
  · obtain ⟨hsize, hsome⟩ := h
    obtain ⟨⟨front, back⟩, hsplit⟩ := Option.isSome_iff_exists.1 hsome
    obtain ⟨rfl, hfront⟩ := splitAtByte_eq_some_iff.1 hsplit
    have hslice : slice 0 10 (front ++ back) = .ok front := hfront ▸ slice_to front back
    obtain ⟨mark, hmark⟩ := exists_byteAt (show 10 < byteSize (front ++ back) by omega)
    have hbeq := beq_of_byteAt (show isAscii 'T' = true by decide) hmark
    rw [hsplit, Option.any_some] at hbeq
    simp only [hslice, ok_bind, isDateBytes_eq, hmark, hbeq, isDateTime_append hfront hsize]
    cases isDate front <;> rfl
  · cases hdateTime : isDateTime cs with
    | false => rfl
    | true =>
      obtain ⟨date, time, rfl, hdate, htime⟩ := isDateTime_iff.1 hdateTime
      have hfront := byteSize_of_isDate hdate
      refine absurd ⟨?_, ?_⟩ h
      · obtain ⟨c, time, rfl⟩ := List.exists_cons_of_ne_nil htime
        have hpos := Char.utf8Size_pos c
        simp only [byteSize_append, byteSize, hfront, show Char.utf8Size 'T' = 1 by decide]
        omega
      · rw [← hfront, splitAtByte_byteSize]
        rfl

/-- `dd-dd` has as many bytes as characters. -/
theorem isAscii_of_monthDay {body : List Char} (hmonth : areDigits 2 (body.take 2) = true)
    (hmark : body[2]? = some '-') (hday : areDigits 2 (body.drop 3) = true) :
    body.all isAscii = true := by
  rw [← List.take_append_drop 2 body, drop_eq_cons hmark]
  simp [isAscii_of_areDigits hmonth, isAscii_of_areDigits hday, show isAscii '-' = true by decide]

theorem isDayInMonthBytes_eq (body : List Char) : isDayInMonthBytes body =
    .ok (body.length == 5 && areDigits 2 (body.take 2) && body[2]? == some '-' &&
      areDigits 2 (body.drop 3)) := by
  unfold isDayInMonthBytes
  split_ifs with h
  · obtain ⟨hsize, hascii⟩ := h
    have hlength : body.length = 5 := (byteSize_of_isAscii hascii).symm.trans hsize
    have hday : (body.drop 3).take 2 = body.drop 3 := List.take_of_length_le (by simp [hlength])
    simp only [hsize, slice_of_isAscii hascii, hlength, ok_bind, Nat.reduceLeDiff, Nat.le_refl,
      Nat.reduceSub, List.drop_zero, take_one_drop_beq, hday]
    simp [pure, Except.pure]
  · refine congrArg Except.ok (Bool.eq_false_iff.2 fun hshape => h ?_).symm
    simp only [Bool.and_eq_true, beq_iff_eq] at hshape
    obtain ⟨⟨⟨hlength, hmonth⟩, hmark⟩, hday⟩ := hshape
    have hascii := isAscii_of_monthDay hmonth hmark hday
    exact ⟨(byteSize_of_isAscii hascii).trans hlength, hascii⟩

theorem isMonthDayBytes_eq (cs : List Char) : isMonthDayBytes cs = .ok (isMonthDay cs) :=
  isDayInMonthBytes_eq _

theorem ofBytes_eq (cs : List Char) : ofBytes cs = .ok (ofText cs) := by
  simp only [ofBytes, ofText, isDateTimeBytes_eq, isDateBytes_eq, isMonthDayBytes_eq, ok_bind]
  split_ifs <;> rfl

/-- The parts of a day of a month behind its hyphens. -/
theorem dropWhile_of_isMonthDay (h : isMonthDay cs = true) :
    ∃ month day, cs.dropWhile (· == '-') = month ++ '-' :: day ∧ areDigits 2 month = true ∧
      areDigits 2 day = true := by
  obtain ⟨hyphens, month, day, rfl, hhyphens, hmonth, hday⟩ := eq_of_isMonthDay h
  refine ⟨month, day, ?_, hmonth, hday⟩
  have hfront : ∀ c ∈ hyphens, (c == '-') = true := by
    rcases hhyphens with rfl | rfl <;> simp
  obtain ⟨c, rest, rfl⟩ := List.exists_cons_of_length_pos
    (show 0 < month.length by rw [length_of_areDigits hmonth]; decide)
  have hne := ne_of_isDigit (isDigit_of_areDigits hmonth List.mem_cons_self)
    (show isDigit '-' = false by decide)
  rw [List.dropWhile_append_of_pos hfront, List.cons_append,
    List.dropWhile_cons_of_neg (by simpa using hne)]

end Shape

/-! ## Instants -/

namespace Instant

/-- Hours and minutes of an offset behind its sign. -/
def offsetFieldsBytes (digits : List Char) : Except Fault (Option (List Char × List Char)) :=
  if byteSize digits = 5 then do
    let mark ← byteAt 2 digits
    if mark == ':'.toNat then
      let hours ← slice 0 2 digits
      let minutes ← slice 3 (byteSize digits) digits
      return some (hours, minutes)
    else return none
  else if byteSize digits = 4 then do
    let hours ← slice 0 2 digits
    let minutes ← slice 2 (byteSize digits) digits
    return some (hours, minutes)
  else if byteSize digits = 2 then return some (digits, ['0', '0'])
  else return none

/-- The seconds of an offset, its sign being the first byte. -/
def readOffsetBytes (text : List Char) : Except (Failure DateTimeError) Int := do
  let invalid := refuse (.invalidOffset (String.ofList text))
  let sign ← orStop (slice 0 1 text)
  let digits ← orStop (slice 1 (byteSize text) text)
  if sign = ['+'] ∨ sign = ['-'] then
    match ← orStop (offsetFieldsBytes digits) with
    | none => invalid
    | some (hours, minutes) =>
      if (hours ++ minutes).all isDigit && ofDigits hours ≤ maxOffsetHours &&
          ofDigits minutes ≤ 59 then
        let seconds : Nat := 3600 * ofDigits hours + 60 * ofDigits minutes
        return if sign = ['-'] then -seconds else seconds
      else invalid
  else invalid

/-- Take off a zone name in brackets, the last of which has been found. -/
def splitNameBytes (zones : Zone.Database) (cs : List Char) :
    Except (Failure DateTimeError) (List Char × Option Zone) :=
  match lastOffset? (· == '[') cs.dropLast with
  | none => refuse (.invalidFormat (String.ofList cs))
  | some opening => do
    let name ← orStop (slice (opening + 1) (byteSize cs.dropLast) cs.dropLast)
    match zones.find? (String.ofList name) with
    | none => refuse (.unknownZone (String.ofList name))
    | some zone =>
      let before ← orStop (slice 0 opening cs.dropLast)
      return (before, some zone)

/-- Take off an offset, if there is a sign behind the `T`. -/
def splitOffsetBytes (cs : List Char) : Except (Failure DateTimeError) (List Char × Option Zone) :=
  match firstOffset? (· == 'T') cs with
  | none => .ok (cs, none)
  | some timeStart => do
    let time ← orStop (slice timeStart (byteSize cs) cs)
    match lastOffset? isSign time with
    | none => return (cs, none)
    | some distance =>
      let text ← orStop (slice (timeStart + distance) (byteSize cs) cs)
      let offset ← readOffsetBytes text
      let before ← orStop (slice 0 (timeStart + distance) cs)
      return (before, some (Zone.fixed "" offset))

/-- Take the zone off the end of a text. -/
def splitZoneBytes (zones : Zone.Database) (cs : List Char) :
    Except (Failure DateTimeError) (List Char × Option Zone) :=
  match cs.getLast? with
  | some ']' => splitNameBytes zones cs
  | some 'Z' => .ok (cs.dropLast, some Zone.utc)
  | _ => splitOffsetBytes cs

/-- Read an instant; a local date-time without a zone belongs to `zone`. -/
def readBytes (zone : Zone) (cs : List Char) (zones : Zone.Database) :
    Except (Failure DateTimeError) Instant :=
  match ofTimestamp? cs with
  | some instant => .ok instant
  | none => do
    let (before, ownZone) ← splitZoneBytes zones cs
    match readLocal? before with
    | none => refuse (.invalidFormat (String.ofList cs))
    | some dt => resolve (ownZone.getD zone) dt (String.ofList cs)

theorem offsetFieldsBytes_eq (digits : List Char) :
    offsetFieldsBytes digits = offsetFields? digits := by
  unfold offsetFieldsBytes offsetFields?
  split_ifs with h5 h4 h2
  · obtain ⟨mark, hmark⟩ := exists_byteAt (show 2 < byteSize digits by omega)
    have hbeq := beq_of_byteAt (show isAscii ':' = true by decide) hmark
    simp only [hmark, ok_bind, hbeq]
    by_cases hcolon : ∃ hours minutes, splitAtByte 2 digits = some (hours, ':' :: minutes)
    · obtain ⟨hours, minutes, hsplit⟩ := hcolon
      obtain ⟨rfl, hhours⟩ := splitAtByte_eq_some_iff.1 hsplit
      obtain ⟨hbefore, hafter⟩ := slices_at_mark (show isAscii ':' = true by decide) hours minutes
      rw [hhours] at hbefore hafter
      simp only [hsplit, hbefore, hafter, ok_bind]
      rfl
    · have hany : ((splitAtByte 2 digits).any fun parts => parts.2.head? == some ':') = false := by
        rw [Bool.eq_false_iff]
        intro hany
        cases hsplit : splitAtByte 2 digits with
        | none => simp [hsplit] at hany
        | some parts =>
          obtain ⟨minutes, hminutes⟩ : ∃ minutes, parts.2 = ':' :: minutes := by
            simpa [hsplit, List.head?_eq_some_iff] using hany
          exact hcolon ⟨parts.1, minutes, by rw [hsplit, ← hminutes]⟩
      rw [hany, if_neg (by decide)]
      split
      · next hours minutes hsplit => exact absurd ⟨hours, minutes, hsplit⟩ hcolon
      · rfl
  · split
    · next hours minutes hsplit =>
      obtain ⟨rfl, hhours⟩ := splitAtByte_eq_some_iff.1 hsplit
      have hbefore := slice_to hours minutes
      have hafter := slice_from hours minutes
      rw [hhours] at hbefore hafter
      simp only [hbefore, hafter, ok_bind]
      rfl
    · next hsplit => rw [slice_to_eq_error hsplit, error_bind]
  · rfl
  · rfl

theorem isAscii_of_isSign {sign : Char} (h : isSign sign = true) : isAscii sign = true := by
  rw [isSign, Bool.or_eq_true, beq_iff_eq, beq_iff_eq] at h
  rcases h with rfl | rfl <;> decide

theorem readOffsetBytes_eq {sign : Char} (hsign : isSign sign = true) (digits : List Char) :
    readOffsetBytes (sign :: digits) = readOffset sign digits := by
  have hsize : byteSize [sign] = 1 := byteSize_of_isAscii (by simp [isAscii_of_isSign hsign])
  have hfirst : slice 0 1 (sign :: digits) = .ok [sign] := hsize ▸ slice_to [sign] digits
  have hrest := (slices_at_mark (isAscii_of_isSign hsign) [] digits).2
  have hsigns : [sign] = ['+'] ∨ [sign] = ['-'] := by simpa [isSign] using hsign
  simp only [List.nil_append, byteSize, Nat.zero_add] at hrest
  simp only [readOffsetBytes, byteSize, hfirst, hrest, orStop, ok_bind, if_pos hsigns,
    offsetFieldsBytes_eq, readOffset]
  cases offsetFields? digits with
  | error fault => rfl
  | ok fields =>
    cases fields with
    | none => rfl
    | some parts =>
      obtain ⟨hours, minutes⟩ := parts
      simp only [ok_bind, List.cons.injEq, and_true]
      rfl

theorem splitNameBytes_eq (cs : List Char) : splitNameBytes zones cs =
    match splitLast (· == '[') cs.dropLast with
    | some (before, _ :: name) =>
      match zones.find? (String.ofList name) with
      | some zone => .ok (before, some zone)
      | none => refuse (.unknownZone (String.ofList name))
    | _ => refuse (.invalidFormat (String.ofList cs)) := by
  unfold splitNameBytes
  rw [lastOffset?_eq]
  cases hsplit : splitLast (· == '[') cs.dropLast with
  | none => rfl
  | some parts =>
    obtain ⟨before, after⟩ := parts
    obtain ⟨c, name, rfl, heq, hc, -⟩ := eq_of_splitLast hsplit
    obtain rfl : c = '[' := by simpa using hc
    obtain ⟨hbefore, hname⟩ := slices_at_mark (show isAscii '[' = true by decide) before name
    simp only [Option.map_some, heq, hbefore, hname, orStop, ok_bind]
    cases zones.find? (String.ofList name) <;> rfl

theorem splitOffsetBytes_eq (cs : List Char) : splitOffsetBytes cs =
    match splitFirst 'T' cs with
    | none => .ok (cs, none)
    | some (date, time) =>
      match splitLast isSign time with
      | some (before, sign :: digits) =>
        match readOffset sign digits with
        | .error e => .error e
        | .ok offset => .ok (date ++ 'T' :: before, some (Zone.fixed "" offset))
      | _ => .ok (cs, none) := by
  unfold splitOffsetBytes
  rw [firstOffset?_eq]
  cases hfirst : splitFirst 'T' cs with
  | none => rfl
  | some parts =>
    obtain ⟨date, time⟩ := parts
    obtain ⟨rfl, -⟩ := eq_of_splitFirst hfirst
    simp only [Option.map_some, slice_from, orStop, ok_bind, lastOffset?_eq, splitLast]
    cases hlast : splitLast isSign time with
    | none => rfl
    | some parts =>
      obtain ⟨before, after⟩ := parts
      obtain ⟨sign, digits, rfl, rfl, hsign, -⟩ := eq_of_splitLast hlast
      have hbefore := slice_to (date ++ 'T' :: before) (sign :: digits)
      have htext := slice_from (date ++ 'T' :: before) (sign :: digits)
      rw [List.append_assoc, List.cons_append, byteSize_append] at hbefore htext
      simp only [Option.map_some, hbefore, htext, ok_bind, readOffsetBytes_eq hsign]
      cases readOffset sign digits <;> rfl

theorem splitZoneBytes_eq (cs : List Char) : splitZoneBytes zones cs = splitZone zones cs := by
  unfold splitZoneBytes
  rw [splitNameBytes_eq, splitOffsetBytes_eq]
  rfl

theorem readBytes_eq (zone : Zone) (cs : List Char) :
    readBytes zone cs zones = read zone cs zones := by
  unfold readBytes read
  rw [splitZoneBytes_eq]
  cases ofTimestamp? cs with
  | some instant => rfl
  | none =>
    cases splitZone zones cs with
    | error e => rfl
    | ok parts => rfl

end Instant

namespace Literal

/-! ## Values -/

/-- The value of a literal under an operator. Only date-times and days of a month are cut. -/
def coerceBytes (zones : Zone.Database) (cs : List Char) (quoted : Bool) (op : Operator) :
    Except (Failure LiteralError) Value := do
  let shape ← if quoted then pure .string else orStop (Shape.ofBytes cs)
  match shape with
  | .dateTime =>
    let time ← orStop (slice 11 (byteSize cs) cs)
    if cs.getLast? == some 'Z' || cs.getLast? == some ']' || time.any Instant.isSign then
      match Instant.readBytes Zone.utc cs zones with
      | .ok instant => return .instant instant
      | .error e => .error (e.map .dateTime)
    else orInvalid cs ((LocalDateTime.read? cs).map .dateTime)
  | .monthDay =>
    let body := cs.dropWhile (· == '-')
    let month ← orStop (slice 0 2 body)
    let day ← orStop (slice 3 (byteSize body) body)
    orInvalid cs ((MonthDay.of? (ofDigits month) (ofDigits day)).map .monthDay)
  | _ => coerce zones cs quoted op

theorem coerceBytes_eq (cs : List Char) (quoted : Bool) (op : Operator) :
    coerceBytes zones cs quoted op = coerce zones cs quoted op := by
  cases quoted with
  | true => rfl
  | false =>
    unfold coerceBytes
    simp only [Shape.ofBytes_eq, orStop, ok_bind, Bool.false_eq_true, if_false]
    cases hshape : Shape.ofText cs
    case dateTime =>
      have hisDateTime : Shape.isDateTime cs = true := Shape.recognises_of_ofText hshape (by decide)
      obtain ⟨date, time, rfl, hdate, -⟩ := Shape.isDateTime_iff.1 hisDateTime
      have htime := (slices_at_mark (show isAscii 'T' = true by decide) date time).2
      have hdrop : (date ++ 'T' :: time).drop 11 = time := by
        simp [List.drop_append, Shape.length_of_isDate hdate]
      rw [Shape.byteSize_of_isDate hdate] at htime
      simp only [htime, ok_bind, Instant.readBytes_eq, coerce, isZoned, hshape, hdrop]
      rfl
    case monthDay =>
      obtain ⟨month, day, hbody, hmonth, hday⟩ :=
        Shape.dropWhile_of_isMonthDay (Shape.recognises_of_ofText hshape (by decide))
      have hlength := Shape.length_of_areDigits hmonth
      obtain ⟨hfirst, hsecond⟩ := slices_at_mark (show isAscii '-' = true by decide) month day
      rw [byteSize_of_isAscii (Shape.isAscii_of_areDigits hmonth), hlength] at hfirst hsecond
      have htake : (month ++ '-' :: day).take 2 = month := List.take_left' hlength
      have hdrop : (month ++ '-' :: day).drop 3 = day := by
        simp [List.drop_append, hlength]
      simp only [hbody, hfirst, hsecond, ok_bind, coerce, hshape, htake, hdrop]
      rfl
    all_goals rfl

end Literal

end FilterQuery
