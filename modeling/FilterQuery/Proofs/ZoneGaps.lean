import FilterQuery.Calendar.Zone.Table
import FilterQuery.Proofs.DayCount
import FilterQuery.Proofs.LiteralFaults

set_option autoImplicit false

/-! # Gaps of a zone

Where the offset of a zone rises, the clock skips as much as it rises by. These are the only
date-times that a zone does not have (`Zone.localOffsets_eq_nil_iff`). Behind the gap the clock runs
on with the new offset until the next change, so a date-time of the gap that is moved forward by the
length of the gap exists, and once only.

A skipped date-time is read one hour later, whatever the length of its gap. So it is moved by the
length of the gap if and only if the gap is an hour long (`Instant.read_skipped`). -/

namespace FilterQuery

open FilterQuery.Text

variable {zones : Zone.Database}

namespace Zone

/-! ## Regular zones -/

/-- No change of the clock comes before this reading, about 220000 years before 1970. -/
def earliest : Int := -7000000000000

/-- No change of the clock comes behind this reading. -/
def latest : Int := 7000000000000

/-- On the clock, a change begins when the one before is over, and an hour later at the earliest, or
later by as much as the clock went forward if that is more. The clock shows `floor` or more when the
first change begins. -/
def spaced (floor offset : Int) : List Transition → Bool
  | [] => decide (floor ≤ latest)
  | t :: rest =>
    decide (floor ≤ t.start + min offset t.offset) &&
      spaced (t.start + max offset t.offset + max 3600 (t.offset - offset)) t.offset rest

/-- The changes of the clock are far enough from each other to tell which one a reading is at. -/
structure Regular (z : Zone) : Prop where
  belowDay : z.BelowDay
  spaced : spaced earliest z.initial z.transitions = true

theorem regular_fixed {name : String} {offset : Int} (hlow : -86400 < offset)
    (hhigh : offset < 86400) : (fixed name offset).Regular where
  belowDay := by simpa [BelowDay, offsets, fixed] using ⟨hlow, hhigh⟩
  spaced := rfl

theorem regular_of_mem_all {z : Zone} (h : z ∈ all) : z.Regular := by
  have hall : (all.all fun z =>
      decide z.BelowDay && Zone.spaced earliest z.initial z.transitions) = true := by
    decide +kernel
  have hz := List.all_eq_true.1 hall z h
  simp only [Bool.and_eq_true, decide_eq_true_eq] at hz
  exact ⟨hz.1, hz.2⟩

/-! ## Gaps -/

/-- The offset behind some changes of the clock. -/
def lastOffset (offset : Int) (ts : List Transition) : Int :=
  ts.foldl (fun _ t => t.offset) offset

/-- A change at which the clock goes forward, between those before it and those behind it. -/
structure Gap (z : Zone) where
  earlier : List Transition
  change : Transition
  later : List Transition
  transitions_eq : z.transitions = earlier ++ change :: later
  rises : lastOffset z.initial earlier < change.offset

namespace Gap

variable {z : Zone} (gap : z.Gap)

/-- The offset in force up to the gap. -/
def previous : Int := lastOffset z.initial gap.earlier

/-- The seconds that the clock skips. -/
def length : Int := gap.change.offset - gap.previous

/-- The clock goes from below this reading to one above it. -/
def Skips (dt : LocalDateTime) : Prop :=
  gap.change.start + gap.previous ≤ dt.toSeconds ∧
    dt.toSeconds < gap.change.start + gap.change.offset

instance (dt : LocalDateTime) : Decidable (gap.Skips dt) := inferInstanceAs (Decidable (_ ∧ _))

end Gap

/-! ## Offsets around a change -/

section Offsets

variable {clock floor offset : Int} {behindStart : Int → Bool} {change : Transition}
  {earlier later ts : List Transition}

theorem spaced_cons {t : Transition} : spaced floor offset (t :: ts) = true ↔
    floor ≤ t.start + min offset t.offset ∧
      spaced (t.start + max offset t.offset + max 3600 (t.offset - offset)) t.offset ts = true := by
  simp [spaced]

/-- Below the next change there is only the offset in force. -/
theorem offsetsFrom_of_lt (hts : spaced floor offset ts = true) (hclock : clock < floor) :
    offsetsFrom clock behindStart offset ts =
      if behindStart (clock - offset) then [offset] else [] := by
  induction ts generalizing floor offset behindStart with
  | nil => rfl
  | cons t ts ih =>
    obtain ⟨hfloor, hts⟩ := spaced_cons.1 hts
    have hin : clock - offset < t.start := by omega
    have hbefore : ¬t.start ≤ clock - t.offset := by omega
    simp [offsetsFrom, ih hts (show clock < _ by omega), hin, hbefore]

/-- The changes in front of a change are over when it begins. -/
theorem le_of_spaced (h : spaced floor offset (earlier ++ change :: later) = true) :
    floor ≤ change.start + min (lastOffset offset earlier) change.offset := by
  induction earlier generalizing floor offset with
  | nil => exact (spaced_cons.1 h).1
  | cons t earlier ih =>
    obtain ⟨hfloor, h⟩ := spaced_cons.1 h
    have hchange := ih h
    simp only [lastOffset, List.foldl_cons] at hchange ⊢
    omega

theorem spaced_later (h : spaced floor offset (earlier ++ change :: later) = true) :
    spaced (change.start + max (lastOffset offset earlier) change.offset +
      max 3600 (change.offset - lastOffset offset earlier)) change.offset later = true := by
  induction earlier generalizing floor offset with
  | nil => exact (spaced_cons.1 h).2
  | cons t earlier ih => exact ih (spaced_cons.1 h).2

theorem le_latest_of_spaced (h : spaced floor offset ts = true) : floor ≤ latest := by
  induction ts generalizing floor offset with
  | nil => simpa [spaced] using h
  | cons t ts ih =>
    obtain ⟨hfloor, h⟩ := spaced_cons.1 h
    have := ih h
    omega

/-- Once the offset in front of a change has run out, only those behind it are left. -/
theorem offsetsFrom_append (h : spaced floor offset (earlier ++ change :: later) = true)
    (hclock : change.start + lastOffset offset earlier ≤ clock) :
    offsetsFrom clock behindStart offset (earlier ++ change :: later) =
      offsetsFrom clock (fun seconds => change.start ≤ seconds) change.offset later := by
  induction earlier generalizing floor offset behindStart with
  | nil =>
    have hover : ¬clock - offset < change.start := by
      simp only [lastOffset, List.foldl_nil] at hclock
      omega
    simp [offsetsFrom, hover]
  | cons t earlier ih =>
    obtain ⟨-, h⟩ := spaced_cons.1 h
    have hover : ¬clock - offset < t.start := by
      have hchange := le_of_spaced h
      simp only [lastOffset, List.foldl_cons] at hclock hchange
      omega
    simp [offsetsFrom, hover, ih h hclock]

/-- If no offset is left for a reading behind the start of its span, the clock skips it later. -/
theorem exists_skips_of_offsetsFrom (h : offsetsFrom clock behindStart offset ts = [])
    (hbehind : behindStart (clock - offset) = true) :
    ∃ earlier change later, ts = earlier ++ change :: later ∧
      change.start + lastOffset offset earlier ≤ clock ∧ clock < change.start + change.offset := by
  induction ts generalizing offset behindStart with
  | nil => simp [offsetsFrom, hbehind] at h
  | cons t ts ih =>
    simp only [offsetsFrom, hbehind, Bool.true_and, List.append_eq_nil_iff] at h
    obtain ⟨hhere, h⟩ := h
    have hover : ¬clock - offset < t.start := by
      intro hin
      simp [hin] at hhere
    by_cases hnext : t.start ≤ clock - t.offset
    · obtain ⟨earlier, change, later, rfl, hlow, hhigh⟩ := ih h (by simpa using hnext)
      exact ⟨t :: earlier, change, later, rfl, hlow, hhigh⟩
    · exact ⟨[], t, ts, rfl, by simp only [lastOffset, List.foldl_nil]; omega, by omega⟩

end Offsets

variable {z : Zone}

/-- From the start of a gap on, up to its length or an hour behind it, the clock has no offset but
the new one. -/
theorem localOffsets_gap (hz : z.Regular) (gap : z.Gap) {clock : Int}
    (hlow : gap.change.start + gap.previous ≤ clock)
    (hhigh : clock < gap.change.start + gap.change.offset + max 3600 gap.length) :
    z.localOffsets clock =
      if gap.change.start + gap.change.offset ≤ clock then [gap.change.offset] else [] := by
  have hspaced := hz.spaced
  rw [gap.transitions_eq] at hspaced
  have hrises := gap.rises
  simp only [Gap.length, Gap.previous] at hlow hhigh
  rw [localOffsets, gap.transitions_eq, offsetsFrom_append hspaced hlow,
    offsetsFrom_of_lt (spaced_later hspaced) (by omega)]
  have hiff : gap.change.start ≤ clock - gap.change.offset ↔
      gap.change.start + gap.change.offset ≤ clock := by omega
  simp only [decide_eq_true_eq, hiff]

/-- The date-times that a regular zone does not have are those in its gaps. -/
theorem localOffsets_eq_nil_iff (hz : z.Regular) {dt : LocalDateTime} :
    z.localOffsets dt.toSeconds = [] ↔ ∃ gap : z.Gap, gap.Skips dt := by
  constructor
  · intro h
    obtain ⟨earlier, change, later, heq, hlow, hhigh⟩ := exists_skips_of_offsetsFrom h rfl
    exact ⟨⟨earlier, change, later, heq, by omega⟩, hlow, hhigh⟩
  · rintro ⟨gap, hlow, hhigh⟩
    rw [localOffsets_gap hz gap hlow (by omega), if_neg (by omega)]

end Zone

/-! ## Skipped date-times moved forward -/

namespace Zone.Gap

variable {z : Zone} {gap : z.Gap} {dt : LocalDateTime}

theorem length_pos (gap : z.Gap) : 0 < gap.length := by
  have := gap.rises
  simp only [length, previous]
  omega

/-- The changes of a regular zone, and what is near them, are in range. -/
theorem bounds (hz : z.Regular) (gap : z.Gap) :
    (-86400 < gap.change.offset ∧ gap.change.offset < 86400) ∧
      earliest ≤ gap.change.start + gap.previous ∧
      gap.change.start + gap.change.offset + max 3600 gap.length ≤ latest := by
  have hspaced := hz.spaced
  rw [gap.transitions_eq] at hspaced
  have hmem : gap.change.offset ∈ z.offsets := by simp [offsets, gap.transitions_eq]
  have hrises := gap.rises
  have hlow := le_of_spaced hspaced
  have hhigh := le_latest_of_spaced (spaced_later hspaced)
  simp only [length, previous]
  exact ⟨hz.belowDay _ hmem, by omega, by omega⟩

/-- Behind a gap, up to its length or an hour later, a date-time has one instant. -/
theorem instants_eq (hz : z.Regular) (gap : z.Gap)
    (hlow : gap.change.start + gap.previous ≤ dt.toSeconds)
    (hhigh : dt.toSeconds < gap.change.start + gap.change.offset + max 3600 gap.length) :
    z.instants dt = if gap.Skips dt then [] else [⟨dt.shift (-gap.change.offset)⟩] := by
  obtain ⟨hoffset, hfirst, hlast⟩ := gap.bounds hz
  simp only [earliest, latest] at hfirst hlast
  have hrange : (dt.shift (-gap.change.offset)).inRange = true := by
    have hshift := dt.toSeconds_shift (-gap.change.offset)
    exact LocalDateTime.inRange_of_toSeconds (by omega) (by omega)
  rw [instants, localOffsets_gap hz gap hlow hhigh]
  by_cases hskips : gap.Skips dt
  · have hbefore : ¬gap.change.start + gap.change.offset ≤ dt.toSeconds := by
      have := hskips.2
      omega
    simp [hskips, hbefore]
  · have hbehind : gap.change.start + gap.change.offset ≤ dt.toSeconds := by
      simp only [Skips] at hskips
      omega
    simp [hskips, hbehind, hrange]

/-- The length of the gap later, a skipped date-time has one instant. -/
theorem instants_later_length (hz : z.Regular) (h : gap.Skips dt) :
    z.instants (dt.later gap.length) =
      [⟨(dt.later gap.length).shift (-gap.change.offset)⟩] := by
  obtain ⟨hlow, hhigh⟩ := h
  have hlength := gap.length_pos
  have hlater := dt.toSeconds_later gap.length
  rw [instants_eq hz gap (by omega) (by omega), if_neg]
  intro hskips
  have hdef : gap.length = gap.change.offset - gap.previous := rfl
  have := hskips.2
  omega

theorem resolve_eq (hz : z.Regular) (h : gap.Skips dt) (text : String) :
    Instant.resolve z dt text =
      if gap.Skips (dt.later 3600) then refuse (.nonexistentLocalTime text)
      else .ok ⟨(dt.later 3600).shift (-gap.change.offset)⟩ := by
  obtain ⟨hlow, hhigh⟩ := h
  obtain ⟨-, hfirst, hlast⟩ := gap.bounds hz
  simp only [earliest, latest] at hfirst hlast
  have hlater := dt.toSeconds_later 3600
  have hnone : z.instants dt = [] := by
    rw [instants_eq hz gap hlow (by omega), if_pos ⟨hlow, hhigh⟩]
  have hhour : dt.plusHour? = some (dt.later 3600) :=
    LocalDateTime.plusHour?_of_toSeconds (by omega) (by omega)
  simp only [Instant.resolve, hnone, hhour,
    instants_eq hz gap (show _ ≤ (dt.later 3600).toSeconds by omega) (by omega)]
  split_ifs <;> rfl

/-- Which instant it is, an hour later, tells whether the gap is an hour long. -/
theorem resolve_eq_ok_iff (hz : z.Regular) (h : gap.Skips dt) (text : String) :
    Instant.resolve z dt text = .ok ⟨(dt.later gap.length).shift (-gap.change.offset)⟩ ↔
      gap.length = 3600 := by
  obtain ⟨hlow, hhigh⟩ := h
  rw [resolve_eq hz ⟨hlow, hhigh⟩]
  have hhour := dt.toSeconds_later 3600
  constructor
  · intro heq
    split_ifs at heq
    · cases heq
    · have hseconds := congrArg Instant.unixSeconds (Except.ok.inj heq)
      simp only [Instant.unixSeconds, LocalDateTime.toSeconds_shift,
        LocalDateTime.toSeconds_later] at hseconds
      omega
  · intro hlength
    rw [hlength, if_neg]
    intro hskips
    have := hskips.2
    simp only [length] at hlength
    omega

end Zone.Gap

/-! ## Local date-times as texts -/

theorem Zone.Database.ne_bracket {name : List Char} {z : Zone}
    (h : zones.find? (String.ofList name) = some z) : ∀ c ∈ name, (c == '[') = false := by
  have hname := zones.unbracketed h
  rw [String.toList_ofList] at hname
  intro c hc
  rw [beq_eq_false_iff_ne]
  rintro rfl
  exact hname hc

namespace Reading

variable {cs rest : List Char} {n : Nat}

/-- What may stand in a clock or in its fraction. -/
def isClockChar (c : Char) : Bool := isDigit c || isBlank c || c == ':' || c == '.'

/-- A reader of a part of a clock has gone from one text to another. -/
def TakesClock (cs rest : List Char) : Prop := ∃ row, cs = row ++ rest ∧ row.all isClockChar = true

theorem TakesClock.trans {mid : List Char} (h : TakesClock cs mid) (hmid : TakesClock mid rest) :
    TakesClock cs rest := by
  obtain ⟨row, rfl, hrow⟩ := h
  obtain ⟨row', rfl, hrow'⟩ := hmid
  exact ⟨row ++ row', by simp, by simp only [List.all_append, hrow, hrow', Bool.and_self]⟩

theorem takesClock_mark (h : mark? ':' cs = some rest) : TakesClock cs rest :=
  ⟨[':'], eq_of_mark? h, by decide⟩

theorem takesClock_field (h : field? cs = some (n, rest)) : TakesClock cs rest := by
  simp only [field?, digits?] at h
  split_ifs at h
  cases h
  set digits := ((trimStart cs).take 2).takeWhile isDigit
  have htaken : digits <+: (trimStart cs).take 2 := List.takeWhile_prefix isDigit
  have hstarts : digits <+: trimStart cs := htaken.trans <| List.take_prefix 2 _
  refine ⟨cs.takeWhile isBlank ++ digits, ?_, ?_⟩
  · rw [List.append_assoc, List.prefix_iff_eq_append.1 hstarts]
    exact List.takeWhile_append_dropWhile.symm
  · refine List.all_eq_true.2 fun c hc => ?_
    rcases List.mem_append.1 hc with hc | hc <;>
      simp [isClockChar, List.all_eq_true.1 List.all_takeWhile c hc]

theorem takesClock_hourMinute {clock : Clock} (h : hourMinute? cs = some (clock, rest)) :
    TakesClock cs rest := by
  obtain ⟨⟨hour, cs₁⟩, hhour, h⟩ := Option.bind_eq_some_iff.1 h
  obtain ⟨cs₂, hmark, h⟩ := Option.bind_eq_some_iff.1 h
  obtain ⟨⟨minute, cs₃⟩, hminute, h⟩ := Option.bind_eq_some_iff.1 h
  cases h
  exact (takesClock_field hhour).trans ((takesClock_mark hmark).trans (takesClock_field hminute))

theorem takesClock_hourMinuteSecond {clock : Clock}
    (h : hourMinuteSecond? cs = some (clock, rest)) : TakesClock cs rest := by
  obtain ⟨⟨clock', cs₁⟩, hclock, h⟩ := Option.bind_eq_some_iff.1 h
  obtain ⟨cs₂, hmark, h⟩ := Option.bind_eq_some_iff.1 h
  obtain ⟨⟨second, cs₃⟩, hsecond, h⟩ := Option.bind_eq_some_iff.1 h
  cases h
  exact (takesClock_hourMinute hclock).trans
    ((takesClock_mark hmark).trans (takesClock_field hsecond))

theorem takesClock_whole {α : Type} {reader : List Char → Option (α × List Char)} {a : α}
    (htakes : ∀ {a rest}, reader cs = some (a, rest) → TakesClock cs rest)
    (h : whole? reader cs = some a) : cs.all isClockChar = true := by
  unfold whole? at h
  split at h
  · next hread =>
    obtain ⟨row, rfl, hrow⟩ := htakes hread
    rwa [List.append_nil]
  · cases h

end Reading

namespace Instant

variable {zone z : Zone} {before cs : List Char} {dt : LocalDateTime}

theorem all_of_readClock? {clock : Reading.Clock} (h : readClock? cs = some clock) :
    cs.all Reading.isClockChar = true := by
  unfold readClock? at h
  split_ifs at h
  · exact Reading.takesClock_whole Reading.takesClock_hourMinute h
  · exact Reading.takesClock_whole Reading.takesClock_hourMinuteSecond h

theorem all_of_readFraction? {n : Nat} (h : readFraction? cs = some n) :
    cs.all Reading.isClockChar = true := by
  unfold readFraction? at h
  split_ifs at h with hdigits
  simp only [Bool.and_eq_true] at hdigits
  exact List.all_eq_true.2 fun c hc => by
    simp [Reading.isClockChar, List.all_eq_true.1 hdigits.2 c hc]

/-- A local date-time has a `T`, and nothing but a clock and a fraction behind it. -/
theorem eq_of_readLocal? (h : readLocal? before = some dt) :
    ∃ date time, before = date ++ 'T' :: time ∧ 'T' ∉ date ∧
      time.all Reading.isClockChar = true := by
  obtain ⟨⟨date, time⟩, hsplit, h⟩ := Option.bind_eq_some_iff.1 h
  obtain ⟨date', -, h⟩ := Option.bind_eq_some_iff.1 h
  obtain ⟨clock, hclock, h⟩ := Option.bind_eq_some_iff.1 h
  obtain ⟨nano, hfraction, -⟩ := Option.bind_eq_some_iff.1 h
  obtain ⟨rfl, hdate⟩ := eq_of_splitFirst hsplit
  refine ⟨date, time, rfl, hdate, ?_⟩
  have hclock' := all_of_readClock? hclock
  have hfraction' := all_of_readFraction? hfraction
  cases hpoint : splitFirst '.' time with
  | none => simpa [hpoint] using hclock'
  | some parts =>
    obtain ⟨rfl, -⟩ := eq_of_splitFirst hpoint
    simp only [hpoint] at hclock' hfraction'
    simp only [List.all_append, List.all_cons, hclock', hfraction', Bool.and_true, Bool.true_and]
    decide

/-- A strict timestamp ends in a letter, or in a sign with digits and a colon behind it. -/
theorem exists_offset_of_ofTimestamp? {i : Instant} (h : ofTimestamp? cs = some i) :
    ∃ front mark row, cs = front ++ mark :: row ∧
      mark ∈ ['Z', 'z', '+', '-', Char.ofNat 0x2212] ∧
      ∀ c ∈ row, isDigit c = true ∨ c = ':' := by
  unfold ofTimestamp? Reading.whole? at h
  split at h
  · next hread =>
    obtain ⟨front, clock, offset, seconds, rfl, -, -, hoffset, -⟩ :=
      Reading.cases_of_timestamp? hread
    rcases (Reading.cases_of_strictOffset? hoffset).2 with ⟨letter, rfl, hletter⟩ |
      ⟨sign, left, right, rfl, hsign, hleft, hright⟩
    · refine ⟨front ++ clock, letter, [], by simp, ?_, by simp⟩
      rcases hletter with rfl | rfl <;> simp
    · refine ⟨front ++ clock, sign, left ++ ':' :: right, by simp, ?_, ?_⟩
      · rcases hsign with rfl | rfl | rfl <;> simp
      · intro c hc
        rcases List.mem_append.1 hc with hc | hc
        · exact .inl (isDigit_of_areDigits hleft hc)
        · rcases List.mem_cons.1 hc with rfl | hc
          · exact .inr rfl
          · exact .inl (isDigit_of_areDigits hright hc)
  · cases h

/-- A local date-time, as it is written in a zone: by itself if it is the zone of the caller, or
with the name of the zone in brackets behind it. -/
inductive WrittenIn (zones : Zone.Database) (zone : Zone) (before : List Char) :
    Zone → List Char → Prop
  | caller : WrittenIn zones zone before zone before
  | named {z : Zone} {name : List Char} (h : zones.find? (String.ofList name) = some z) :
    WrittenIn zones zone before z (before ++ '[' :: name ++ [']'])

/-- Strict timestamps have an offset, and local date-times have none. -/
theorem ofTimestamp?_eq_none (hlocal : readLocal? before = some dt)
    (hcs : WrittenIn zones zone before z cs) : ofTimestamp? cs = none := by
  cases h : ofTimestamp? cs with
  | none => rfl
  | some i =>
    obtain ⟨front, mark, row, heq, hmark, hrow⟩ := exists_offset_of_ofTimestamp? h
    have hnot {c : Char} (hc : c ∉ ['Z', 'z', '+', '-', Char.ofNat 0x2212])
        (hdigit : isDigit c = false) (hcolon : c ≠ ':') : c ∉ mark :: row := by
      intro hmem
      rcases List.mem_cons.1 hmem with rfl | hmem
      · exact hc hmark
      · rcases hrow c hmem with hc | hc
        · exact ne_of_isDigit hc hdigit rfl
        · exact hcolon hc
    cases hcs with
    | caller =>
      -- The offset does not reach back to the `T`, so its mark stands in the clock.
      obtain ⟨date, time, rfl, -, htime⟩ := eq_of_readLocal? hlocal
      have hT : 'T' ∉ mark :: row := hnot (by decide) (by decide) (by decide)
      have hmem : mark ∈ time := by
        rcases List.append_eq_append_iff.1 heq with ⟨more, rfl, hback⟩ | ⟨more, rfl, hback⟩
        · cases more with
          | nil =>
            rw [List.nil_append] at hback
            exact absurd (hback ▸ List.mem_cons_self) hT
          | cons c more =>
            obtain ⟨-, rfl⟩ := List.cons.inj hback
            simp
        · exact absurd (by simp [hback]) hT
      have hmarks : (['Z', 'z', '+', '-', Char.ofNat 0x2212].all fun m =>
          !Reading.isClockChar m) = true := by decide
      have hother := List.all_eq_true.1 hmarks mark hmark
      rw [List.all_eq_true.1 htime mark hmem] at hother
      cases hother
    | named hname =>
      have hlast := congrArg List.getLast? heq
      rw [List.getLast?_concat] at hlast
      exact absurd hlast.symm (getLast?_ne_of_not_mem (List.cons_ne_nil mark row)
        (hnot (by decide) (by decide) (by decide)))

theorem splitZone_eq (hlocal : readLocal? before = some dt)
    (hcs : WrittenIn zones zone before z cs) :
    ∃ own, splitZone zones cs = .ok (before, own) ∧ own.getD zone = z := by
  cases hcs with
  | caller =>
    obtain ⟨date, time, rfl, hdate, htime⟩ := eq_of_readLocal? hlocal
    have hnot {c : Char} (hT : c ≠ 'T') (hc : Reading.isClockChar c = false) :
        (date ++ 'T' :: time).getLast? ≠ some c := by
      refine getLast?_ne_of_not_mem (List.cons_ne_nil _ _) fun hmem => ?_
      rw [List.all_eq_true.1 htime c (List.mem_of_ne_of_mem hT hmem)] at hc
      cases hc
    have hsign : ∀ c ∈ time, isSign c = false := by
      intro c hc
      have hclock := List.all_eq_true.1 htime c hc
      cases hs : isSign c with
      | false => rfl
      | true =>
        obtain rfl | rfl : c = '+' ∨ c = '-' := by simpa [isSign] using hs
        all_goals revert hclock; decide
    exact ⟨none, splitZone_unsigned hdate hsign (hnot (by decide) (by decide))
      (hnot (by decide) (by decide)), rfl⟩
  | @named _ name h =>
    have hname : splitLast (· == '[') (before ++ '[' :: name) = some (before, '[' :: name) :=
      splitLast_append rfl (Zone.Database.ne_bracket h)
    refine ⟨some z, ?_, rfl⟩
    simp only [splitZone, List.getLast?_concat, List.dropLast_concat, hname, h]

theorem read_eq_resolve (hlocal : readLocal? before = some dt)
    (hcs : WrittenIn zones zone before z cs) :
    read zone cs zones = resolve z dt (String.ofList cs) := by
  obtain ⟨own, hsplit, hown⟩ := splitZone_eq hlocal hcs
  simp only [read, ofTimestamp?_eq_none hlocal hcs, hsplit, hlocal, hown]

/-- The date-times without an offset in a regular zone are those in its gaps. The length of the gap
later there is one instant for each, and it is the one that is read if and only if the gap is an
hour long: what is read is the date-time an hour later, and nothing if that is still in the gap. The
zones of the table are regular (`Zone.regular_of_mem_all`). -/
theorem read_skipped (hz : z.Regular) (hlocal : readLocal? before = some dt)
    (hcs : WrittenIn zones zone before z cs) :
    (z.localOffsets dt.toSeconds = [] ↔ ∃ gap : z.Gap, gap.Skips dt) ∧
    ∀ gap : z.Gap, gap.Skips dt →
      (∃ i, z.instants (dt.later gap.length) = [i] ∧
        (read zone cs zones = .ok i ↔ gap.length = 3600)) ∧
      read zone cs zones =
        if gap.Skips (dt.later 3600) then refuse (.nonexistentLocalTime (String.ofList cs))
        else .ok ⟨(dt.later 3600).shift (-gap.change.offset)⟩ := by
  refine ⟨Zone.localOffsets_eq_nil_iff hz, fun gap hskips => ?_⟩
  rw [read_eq_resolve hlocal hcs]
  exact ⟨⟨_, gap.instants_later_length hz hskips, gap.resolve_eq_ok_iff hz hskips _⟩,
    gap.resolve_eq hz hskips _⟩

/-- Half past midnight on 2 May 1948, when the clocks of Japan went from midnight to one. -/
theorem read_tokyo_skipped : ∃ (gap : Zone.tokyo.Gap) (dt : LocalDateTime) (i : Instant),
    readLocal? "1948-05-02T00:30".toList = some dt ∧ gap.Skips dt ∧ gap.length = 3600 ∧
      Zone.tokyo.instants (dt.later gap.length) = [i] ∧
      read Zone.utc "1948-05-02T00:30[Asia/Tokyo]".toList = .ok i := by
  let gap : Zone.tokyo.Gap := ⟨Zone.tokyo.transitions.take 1, ⟨-683802000, 36000⟩,
    Zone.tokyo.transitions.drop 2, by decide +kernel, by decide +kernel⟩
  let dt : LocalDateTime := ⟨⟨1948, 5, 2, by decide, by decide, by decide, by decide⟩,
    ⟨0, 30, 0, 0, by decide, by decide, by decide, by decide⟩⟩
  have hlocal : readLocal? "1948-05-02T00:30".toList = some dt := by decide +kernel
  have hskips : gap.Skips dt := by decide +kernel
  have hlength : gap.length = 3600 := by decide +kernel
  have hwritten := @WrittenIn.named Zone.known Zone.utc "1948-05-02T00:30".toList Zone.tokyo
    "Asia/Tokyo".toList (by decide +kernel)
  obtain ⟨i, hinstants, hread⟩ :=
    ((read_skipped (Zone.regular_of_mem_all (by decide +kernel)) hlocal hwritten).2 gap hskips).1
  exact ⟨gap, dt, i, hlocal, hskips, hlength, hinstants, hread.2 hlength⟩

/-- Half an hour is skipped on Lord Howe Island, and a quarter past two is read a whole hour later:
at 16:15, not at 15:45 UTC. -/
theorem read_lordHowe_skipped : ∃ (gap : Zone.lordHowe.Gap) (dt : LocalDateTime) (i j : Instant),
    readLocal? "2023-10-01T02:15".toList = some dt ∧ gap.Skips dt ∧ gap.length = 1800 ∧
      Zone.lordHowe.instants (dt.later gap.length) = [i] ∧ i.unixSeconds = 1696088700 ∧
      read Zone.utc "2023-10-01T02:15[Australia/Lord_Howe]".toList = .ok j ∧
      j.unixSeconds = 1696090500 := by
  refine ⟨⟨Zone.lordHowe.transitions.take 31, ⟨1696087800, 39600⟩,
      Zone.lordHowe.transitions.drop 32, by decide +kernel, by decide +kernel⟩,
    ⟨⟨2023, 10, 1, by decide, by decide, by decide, by decide⟩,
      ⟨2, 15, 0, 0, by decide, by decide, by decide, by decide⟩⟩,
    ⟨⟨2023, 9, 30, by decide, by decide, by decide, by decide⟩,
      ⟨15, 45, 0, 0, by decide, by decide, by decide, by decide⟩⟩,
    ⟨⟨2023, 9, 30, by decide, by decide, by decide, by decide⟩,
      ⟨16, 15, 0, 0, by decide, by decide, by decide, by decide⟩⟩, ?_⟩
  decide +kernel

end Instant

end FilterQuery
