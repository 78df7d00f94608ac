import FilterQuery.Condition.Print
import FilterQuery.Proofs.DateText
import FilterQuery.Proofs.Grammar
import FilterQuery.Proofs.Lexing
import FilterQuery.Proofs.Shapes

set_option autoImplicit false

/-! # The texts of values are literals

The text of a value is a bare literal, or a quoted one, and denotes the value again, up to what is
shown of a leap second (`Value.shown`). A text that passes the test for a shape has that shape
(`Shape.ofText_of_recognises`), so there is one test to look at for each kind of value. -/

namespace FilterQuery

open FilterQuery.Text

variable {zones : Zone.Database}

/-! ## Dates and times in single characters -/

theorem exists_padded_two {n : Nat} (hn : n < 100) :
    ∃ a b, padded 2 n = [a, b] ∧ isDigit a = true ∧ isDigit b = true := by
  obtain ⟨a, b, heq⟩ := List.length_eq_two.1 (length_padded (by decide : 0 < 2) hn)
  have hdigit {c : Char} (hc : c ∈ [a, b]) : isDigit c = true := isDigit_of_mem_padded (heq ▸ hc)
  exact ⟨a, b, heq, hdigit (by simp), hdigit (by simp)⟩

theorem exists_padded_four {n : Nat} (hn : n < 10000) :
    ∃ a b c d, padded 4 n = [a, b, c, d] ∧
      ((isDigit a = true ∧ isDigit b = true) ∧ isDigit c = true ∧ isDigit d = true) := by
  have hlength : (padded 4 n).length = 4 := length_padded (by decide) hn
  match heq : padded 4 n, hlength with
  | [a, b, c, d], _ =>
    have hdigit {e : Char} (he : e ∈ [a, b, c, d]) : isDigit e = true :=
      isDigit_of_mem_padded (heq ▸ he)
    exact ⟨a, b, c, d, rfl, ⟨hdigit (by simp), hdigit (by simp)⟩, hdigit (by simp),
      hdigit (by simp)⟩

theorem Date.isDate_text {d : Date} (h : d.hasPlainYear = true) : Shape.isDate d.text = true := by
  obtain ⟨year, -, hlt, htext⟩ := Reading.exists_year h
  obtain ⟨y₁, y₂, y₃, y₄, hyear, hy⟩ := exists_padded_four hlt
  obtain ⟨m₁, m₂, hmonth, hm⟩ := exists_padded_two (by have := d.month_le; omega : d.month < 100)
  obtain ⟨d₁, d₂, hday, hd⟩ := exists_padded_two (Reading.day_lt d)
  simp [Date.text, htext, hyear, hmonth, hday, Shape.isDate, areDigits, hy, hm, hd]

theorem Shape.ofText_date {d : Date} (h : d.hasPlainYear = true) : ofText d.text = .date :=
  ofText_of_recognises (Date.isDate_text h)

theorem Shape.ofText_dateTime {d : Date} {cs : List Char} (h : d.hasPlainYear = true)
    (hne : cs ≠ []) : ofText (d.text ++ 'T' :: cs) = .dateTime :=
  ofText_of_recognises (isDateTime_iff.2 ⟨d.text, cs, rfl, Date.isDate_text h, hne⟩)

theorem Time.fractionText_cases (n : Nat) :
    fractionText n = [] ∨ ∃ width value, fractionText n = '.' :: padded width value := by
  unfold fractionText
  split
  · exact .inl rfl
  · refine .inr ?_
    split
    · exact ⟨3, _, rfl⟩
    · split
      · exact ⟨6, _, rfl⟩
      · exact ⟨9, _, rfl⟩

theorem Time.mem_fractionText {c : Char} {n : Nat} (h : c ∈ fractionText n) :
    isDigit c = true ∨ c = '.' := by
  rcases fractionText_cases n with heq | ⟨width, value, heq⟩
  · rw [heq] at h
    cases h
  · rw [heq] at h
    rcases List.mem_cons.1 h with h | h
    · exact .inr h
    · exact .inl (isDigit_of_mem_padded h)

/-- Two digits and the text of a fraction are the seconds of a time. -/
theorem Shape.isTime_fraction {a b : Char} (ha : isDigit a = true) (hb : isDigit b = true)
    (n : Nat) :
    let parts := (splitFirst '.' (a :: b :: Time.fractionText n)).getD
      (a :: b :: Time.fractionText n, ['0'])
    (areDigits 2 parts.1 && allDigits parts.2) = true := by
  have hpoint : '.' ∉ [a, b] := not_mem_of_isDigit (by simp [ha, hb]) (by decide)
  rcases Time.fractionText_cases n with heq | ⟨width, value, heq⟩
  · rw [heq, splitFirst_eq_none hpoint]
    simp [areDigits, ha, hb]
    decide
  · have hsplit : splitFirst '.' (a :: b :: '.' :: padded width value) =
        some ([a, b], padded width value) := splitFirst_append hpoint
    rw [heq, hsplit]
    simp [areDigits, ha, hb, allDigits_padded]

theorem Shape.ofText_time (t : Time) : ofText t.text = .time := by
  obtain ⟨h₁, h₂, hhour, hh⟩ := exists_padded_two (by have := t.hour_lt; omega : t.hour < 100)
  obtain ⟨m₁, m₂, hminute, hm⟩ :=
    exists_padded_two (by have := t.minute_lt; omega : t.minute < 100)
  obtain ⟨s₁, s₂, hsecond, hs⟩ := exists_padded_two (Reading.second_lt t)
  have htext : t.text = h₁ :: h₂ :: ':' :: m₁ :: m₂ :: ':' :: s₁ :: s₂ ::
      Time.fractionText (t.nano % nanosPerSecond) := by
    simp [Time.text, hhour, hminute, hsecond]
  have htime : isTime t.text = true := by
    have hcolon : ':' ∉ s₁ :: s₂ :: Time.fractionText (t.nano % nanosPerSecond) := by
      simp only [List.mem_cons, not_or]
      refine ⟨(ne_of_isDigit hs.1 (by decide)).symm, (ne_of_isDigit hs.2 (by decide)).symm, ?_⟩
      exact fun h => absurd (Time.mem_fractionText h) (by decide)
    have hfields : splitAll ':' t.text =
        [[h₁, h₂], [m₁, m₂], s₁ :: s₂ :: Time.fractionText (t.nano % nanosPerSecond)] := by
      rw [htext]
      calc splitAll ':' ([h₁, h₂] ++ ':' :: ([m₁, m₂] ++ ':' :: (s₁ :: s₂ :: _)))
          = [h₁, h₂] :: splitAll ':' ([m₁, m₂] ++ ':' :: (s₁ :: s₂ :: _)) :=
            splitAll_append (not_mem_of_isDigit (by simp [hh]) (by decide))
        _ = [h₁, h₂] :: [m₁, m₂] :: splitAll ':' (s₁ :: s₂ :: _) := by
            rw [splitAll_append (not_mem_of_isDigit (by simp [hm]) (by decide))]
        _ = _ := by rw [splitAll_eq_singleton hcolon]
    have hseconds := isTime_fraction hs.1 hs.2 (t.nano % nanosPerSecond)
    have hhours : areDigits 2 [h₁, h₂] = true := by simp [areDigits, hh]
    have hminutes : areDigits 2 [m₁, m₂] = true := by simp [areDigits, hm]
    rw [isTime, hfields]
    simp only [hhours, hminutes, Bool.true_and]
    exact hseconds
  exact ofText_of_recognises htime

theorem Shape.ofText_monthDay (md : MonthDay) : ofText md.text = .monthDay := by
  have hlt : md.day < 100 := by
    have := md.day_le
    have := Reading.daysInMonth_le 0 md.month
    omega
  obtain ⟨m₁, m₂, hmonth, hm⟩ := exists_padded_two (by have := md.month_le; omega : md.month < 100)
  obtain ⟨d₁, d₂, hday, hd⟩ := exists_padded_two hlt
  have htext : md.text = ['-', '-', m₁, m₂, '-', d₁, d₂] := by
    simp [MonthDay.text, hmonth, hday]
  have hmonthDay : isMonthDay md.text = true := by simp [isMonthDay, htext, areDigits, hm, hd]
  exact ofText_of_recognises hmonthDay

/-- The text of a year of four digits. -/
theorem Shape.ofText_year {n : Nat} (hn : n < 10000) :
    ofText (padded 4 n ++ ['-', '-']) = .year := by
  obtain ⟨y₁, y₂, y₃, y₄, heq, hy⟩ := exists_padded_four hn
  have hyear : isYear (padded 4 n ++ ['-', '-']) = true := by simp [heq, isYear, areDigits, hy]
  exact ofText_of_recognises hyear

/-! ## Whole numbers -/

theorem exists_natDigits_eq_cons (n : Nat) :
    ∃ c cs, natDigits n = c :: cs ∧ isDigit c = true := by
  obtain ⟨c, cs, heq⟩ := List.exists_cons_of_ne_nil (Nat.toDigits_ne_nil (n := n) (b := 10))
  exact ⟨c, cs, heq, isDigit_of_mem_toDigits (heq ▸ List.mem_cons_self)⟩

theorem splitFirst_natDigits (n : Nat) : splitFirst '.' (natDigits n) = none :=
  splitFirst_eq_none (not_mem_of_isDigit (fun _ hc => isDigit_of_mem_toDigits hc) (by decide))

theorem Shape.isNumber_intText (n : Int) : isNumber (intText n) = true := by
  unfold intText
  split
  · simp only [isNumber, splitFirst_natDigits, allDigits_natDigits]
  · obtain ⟨c, cs, heq, hc⟩ := exists_natDigits_eq_cons n.natAbs
    have hsplit := splitFirst_natDigits n.natAbs
    have hdigits := allDigits_natDigits n.natAbs
    rw [heq] at hsplit hdigits ⊢
    unfold isNumber
    split
    · next h => exact absurd (List.cons.inj h).1 (ne_of_isDigit hc (by decide))
    · simp only [hsplit, hdigits]

theorem Literal.number_intText (n : Int64) : number (intText n.toInt) = .ok (.long n) := by
  have hrange : Int64.minValue.toInt ≤ n.toInt ∧ n.toInt ≤ Int64.maxValue.toInt :=
    ⟨n.minValue_le_toInt, n.toInt_le⟩
  have hdigits := ofDigits_natDigits n.toInt.natAbs
  have hsplit := splitFirst_natDigits n.toInt.natAbs
  unfold intText
  split
  · have hvalue : -((n.toInt.natAbs : Nat) : Int) = n.toInt := by omega
    simp only [number, hsplit, hdigits, hvalue, if_pos hrange, Int64.ofInt_toInt, if_true]
  · have hvalue : ((n.toInt.natAbs : Nat) : Int) = n.toInt := by omega
    obtain ⟨c, cs, heq, hc⟩ := exists_natDigits_eq_cons n.toInt.natAbs
    rw [heq] at hsplit hdigits ⊢
    unfold number
    split
    · next negative unsigned hsign =>
      split at hsign
      · next h => exact absurd (List.cons.inj h).1 (ne_of_isDigit hc (by decide))
      · cases hsign
        simp only [hsplit, hdigits, hvalue, if_pos hrange, Int64.ofInt_toInt, if_false,
          Bool.false_eq_true]

/-! ## Writable values -/

/-- The value that the text of a value shows. -/
def Value.shown : Value → Value
  | .time t => .time t.shown
  | .dateTime dt => .dateTime dt.shown
  | .instant i => .instant i.shown
  | v => v

/-- Text that a literal can hold. -/
structure Literal.Holds (cs : List Char) : Prop where
  no_quote : '"' ∉ cs
  no_null : '\x00' ∉ cs
  eq_space : ∀ c ∈ cs, isBlank c = true → c = ' '
  last_ne_space : cs.getLast? ≠ some ' '
  ne_true : cs.map lowerAscii ≠ ['t', 'r', 'u', 'e']
  ne_false : cs.map lowerAscii ≠ ['f', 'a', 'l', 's', 'e']

/-- The values that can be written as a literal under an operator. -/
def Value.Writable (op : Operator) : Value → Prop
  | .string s =>
    Literal.Holds s.toList ∧ (op = .like → Escape.hasWildcard s.toList = true)
  | .double _ => False
  | .date d => d.hasPlainYear = true
  | .dateTime dt => dt.date.hasPlainYear = true
  | .instant i => i.utc.date.hasPlainYear = true
  | .year y => 0 ≤ y ∧ y ≤ 9999
  | .long _ | .boolean _ | .time _ | .monthDay _ => True

/-! ## Bare texts -/

/-- The marks and letters in the texts of values that are no strings. -/
def Value.marks : List Char := ['-', ':', '.', 'T', 'Z', 't', 'r', 'u', 'e', 'f', 'a', 'l', 's']

/-- Digits with such marks between them. -/
def PlainText (cs : List Char) : Prop := ∀ c ∈ cs, isDigit c = true ∨ c ∈ Value.marks

namespace PlainText

variable {cs ds : List Char}

theorem of_subset (h : cs ⊆ Value.marks) : PlainText cs := fun _ hc => .inr (h hc)

theorem of_isDigit (h : ∀ c ∈ cs, isDigit c = true) : PlainText cs := fun c hc => .inl (h c hc)

theorem append (h : PlainText cs) (h' : PlainText ds) : PlainText (cs ++ ds) := fun c hc =>
  (List.mem_append.1 hc).elim (h c) (h' c)

/-- A mark between two texts. -/
theorem append_mark {c : Char} (h : PlainText cs) (hc : c ∈ Value.marks) (h' : PlainText ds) :
    PlainText (cs ++ c :: ds) :=
  h.append ((of_subset (List.cons_subset.2 ⟨hc, List.nil_subset _⟩)).append h')

theorem padded (width n : Nat) : PlainText (Text.padded width n) :=
  of_isDigit fun _ hc => isDigit_of_mem_padded hc

theorem fraction (n : Nat) : PlainText (Time.fractionText n) := by
  intro c hc
  rcases Time.mem_fractionText hc with hc | rfl
  · exact .inl hc
  · exact .inr (by decide)

theorem time (t : Time) : PlainText t.text :=
  (padded _ _).append_mark (by decide) ((padded _ _).append_mark (by decide)
    ((padded _ _).append (fraction _)))

theorem date {d : Date} (h : d.hasPlainYear = true) : PlainText d.text := by
  obtain ⟨year, -, -, htext⟩ := Reading.exists_year h
  rw [Date.text, htext]
  exact (padded _ _).append_mark (by decide) ((padded _ _).append_mark (by decide) (padded _ _))

theorem dateTime {dt : LocalDateTime} (h : dt.date.hasPlainYear = true) : PlainText dt.text :=
  (date h).append_mark (by decide) (time _)

theorem int (n : Int) : PlainText (intText n) := by
  have hdigits : PlainText (natDigits n.natAbs) := of_isDigit fun _ hc => isDigit_of_mem_toDigits hc
  unfold intText
  split
  · exact (of_subset (by decide : ['-'] ⊆ Value.marks)).append hdigits
  · exact hdigits

/-- Every writable value but a string. -/
theorem value {op : Operator} {v : Value} (h : v.Writable op) (hv : ∀ s, v ≠ .string s) :
    PlainText v.text := by
  cases v with
  | string s => exact absurd rfl (hv s)
  | double x => exact h.elim
  | long n => exact int _
  | boolean b => cases b <;> exact of_subset (by decide)
  | date d => exact date h
  | time t => exact time t
  | dateTime dt => exact dateTime h
  | monthDay md =>
    have hmark : '-' ∈ Value.marks := by decide
    have hfields := (padded 2 md.month).append_mark hmark (padded 2 md.day)
    exact (of_subset (by decide : ['-', '-'] ⊆ Value.marks)).append hfields
  | year y =>
    have hyear : Value.yearText y = Text.padded 4 y.natAbs ++ ['-', '-'] := by
      rw [Value.yearText, if_neg (by have := h.1; omega)]
    rw [Value.text, hyear]
    exact (padded _ _).append (of_subset (by decide))
  | instant i => exact (dateTime h).append (of_subset (by decide))

theorem not_isDelimiter (h : PlainText cs) {c : Char} (hc : c ∈ cs) :
    c ≠ Escape.mark ∧ Token.isDelimiter c = false := by
  rcases h c hc with hdigit | hmark
  · have hall : (['0', '1', '2', '3', '4', '5', '6', '7', '8', '9'].all fun d =>
        d != Escape.mark && !Token.isDelimiter d) = true := by decide
    simpa using List.all_eq_true.1 hall c (mem_of_isDigit hdigit)
  · have hall : (Value.marks.all fun d => d != Escape.mark && !Token.isDelimiter d) = true := by
      decide
    simpa using List.all_eq_true.1 hall c hmark

theorem unbroken (h : PlainText cs) : Token.Unbroken cs :=
  Token.unbroken_of_forall fun _ hc => h.not_isDelimiter hc

theorem trim_eq (h : PlainText cs) : trim cs = cs := by
  have hblank {c : Char} (hc : c ∈ cs) : isBlank c = false :=
    (Bool.or_eq_false_iff.1 (h.not_isDelimiter hc).2).1
  exact trim_eq_self (fun c hc => hblank (List.mem_of_mem_head? hc))
    fun c hc => hblank (List.mem_of_getLast? hc)

end PlainText

/-! ## Values denoted again -/

namespace Literal

variable {op : Operator}

theorem mem_time_text {t : Time} {c : Char} (h : c ∈ t.text) :
    isDigit c = true ∨ c ∈ [':', '.'] := by
  simp only [Time.text, List.mem_append, List.mem_cons] at h
  rcases h with h | rfl | h | rfl | h | h
  · exact .inl (isDigit_of_mem_padded h)
  · exact .inr (by decide)
  · exact .inl (isDigit_of_mem_padded h)
  · exact .inr (by decide)
  · exact .inl (isDigit_of_mem_padded h)
  · rcases Time.mem_fractionText h with h | rfl
    · exact .inl h
    · exact .inr (by decide)

/-- A date-time without a zone is none with a zone: behind its `T` stand no signs, and no mark of a
zone at the end. -/
theorem isZoned_dateTime_text {dt : LocalDateTime} (h : dt.date.hasPlainYear = true) :
    isZoned dt.text = false := by
  have hother {c : Char} (hc : c ∈ dt.time.text) : c ∉ ['Z', ']', '+', '-'] := by
    intro hzone
    have hall : (['Z', ']', '+', '-'].all fun d => !isDigit d && d != ':' && d != '.') = true := by
      decide
    obtain ⟨hdigit, hmark⟩ : isDigit c = false ∧ c ∉ [':', '.'] := by
      simpa [and_assoc] using List.all_eq_true.1 hall c hzone
    rcases mem_time_text hc with h | h
    · rw [h] at hdigit
      cases hdigit
    · exact hmark h
  have htime : dt.text.drop 11 = dt.time.text := by
    have hlength := Shape.length_of_isDate (Date.isDate_text h)
    rw [LocalDateTime.text, List.drop_append]
    simp [hlength]
  obtain ⟨last, hlast⟩ : ∃ last, dt.time.text.getLast? = some last := by
    have := dt.time.length_text
    exact ⟨_, List.getLast?_eq_some_getLast (List.length_pos_iff.1 (by omega))⟩
  have htext : dt.text.getLast? = some last := by
    simp [LocalDateTime.text, List.getLast?_append, List.getLast?_cons, hlast]
  have hlast' := hother (List.mem_of_getLast? hlast)
  have hsigns : dt.time.text.any Instant.isSign = false := by
    refine List.any_eq_false.2 fun c hc => ?_
    have := hother hc
    simp only [List.mem_cons, not_or] at this
    simp [Instant.isSign, this]
  simp only [List.mem_cons, not_or] at hlast'
  simp [isZoned, htext, htime, hsigns, hlast']

/-- A writable value that is no string is denoted by its text. -/
theorem coerce_text {v : Value} (h : v.Writable op) (hv : ∀ s, v ≠ .string s) :
    coerce zones v.text false op = .ok v.shown := by
  cases v with
  | string s => exact absurd rfl (hv s)
  | double x => exact h.elim
  | long n =>
    have hshape : Shape.ofText (intText n.toInt) = .number := if_pos (Shape.isNumber_intText _)
    simp only [coerce, Value.text, hshape, number_intText]
    rfl
  | boolean b => cases b <;> rfl
  | date d =>
    simp only [coerce, Value.text, Shape.ofText_date h, Date.read?_text h]
    rfl
  | time t =>
    simp only [coerce, Value.text, Shape.ofText_time, Time.read?_text]
    rfl
  | dateTime dt =>
    have hne : dt.time.text ≠ [] := by
      have := dt.time.length_text
      exact List.length_pos_iff.1 (by omega)
    have hshape : Shape.ofText dt.text = .dateTime := Shape.ofText_dateTime h hne
    simp only [coerce, Value.text, hshape, isZoned_dateTime_text h, LocalDateTime.read?_text h]
    rfl
  | monthDay md =>
    have hmonth : md.month < 10 ^ 2 := by have := md.month_le; omega
    have hlength : (padded 2 md.month).length = 2 := length_padded (by decide) hmonth
    have hbody : md.text.dropWhile (· == '-') = padded 2 md.month ++ '-' :: padded 2 md.day := by
      obtain ⟨c, cs, heq, hc⟩ := Reading.exists_padded_eq_cons (by decide) hmonth
      simp [MonthDay.text, heq, ne_of_isDigit hc (by decide : isDigit '-' = false)]
    have htake : (padded 2 md.month ++ '-' :: padded 2 md.day).take 2 = padded 2 md.month :=
      List.take_left' hlength
    have hdrop : (padded 2 md.month ++ '-' :: padded 2 md.day).drop 3 = padded 2 md.day := by
      rw [List.drop_append, hlength]
      simp [hlength]
    have hof : MonthDay.of? md.month md.day = some md :=
      dif_pos ⟨⟨md.month_pos, md.month_le⟩, md.day_pos, md.day_le⟩
    simp only [coerce, Value.text, Shape.ofText_monthDay, hbody, htake, hdrop, ofDigits_padded, hof]
    rfl
  | year y =>
    obtain ⟨year, rfl⟩ := Int.eq_ofNat_of_zero_le h.1
    have hlt : year < 10000 := by have := h.2; omega
    have hlength : (padded 4 year).length = 4 := length_padded (by decide) hlt
    have htext : Value.yearText year = padded 4 year ++ ['-', '-'] := by
      rw [Value.yearText, if_neg (by omega)]
      rfl
    have htake : (padded 4 year ++ ['-', '-']).take 4 = padded 4 year := List.take_left' hlength
    simp only [coerce, Value.text, htext, Shape.ofText_year hlt, htake, ofDigits_padded]
    rfl
  | instant i =>
    have hshape : Shape.ofText i.text = .dateTime := by
      rw [Instant.text, LocalDateTime.text, List.append_assoc, List.cons_append]
      exact Shape.ofText_dateTime h (by simp)
    have hzoned : isZoned i.text = true := by simp [isZoned, Instant.text]
    have hread : Instant.read Zone.utc i.text zones = .ok i.shown := by
      rw [Instant.read, Instant.ofTimestamp?_text h]
    simp only [coerce, Value.text, hshape, hzoned, hread]
    rfl

/-- Escaped text is a word in some case exactly if the text is. -/
theorem map_lowerAscii_escape_iff {cs word : List Char} (hword : word.all isLetter = true) :
    (Escape.escape cs).map lowerAscii = word ↔ cs.map lowerAscii = word := by
  -- Either way there are only letters, and nothing is escaped.
  suffices hsame : (Escape.escape cs).map lowerAscii = word ∨ cs.map lowerAscii = word →
      Escape.escape cs = cs by
    constructor
    · intro h
      rwa [hsame (.inl h)] at h
    · intro h
      rwa [hsame (.inr h)]
  have hletter {ds : List Char} (h : ds.map lowerAscii = word) {c : Char} (hc : c ∈ ds) :
      isLetter (lowerAscii c) = true :=
    List.all_eq_true.1 hword _ (h ▸ List.mem_map_of_mem hc)
  rintro (h | h)
  · exact Escape.escape_eq_of_not_mem fun hmark => absurd (hletter h hmark) (by decide)
  · refine Escape.escape_eq_self fun c hc => ?_
    by_contra hescapable
    have hmem := Escape.mem_of_isEscapable (Bool.eq_true_of_not_eq_false hescapable)
    have hall : ((Escape.mark :: '*' :: '?' :: Escape.structural).all fun d =>
        !isLetter (lowerAscii d)) = true := by decide
    have hnot := List.all_eq_true.1 hall c hmem
    rw [hletter h hc] at hnot
    cases hnot

/-- Text that its escaped form denotes again. A literal cannot hold a quote, blanks end it or are
trimmed off, the placeholder is taken for a mark, and two words are booleans, even in quotes. -/
structure Expressible (cs : List Char) : Prop where
  no_quote : '"' ∉ cs
  no_placeholder : ¬ Escape.HoldsPlaceholder cs
  eq_space : ∀ c ∈ cs, isBlank c = true → c = ' '
  last_ne_space : cs.getLast? ≠ some ' '
  ne_true : cs.map lowerAscii ≠ ['t', 'r', 'u', 'e']
  ne_false : cs.map lowerAscii ≠ ['f', 'a', 'l', 's', 'e']

theorem Holds.expressible {cs : List Char} (h : Holds cs) : Expressible cs :=
  ⟨h.no_quote, Escape.not_holdsPlaceholder h.no_null, h.eq_space, h.last_ne_space, h.ne_true,
    h.ne_false⟩

/-- Text that is neither boolean is resolved, and a pattern without wildcards is looked for
anywhere. -/
theorem stringOrBoolean_eq_string_iff {cs : List Char} {text : String} :
    stringOrBoolean cs op = .string text ↔
      cs.map lowerAscii ≠ ['t', 'r', 'u', 'e'] ∧ cs.map lowerAscii ≠ ['f', 'a', 'l', 's', 'e'] ∧
        text.toList =
          if op = .like then Escape.containing (Escape.resolve cs) else Escape.resolve cs := by
  unfold stringOrBoolean
  simp only
  by_cases htrue : cs.map lowerAscii = ['t', 'r', 'u', 'e']
  · simp [htrue]
  by_cases hfalse : cs.map lowerAscii = ['f', 'a', 'l', 's', 'e']
  · simp [hfalse]
  rw [if_neg htrue, if_neg hfalse]
  by_cases hop : op = .like
  · simp [hop, htrue, hfalse, String.ext_iff, eq_comm]
  · simp [hop, htrue, hfalse, String.ext_iff, eq_comm]

/-- A string is denoted by its escaped text. -/
theorem stringOrBoolean_escape {s : String} (h : Expressible s.toList)
    (hlike : op = .like → Escape.hasWildcard s.toList = true) :
    stringOrBoolean (Escape.escape s.toList) op = .string s := by
  have hresolve := (Escape.resolve_escape_iff s.toList).2 h.no_placeholder
  rw [stringOrBoolean_eq_string_iff, hresolve]
  refine ⟨(map_lowerAscii_escape_iff (by decide)).not.2 h.ne_true,
    (map_lowerAscii_escape_iff (by decide)).not.2 h.ne_false, ?_⟩
  split
  · next hop => rw [Escape.containing, if_pos (hlike hop)]
  · rfl

/-- So it is by the literal that is written for it, bare or quoted. -/
theorem coerce_escape {s : String} (h : Expressible s.toList)
    (hlike : op = .like → Escape.hasWildcard s.toList = true) :
    coerce zones (trim (Escape.escape s.toList)) (!readsAsString (Escape.escape s.toList)) op =
      .ok (.string s) := by
  have hshape : (if (!readsAsString (Escape.escape s.toList)) = true then .string
      else Shape.ofText (Escape.escape s.toList)) = Shape.string := by
    split
    · rfl
    · next hbare =>
      have hstring : Escape.escape s.toList ≠ [] ∧
          Shape.ofText (Escape.escape s.toList) = .string := by
        simpa [readsAsString] using hbare
      exact hstring.2
  rw [Escape.trim_escape h.eq_space h.last_ne_space]
  simp only [coerce, hshape, stringOrBoolean_escape h hlike]

end Literal

/-! ## The token of a value -/

namespace Value

variable {op : Operator}

/-- The literal that is written for a value. -/
def token : Value → Token
  | .string s =>
    let escaped := Escape.escape s.toList
    .literal (String.ofList escaped) (!Literal.readsAsString escaped)
  | v => .literal (String.ofList v.text) false

theorem spelling_token (v : Value) : v.token.spelling = v.literalText := by
  cases v with
  | string s =>
    simp only [token, literalText]
    cases Literal.readsAsString (Escape.escape s.toList) <;> simp [Token.spelling]
  | _ => exact String.toList_ofList

/-- The token of a writable value denotes what is shown of the value. -/
theorem denotes_token {v : Value} (h : v.Writable op) :
    Condition.Denotes zones op v.token v.shown := by
  cases v with
  | string s =>
    refine .intro ?_
    rw [String.toList_ofList]
    exact Literal.coerce_escape h.1.expressible h.2
  | _ =>
    refine .intro ?_
    rw [String.toList_ofList, (PlainText.value h (by simp)).trim_eq]
    exact Literal.coerce_text h (by simp)

end Value

end FilterQuery
