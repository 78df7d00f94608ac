import FilterQuery.Literal
import FilterQuery.Proofs.Digits

set_option autoImplicit false

/-! # The shapes of literals exclude each other

The tests for the shapes are made one after the other, but no text passes two of them
(`Shape.eq_of_recognises`), so that the order is of no importance (`Shape.firstOf_perm`).

A test asks where the digits of a text are, and not which digits they are. So shapes are told apart
by the `outline` of a text, where every digit is a `0`. The texts of a shape other than that of a
number have one of a few outlines, or one that begins in a certain way. This is a table
(`Shape.outlines`), and that those of two shapes exclude each other is checked by looking at it.
Numbers have no mark behind their first character except a point, and every outline of the table has
one. -/

namespace FilterQuery

open FilterQuery.Text

variable {zones : Zone.Database}

namespace Shape

variable {c d : Char} {n : Nat} {cs : List Char}

/-! ## The parts of a text -/

theorem isDigit_of_allDigits (h : allDigits cs = true) (hc : c ∈ cs) : isDigit c = true := by
  simp only [allDigits, Bool.and_eq_true] at h
  exact List.all_eq_true.1 h.2 c hc

theorem length_of_areDigits (h : areDigits n cs = true) : cs.length = n := by
  rw [areDigits, Bool.and_eq_true] at h
  exact beq_iff_eq.1 h.1

theorem drop_eq_cons (h : cs[n]? = some c) : cs.drop n = c :: cs.drop (n + 1) := by
  obtain ⟨hn, rfl⟩ := List.getElem?_eq_some_iff.1 h
  exact List.drop_eq_getElem_cons hn

/-- A number has digits and a point only, behind a sign or without one. -/
theorem exists_unsigned_of_isNumber (h : isNumber cs = true) :
    ∃ unsigned, (cs = unsigned ∨ cs = '-' :: unsigned) ∧
      ∀ d ∈ unsigned, isDigit d = true ∨ d = '.' := by
  unfold isNumber at h
  extract_lets unsigned at h
  refine ⟨unsigned, ?_, fun d hd => ?_⟩
  · unfold unsigned
    split
    · exact .inr rfl
    · exact .inl rfl
  · split at h
    · next whole fraction hsplit =>
      obtain ⟨hwhole, hfraction⟩ : allDigits whole = true ∧ allDigits fraction = true := by
        simpa using h
      rw [(eq_of_splitFirst hsplit).1, List.mem_append, List.mem_cons] at hd
      rcases hd with hd | hd | hd
      · exact .inl (isDigit_of_allDigits hwhole hd)
      · exact .inr hd
      · exact .inl (isDigit_of_allDigits hfraction hd)
    · exact .inl (isDigit_of_allDigits h hd)

/-- A text with a mark behind its first character, other than a point, is no number. -/
theorem isNumber_eq_false (h : d ∈ cs.tail) (hdigit : isDigit d = false) (hpoint : d ≠ '.') :
    isNumber cs = false := by
  by_contra hnumber
  obtain ⟨unsigned, hunsigned, hall⟩ := exists_unsigned_of_isNumber (by simpa using hnumber)
  have hd : d ∈ unsigned := by
    rcases hunsigned with rfl | rfl
    · exact List.mem_of_mem_tail h
    · exact h
  rcases hall d hd with hd | hd
  · exact ne_of_isDigit hd hdigit rfl
  · exact hpoint hd

/-- The parts of a date. -/
theorem eq_of_isDate (h : isDate cs = true) :
    ∃ year month day, cs = year ++ '-' :: (month ++ '-' :: day) ∧ areDigits 4 year = true ∧
      areDigits 2 month = true ∧ areDigits 2 day = true := by
  simp only [isDate, Bool.and_eq_true, beq_iff_eq] at h
  obtain ⟨⟨⟨⟨⟨-, hyear⟩, hfirst⟩, hmonth⟩, hsecond⟩, hday⟩ := h
  have hback : cs.drop 5 = (cs.drop 5).take 2 ++ cs.drop 7 := by
    simpa using (List.take_append_drop 2 (cs.drop 5)).symm
  rw [drop_eq_cons hsecond] at hback
  refine ⟨_, _, _, ?_, hyear, hmonth, hday⟩
  rw [← hback, ← drop_eq_cons hfirst, List.take_append_drop]

theorem length_of_isDate (h : isDate cs = true) : cs.length = 10 := by
  simp only [isDate, Bool.and_eq_true, beq_iff_eq] at h
  exact h.1.1.1.1.1

/-- The parts of a date-time. -/
theorem isDateTime_iff :
    isDateTime cs = true ↔
      ∃ date time, cs = date ++ 'T' :: time ∧ isDate date = true ∧ time ≠ [] := by
  simp only [isDateTime, Bool.and_eq_true, beq_iff_eq, decide_eq_true_eq]
  constructor
  · rintro ⟨⟨hlength, hdate⟩, hmark⟩
    refine ⟨cs.take 10, cs.drop 11, ?_, hdate, ?_⟩
    · rw [← drop_eq_cons hmark, List.take_append_drop]
    · rw [Ne, List.drop_eq_nil_iff]
      omega
  · rintro ⟨date, time, rfl, hdate, htime⟩
    have hlength := length_of_isDate hdate
    have hpos := List.length_pos_iff.2 htime
    refine ⟨⟨?_, ?_⟩, ?_⟩
    · rw [List.length_append, List.length_cons]
      omega
    · rwa [List.take_left' hlength]
    · rw [List.getElem?_append_right (by omega), hlength]
      rfl

/-- The hours and minutes of a time. -/
theorem eq_of_isTime (h : isTime cs = true) :
    ∃ hours minutes rest, cs = hours ++ ':' :: (minutes ++ rest) ∧ areDigits 2 hours = true ∧
      areDigits 2 minutes = true := by
  have hjoin := join_splitAll ':' cs
  unfold isTime at h
  split at h
  · next hours minutes hsplit =>
    rw [hsplit] at hjoin
    obtain ⟨hhours, hminutes⟩ := Bool.and_eq_true_iff.1 h
    exact ⟨hours, minutes, [], by simpa [join] using hjoin.symm, hhours, hminutes⟩
  · next hours minutes seconds hsplit =>
    rw [hsplit] at hjoin
    simp only [Bool.and_eq_true] at h
    exact ⟨hours, minutes, ':' :: seconds, by simpa [join] using hjoin.symm, h.1.1.1, h.1.1.2⟩
  · cases h

/-- The parts of a year. -/
theorem eq_of_isYear (h : isYear cs = true) :
    ∃ year hyphens, cs = year ++ hyphens ∧ areDigits 4 year = true ∧
      (hyphens = ['-'] ∨ hyphens = ['-', '-']) := by
  simp only [isYear, Bool.and_eq_true, Bool.or_eq_true, beq_iff_eq] at h
  exact ⟨cs.take 4, cs.drop 4, (List.take_append_drop 4 cs).symm, h.1, h.2⟩

/-- The parts of a day of a month. -/
theorem eq_of_isMonthDay (h : isMonthDay cs = true) :
    ∃ hyphens month day, cs = hyphens ++ (month ++ '-' :: day) ∧
      (hyphens = [] ∨ hyphens = ['-', '-']) ∧ areDigits 2 month = true ∧
        areDigits 2 day = true := by
  unfold isMonthDay at h
  extract_lets body at h
  simp only [Bool.and_eq_true, beq_iff_eq] at h
  obtain ⟨⟨⟨-, hmonth⟩, hmark⟩, hday⟩ := h
  have hbody : body = body.take 2 ++ '-' :: body.drop 3 := by
    rw [← drop_eq_cons hmark, List.take_append_drop]
  obtain ⟨hyphens, hcs, hhyphens⟩ :
      ∃ hyphens, cs = hyphens ++ body ∧ (hyphens = [] ∨ hyphens = ['-', '-']) := by
    unfold body
    split
    · exact ⟨['-', '-'], rfl, .inr rfl⟩
    · exact ⟨[], rfl, .inl rfl⟩
  exact ⟨hyphens, body.take 2, body.drop 3, by rw [← hbody, hcs], hhyphens, hmonth, hday⟩

/-! ## Outlines -/

/-- A text with all its digits written as `0`. -/
def outline (cs : List Char) : List Char := cs.map fun c => if isDigit c then '0' else c

theorem outline_append (cs ds : List Char) : outline (cs ++ ds) = outline cs ++ outline ds :=
  List.map_append

theorem outline_cons (hd : isDigit d = false) : outline (d :: cs) = d :: outline cs := by
  simp [outline, hd]

theorem outline_of_areDigits (h : areDigits n cs = true) : outline cs = List.replicate n '0' := by
  rw [List.eq_replicate_iff, outline, List.length_map]
  refine ⟨length_of_areDigits h, fun c hc => ?_⟩
  obtain ⟨d, hd, rfl⟩ := List.mem_map.1 hc
  rw [if_pos (isDigit_of_areDigits h hd)]

theorem mem_of_mem_outline (hd : isDigit d = false) (h : d ∈ outline cs) : d ∈ cs := by
  obtain ⟨c, hc, heq⟩ := List.mem_map.1 h
  split_ifs at heq with hdigit
  · subst heq
    cases hd
  · exact heq ▸ hc

/-- The first character that is no digit. -/
def firstMark (cs : List Char) : Option Char := cs.find? fun c => !isDigit c

theorem firstMark_outline (cs : List Char) : firstMark (outline cs) = firstMark cs := by
  have hsame (c : Char) : isDigit (if isDigit c then '0' else c) = isDigit c := by
    split
    · next hc => rw [hc]; decide
    · rfl
  rw [firstMark, outline, List.find?_map]
  simp only [Function.comp_def, hsame]
  change Option.map _ (firstMark cs) = firstMark cs
  cases hmark : firstMark cs with
  | none => rfl
  | some d =>
    have hd : isDigit d = false := by simpa using List.find?_some hmark
    simp [hd]

/-- What is fixed of an outline: all of it, or how it begins. -/
inductive Outline where
  | whole (text : List Char)
  | opening (text : List Char)
  deriving DecidableEq, Repr

namespace Outline

variable {o p : Outline}

def text : Outline → List Char
  | .whole text | .opening text => text

def Fits : Outline → List Char → Prop
  | .whole text, cs => outline cs = text
  | .opening text, cs => text <+: outline cs

/-- No text fits both. -/
def excludes : Outline → Outline → Bool
  | .whole s, .whole t => s != t
  | .whole s, .opening t => !decide (t <+: s)
  | .opening s, .whole t => !decide (s <+: t)
  | .opening s, .opening t => !decide (s <+: t) && !decide (t <+: s)

theorem Fits.exists_rest (h : o.Fits cs) : ∃ rest, outline cs = o.text ++ rest := by
  cases o with
  | whole text => exact ⟨[], h.trans (List.append_nil text).symm⟩
  | opening text =>
    obtain ⟨rest, hrest⟩ := h
    exact ⟨rest, hrest.symm⟩

theorem Fits.not_of_excludes (ho : o.Fits cs) (h : o.excludes p = true) : ¬ p.Fits cs := by
  intro hp
  cases o with
  | whole s =>
    cases p with
    | whole t =>
      have heq : s = t := ho.symm.trans hp
      simp [excludes, heq] at h
    | opening t =>
      have hstart : t <+: s := ho ▸ hp
      simp [excludes, hstart] at h
  | opening s =>
    cases p with
    | whole t =>
      have hstart : s <+: t := hp ▸ ho
      simp [excludes, hstart] at h
    | opening t =>
      -- Of two beginnings of one text, one begins the other.
      rcases List.prefix_or_prefix_of_prefix ho hp with hstart | hstart
      · simp [excludes, hstart] at h
      · simp [excludes, hstart] at h

/-- The first mark of an outline is that of every text that fits it. -/
theorem Fits.firstMark_eq (h : o.Fits cs) (hd : firstMark o.text = some d) :
    firstMark cs = some d := by
  obtain ⟨rest, hrest⟩ := h.exists_rest
  rw [← firstMark_outline, hrest, firstMark, List.find?_append]
  exact congrArg (Option.or · _) hd

/-- A mark behind the first character, other than a point. -/
def hasInnerMark (o : Outline) : Bool := o.text.tail.any fun d => !isDigit d && d != '.'

theorem Fits.isNumber_eq_false (h : o.Fits cs) (ho : o.hasInnerMark = true) :
    isNumber cs = false := by
  obtain ⟨rest, hrest⟩ := h.exists_rest
  obtain ⟨d, hd, hmark⟩ := List.any_eq_true.1 ho
  obtain ⟨hdigit, hpoint⟩ : isDigit d = false ∧ d ≠ '.' := by simpa using hmark
  have hne : o.text ≠ [] := by
    intro hnil
    rw [hnil] at hd
    cases hd
  have htail : outline cs.tail = o.text.tail ++ rest := by
    rw [outline, List.map_tail]
    change (outline cs).tail = _
    rw [hrest, List.tail_append_of_ne_nil hne]
  refine Shape.isNumber_eq_false (mem_of_mem_outline hdigit ?_) hdigit hpoint
  rw [htail]
  exact List.mem_append_left _ hd

end Outline

/-! ## The tests -/

/-- The test for a shape. There is none for strings: they are what passes no test. -/
def recognises : Shape → List Char → Bool
  | .number, cs => isNumber cs
  | .dateTime, cs => isDateTime cs
  | .date, cs => isDate cs
  | .time, cs => isTime cs
  | .year, cs => isYear cs
  | .monthDay, cs => isMonthDay cs
  | .string, _ => false

/-- The shapes with a test. -/
def typed : List Shape := [.number, .dateTime, .date, .time, .year, .monthDay]

/-- The outlines of all shapes but that of a number. -/
def outlines : Shape → List Outline
  | .dateTime => [.opening ['0', '0', '0', '0', '-', '0', '0', '-', '0', '0', 'T']]
  | .date => [.whole ['0', '0', '0', '0', '-', '0', '0', '-', '0', '0']]
  | .time => [.opening ['0', '0', ':', '0', '0']]
  | .year => [.whole ['0', '0', '0', '0', '-'], .whole ['0', '0', '0', '0', '-', '-']]
  | .monthDay =>
    [.whole ['0', '0', '-', '0', '0'], .whole ['-', '-', '0', '0', '-', '0', '0']]
  | .number | .string => []

variable {a b : Shape} {o p : Outline} {shapes shapes' : List Shape}

theorem mem_typed_of_recognises (h : a.recognises cs = true) : a ∈ typed := by
  cases a with
  | string => cases h
  | _ => decide

theorem mem_typed_of_mem_outlines (h : o ∈ a.outlines) : a ∈ typed := by
  cases a with
  | string => cases h
  | _ => decide

theorem outline_of_isDate (h : isDate cs = true) :
    outline cs = ['0', '0', '0', '0', '-', '0', '0', '-', '0', '0'] := by
  obtain ⟨year, month, day, rfl, hyear, hmonth, hday⟩ := eq_of_isDate h
  rw [outline_append, outline_cons (by decide), outline_append, outline_cons (by decide),
    outline_of_areDigits hyear, outline_of_areDigits hmonth, outline_of_areDigits hday]
  rfl

/-- A text with a shape other than that of a number fits one of its outlines. -/
theorem exists_outline (h : a.recognises cs = true) (ha : a ≠ .number) :
    ∃ o ∈ a.outlines, o.Fits cs := by
  cases a with
  | number => exact absurd rfl ha
  | dateTime =>
    obtain ⟨date, time, rfl, hdate, -⟩ := isDateTime_iff.1 h
    refine ⟨_, List.mem_cons_self, outline time, ?_⟩
    rw [outline_append, outline_cons (by decide), outline_of_isDate hdate]
    rfl
  | date => exact ⟨_, List.mem_cons_self, outline_of_isDate h⟩
  | time =>
    obtain ⟨hours, minutes, rest, rfl, hhours, hminutes⟩ := eq_of_isTime h
    refine ⟨_, List.mem_cons_self, outline rest, ?_⟩
    rw [outline_append, outline_cons (by decide), outline_append, outline_of_areDigits hhours,
      outline_of_areDigits hminutes]
    rfl
  | year =>
    obtain ⟨year, hyphens, rfl, hyear, hhyphens⟩ := eq_of_isYear h
    have houtline := (outline_append year hyphens).trans
      (congrArg (· ++ outline hyphens) (outline_of_areDigits hyear))
    rcases hhyphens with rfl | rfl
    · exact ⟨.whole _, List.mem_cons_self, houtline⟩
    · exact ⟨.whole _, List.mem_cons_of_mem _ List.mem_cons_self, houtline⟩
  | monthDay =>
    obtain ⟨hyphens, month, day, rfl, hhyphens, hmonth, hday⟩ := eq_of_isMonthDay h
    have houtline : outline (hyphens ++ (month ++ '-' :: day)) =
        outline hyphens ++ ['0', '0', '-', '0', '0'] := by
      rw [outline_append, outline_append, outline_cons (by decide), outline_of_areDigits hmonth,
        outline_of_areDigits hday]
      rfl
    rcases hhyphens with rfl | rfl
    · exact ⟨.whole _, List.mem_cons_self, houtline⟩
    · exact ⟨.whole _, List.mem_cons_of_mem _ List.mem_cons_self, houtline⟩
  | string => cases h

theorem excludes_of_mem_outlines (hne : a ≠ b) (ho : o ∈ a.outlines) (hp : p ∈ b.outlines) :
    o.excludes p = true := by
  have htable : (typed.all fun a => typed.all fun b => a == b ||
      a.outlines.all fun o => b.outlines.all fun p => o.excludes p) = true := by decide
  have hrow := List.all_eq_true.1 htable a (mem_typed_of_mem_outlines ho)
  have hentry := List.all_eq_true.1 hrow b (mem_typed_of_mem_outlines hp)
  rw [beq_eq_false_iff_ne.2 hne, Bool.false_or] at hentry
  exact List.all_eq_true.1 (List.all_eq_true.1 hentry o ho) p hp

theorem isNumber_eq_false_of_recognises (h : a.recognises cs = true) (ha : a ≠ .number) :
    isNumber cs = false := by
  have htable : (typed.all fun a => a.outlines.all Outline.hasInnerMark) = true := by decide
  obtain ⟨o, ho, hfits⟩ := exists_outline h ha
  have hrow := List.all_eq_true.1 htable a (mem_typed_of_mem_outlines ho)
  exact hfits.isNumber_eq_false (List.all_eq_true.1 hrow o ho)

/-- A text passes at most one test. -/
theorem eq_of_recognises (ha : a.recognises cs = true) (hb : b.recognises cs = true) : a = b := by
  have hnumber {a : Shape} (ha : a.recognises cs = true) (hcs : isNumber cs = true) :
      a = .number := by
    by_contra hne
    rw [isNumber_eq_false_of_recognises ha hne] at hcs
    cases hcs
  by_contra hne
  by_cases hcs : isNumber cs = true
  · exact hne ((hnumber ha hcs).trans (hnumber hb hcs).symm)
  · have hother {a : Shape} (ha : a.recognises cs = true) : a ≠ .number := by
      rintro rfl
      exact hcs ha
    obtain ⟨o, ho, hofits⟩ := exists_outline ha (hother ha)
    obtain ⟨p, hp, hpfits⟩ := exists_outline hb (hother hb)
    exact hofits.not_of_excludes (excludes_of_mem_outlines hne ho hp) hpfits

/-! ## The order of the tests -/

/-- The first of some shapes whose test a text passes; a text that passes none is a string. -/
def firstOf (shapes : List Shape) (cs : List Char) : Shape :=
  (shapes.find? (·.recognises cs)).getD .string

theorem firstOf_typed (cs : List Char) : firstOf typed cs = ofText cs := by
  simp only [firstOf, typed, ofText, List.find?_cons, recognises]
  cases isNumber cs <;> cases isDateTime cs <;> cases isDate cs <;> cases isTime cs <;>
    cases isYear cs <;> cases isMonthDay cs <;> rfl

theorem find?_recognises_iff :
    shapes.find? (·.recognises cs) = some a ↔ a ∈ shapes ∧ a.recognises cs = true := by
  have hsome {b : Shape} (h : shapes.find? (·.recognises cs) = some b) :
      b ∈ shapes ∧ b.recognises cs = true :=
    ⟨List.mem_of_find?_eq_some h, by simpa using List.find?_some h⟩
  refine ⟨hsome, fun ⟨hmem, ha⟩ => ?_⟩
  have hfound : (shapes.find? (·.recognises cs)).isSome = true :=
    List.find?_isSome.2 ⟨a, hmem, ha⟩
  obtain ⟨b, hb⟩ := Option.isSome_iff_exists.1 hfound
  rw [hb, eq_of_recognises (hsome hb).2 ha]

theorem firstOf_perm (h : shapes.Perm shapes') (cs : List Char) :
    firstOf shapes cs = firstOf shapes' cs := by
  have hfind : shapes.find? (·.recognises cs) = shapes'.find? (·.recognises cs) := by
    refine Option.ext fun a => ?_
    rw [find?_recognises_iff, find?_recognises_iff, h.mem_iff]
  rw [firstOf, firstOf, hfind]

/-- A text that passes a test has its shape. -/
theorem ofText_of_recognises (h : a.recognises cs = true) : ofText cs = a := by
  rw [← firstOf_typed, firstOf, find?_recognises_iff.2 ⟨mem_typed_of_recognises h, h⟩,
    Option.getD_some]

theorem recognises_of_ofText (h : ofText cs = a) (ha : a ≠ .string) : a.recognises cs = true := by
  rw [← firstOf_typed, firstOf] at h
  cases hfind : typed.find? (·.recognises cs) with
  | none =>
    rw [hfind] at h
    exact absurd h.symm ha
  | some b =>
    rw [hfind, Option.getD_some] at h
    exact h ▸ (find?_recognises_iff.1 hfind).2

end Shape

/-! ## What a literal denotes -/

/-- The shape of the literals that denote a value. -/
def Value.shape : Value → Shape
  | .long _ | .double _ => .number
  | .dateTime _ | .instant _ => .dateTime
  | .date _ => .date
  | .time _ => .time
  | .year _ => .year
  | .monthDay _ => .monthDay
  | .string _ | .boolean _ => .string

theorem Value.shape_of_isNumeric {v : Value} (h : v.isNumeric = true) : v.shape = .number := by
  cases v with
  | long | double => rfl
  | _ => cases h

namespace Literal

variable {cs : List Char} {quoted : Bool} {op : Operator} {v : Value}

theorem isNumeric_of_number (h : number cs = .ok v) : v.isNumeric = true := by
  unfold number at h
  split at h
  split at h
  · cases h
    rfl
  · simp only at h
    split_ifs at h <;> cases h <;> rfl

theorem shape_stringOrBoolean (cs : List Char) (op : Operator) :
    (stringOrBoolean cs op).shape = .string := by
  unfold stringOrBoolean
  simp only
  split_ifs <;> rfl

theorem orInvalid_eq_ok_iff {value : Option Value} :
    orInvalid cs value = .ok v ↔ value = some v := by
  cases value <;> simp [orInvalid, refuse]

/-- A literal denotes only values of its shape. -/
theorem shape_of_coerce (h : coerce zones cs quoted op = .ok v) :
    v.shape = if quoted then .string else Shape.ofText cs := by
  unfold coerce at h
  split at h
  · next hshape =>
    rw [hshape]
    cases hnumber : number cs with
    | ok w =>
      rw [hnumber] at h
      cases h
      exact Value.shape_of_isNumeric (isNumeric_of_number hnumber)
    | error e =>
      rw [hnumber] at h
      cases h
  · next hshape =>
    cases h
    rw [hshape, shape_stringOrBoolean]
  · next hshape =>
    rw [hshape]
    split_ifs at h
    · split at h <;> cases h
      rfl
    · obtain ⟨dt, -, rfl⟩ := Option.map_eq_some_iff.1 (orInvalid_eq_ok_iff.1 h)
      rfl
  · next hshape =>
    obtain ⟨d, -, rfl⟩ := Option.map_eq_some_iff.1 (orInvalid_eq_ok_iff.1 h)
    exact hshape.symm
  · next hshape =>
    obtain ⟨t, -, rfl⟩ := Option.map_eq_some_iff.1 (orInvalid_eq_ok_iff.1 h)
    exact hshape.symm
  · next hshape =>
    obtain ⟨md, -, rfl⟩ := Option.map_eq_some_iff.1 (orInvalid_eq_ok_iff.1 h)
    exact hshape.symm
  · next hshape =>
    cases h
    exact hshape.symm

end Literal

end FilterQuery
