import FilterQuery.Text.Ascii
import FilterQuery.Text.Blank
import FilterQuery.Text.Replace
import FilterQuery.Value
import Mathlib.Data.List.Basic
import Mathlib.Tactic.IntervalCases

set_option autoImplicit false

/-! # Digits

A number padded to a width is a row of digits that spells it, and the row has that width if the
number fits. What a reader of dates needs besides is that no digit is a mark that it cuts at. The
texts of whole numbers and doubles are digits with few letters between them (`numeralLetters`). -/

namespace FilterQuery.Text

variable {c d : Char} {n width : Nat} {cs rest : List Char}

/-! ## Characters -/

theorem mem_of_isDigit (h : isDigit c = true) :
    c ∈ ['0', '1', '2', '3', '4', '5', '6', '7', '8', '9'] := by
  obtain ⟨hlow, hhigh⟩ : 48 ≤ c.toNat ∧ c.toNat ≤ 57 := by
    simpa [isDigit, Char.le_def, UInt32.le_iff_toNat_le] using h
  rw [← Char.ofNat_toNat c]
  generalize c.toNat = n at hlow hhigh
  interval_cases n <;> decide

theorem ne_of_isDigit (h : isDigit c = true) (hd : isDigit d = false) : c ≠ d := by
  rintro rfl
  rw [h] at hd
  cases hd

theorem not_mem_of_isDigit (h : ∀ c ∈ cs, isDigit c = true) (hd : isDigit d = false) : d ∉ cs :=
  fun hmem => ne_of_isDigit (h d hmem) hd rfl

theorem not_isBlank_of_isDigit (h : isDigit c = true) : isBlank c = false := by
  have hall : (['0', '1', '2', '3', '4', '5', '6', '7', '8', '9'].all fun d => !isBlank d) = true :=
    by decide
  simpa using List.all_eq_true.1 hall c (mem_of_isDigit h)

theorem digitValue_lt (h : isDigit c = true) : digitValue c < 10 := by
  have hall : (['0', '1', '2', '3', '4', '5', '6', '7', '8', '9'].all fun d =>
      decide (digitValue d < 10)) = true := by decide
  simpa using List.all_eq_true.1 hall c (mem_of_isDigit h)

theorem isDigit_eq (c : Char) : isDigit c = c.isDigit := by
  simp [isDigit, Char.isDigit, Char.le_def, UInt32.le_iff_toNat_le]

/-! ## Rows of digits -/

theorem isDigit_of_mem_toDigits (h : c ∈ Nat.toDigits 10 n) : isDigit c = true := by
  rw [isDigit_eq]
  exact Nat.isDigit_of_mem_toDigits (by decide) (by decide) h

theorem ofDigits_lt (h : ∀ c ∈ cs, isDigit c = true) : ofDigits cs < 10 ^ cs.length := by
  have hfold : ∀ n, cs.foldl (fun n c => 10 * n + digitValue c) n < (n + 1) * 10 ^ cs.length := by
    induction cs with
    | nil => simp
    | cons c cs ih =>
      intro n
      have hc := digitValue_lt (h c List.mem_cons_self)
      calc (c :: cs).foldl (fun n c => 10 * n + digitValue c) n
          < (10 * n + digitValue c + 1) * 10 ^ cs.length :=
            ih (fun d hd => h d (List.mem_cons_of_mem c hd)) _
        _ ≤ ((n + 1) * 10) * 10 ^ cs.length := Nat.mul_le_mul_right _ (by omega)
        _ = (n + 1) * 10 ^ (c :: cs).length := by
            rw [List.length_cons, Nat.pow_succ', Nat.mul_assoc]
  simpa [ofDigits] using hfold 0

theorem ofDigits_natDigits (n : Nat) : ofDigits (natDigits n) = n := Nat.ofDigitChars_ten_toDigits

theorem allDigits_natDigits (n : Nat) : allDigits (natDigits n) = true := by
  have hne : natDigits n ≠ [] := Nat.toDigits_ne_nil
  have hall : (natDigits n).all isDigit = true :=
    List.all_eq_true.2 fun c hc => isDigit_of_mem_toDigits hc
  simp [allDigits, hne, hall]

theorem isDigit_of_mem_padded (h : c ∈ padded width n) : isDigit c = true := by
  rcases List.mem_append.1 h with hzero | hdigit
  · rw [List.eq_of_mem_replicate hzero]
    decide
  · exact isDigit_of_mem_toDigits hdigit

theorem allDigits_padded (width n : Nat) : allDigits (padded width n) = true := by
  have hne : padded width n ≠ [] := by simp [padded]
  have hall : (padded width n).all isDigit = true :=
    List.all_eq_true.2 fun c hc => isDigit_of_mem_padded hc
  simp [allDigits, hne, hall]

theorem ofDigits_padded (width n : Nat) : ofDigits (padded width n) = n := by
  show Nat.ofDigitChars 10 (List.replicate _ '0' ++ Nat.toDigits 10 n) 0 = n
  rw [Nat.ofDigitChars_append, Nat.ofDigitChars_replicate_zero, Nat.mul_zero,
    Nat.ofDigitChars_ten_toDigits]

theorem length_padded (hwidth : 0 < width) (hn : n < 10 ^ width) :
    (padded width n).length = width := by
  have hle : (Nat.toDigits 10 n).length ≤ width :=
    (Nat.length_toDigits_le_iff (by decide) hwidth).2 hn
  simp only [padded, List.length_append, List.length_replicate]
  omega

theorem isDigit_of_areDigits {c : Char} {cs : List Char} (h : areDigits n cs = true) (hc : c ∈ cs) :
    isDigit c = true :=
  List.all_eq_true.1 (Bool.and_eq_true_iff.1 h).2 c hc

theorem areDigits_padded (hwidth : 0 < width) (hn : n < 10 ^ width) :
    areDigits width (padded width n) = true := by
  simp only [areDigits, length_padded hwidth hn, beq_self_eq_true, Bool.true_and]
  exact List.all_eq_true.2 fun c hc => isDigit_of_mem_padded hc

/-! ## Cutting at marks -/

/-- A run ends where something else begins. -/
theorem takeWhile_append_eq {α : Type} {p : α → Bool} {front rest : List α}
    (hfront : ∀ a ∈ front, p a = true) (hrest : ∀ a ∈ rest.head?, p a = false) :
    (front ++ rest).takeWhile p = front ∧ (front ++ rest).dropWhile p = rest := by
  rw [List.takeWhile_append_of_pos hfront, List.dropWhile_append_of_pos hfront]
  cases rest with
  | nil => simp
  | cons a rest => simp [hrest a rfl]

theorem splitFirst_eq_none (h : c ∉ cs) : splitFirst c cs = none := by
  induction cs with
  | nil => rfl
  | cons d cs ih =>
    rw [List.mem_cons, not_or] at h
    rw [splitFirst, if_neg (Ne.symm h.1), ih h.2]
    rfl

theorem splitFirst_append (h : c ∉ cs) : splitFirst c (cs ++ c :: rest) = some (cs, rest) := by
  induction cs with
  | nil => simp [splitFirst]
  | cons d cs ih =>
    rw [List.mem_cons, not_or] at h
    rw [List.cons_append, splitFirst, if_neg (Ne.symm h.1), ih h.2]
    rfl

theorem eq_of_splitFirst {before after : List Char} (h : splitFirst c cs = some (before, after)) :
    cs = before ++ c :: after ∧ c ∉ before := by
  induction cs generalizing before with
  | nil => cases h
  | cons d cs ih =>
    rw [splitFirst] at h
    split_ifs at h with hd
    · obtain ⟨rfl, rfl⟩ := Prod.mk.inj (Option.some.inj h)
      simp [hd]
    · obtain ⟨⟨before', after'⟩, hsplit, heq⟩ := Option.map_eq_some_iff.1 h
      obtain ⟨rfl, rfl⟩ := Prod.mk.inj heq
      obtain ⟨rfl, hmem⟩ := ih hsplit
      exact ⟨rfl, by simp [hmem, Ne.symm hd]⟩

/-- A text does not end in a character that its back lacks. -/
theorem getLast?_ne_of_not_mem {front back : List Char} (hne : back ≠ []) (h : c ∉ back) :
    (front ++ back).getLast? ≠ some c := by
  rw [List.getLast?_append_of_ne_nil _ hne]
  exact fun hlast => h (List.mem_of_getLast? hlast)

theorem splitAll_eq_singleton (h : c ∉ cs) : splitAll c cs = [cs] := by
  induction cs with
  | nil => rfl
  | cons d cs ih =>
    rw [List.mem_cons, not_or] at h
    rw [splitAll, if_neg (Ne.symm h.1), ih h.2]

theorem splitAll_append_cons : splitAll c (cs ++ c :: rest) = splitAll c cs ++ splitAll c rest := by
  induction cs with
  | nil => simp [splitAll]
  | cons d cs ih =>
    rw [List.cons_append, splitAll, splitAll, ih]
    split
    · rfl
    · obtain ⟨part, parts, hparts⟩ := List.exists_cons_of_ne_nil (splitAll_ne_nil c cs)
      simp [hparts]

theorem splitAll_append (h : c ∉ cs) : splitAll c (cs ++ c :: rest) = cs :: splitAll c rest := by
  rw [splitAll_append_cons, splitAll_eq_singleton h]
  rfl

end FilterQuery.Text

namespace FilterQuery

open FilterQuery.Text

/-! ## Numerals -/

/-- The characters of numerals besides the digits: signs, points, and the letters of what is no
finite number. -/
def numeralLetters : List Char := ['-', '.', 'N', 'a', 'i', 'n', 'f']

theorem Binary64.isDigit_or_eq_of_mem_positional {d : Decimal} {c : Char}
    (h : c ∈ d.positional) : isDigit c = true ∨ c = '.' := by
  have hdigits : ∀ c ∈ natDigits d.digits, isDigit c = true := fun c hc =>
    isDigit_of_mem_toDigits hc
  have hzeros : ∀ n, ∀ c ∈ List.replicate n '0', isDigit c = true := by
    intro n c hc
    rw [List.eq_of_mem_replicate hc]
    decide
  unfold Decimal.positional at h
  extract_lets digits at h
  split at h
  · next n hn =>
    rcases List.mem_append.1 h with hc | hc
    · exact .inl (hdigits c hc)
    · exact .inl (hzeros n c hc)
  · next n hn =>
    extract_lets places filled wholeLength fraction at h
    have hfilled : ∀ c ∈ filled, isDigit c = true := by
      intro c hc
      rcases List.mem_append.1 hc with hc | hc
      · exact hzeros _ c hc
      · exact hdigits c hc
    have hfraction : ∀ c ∈ fraction, isDigit c = true := by
      intro c hc
      have hdrop := (List.dropWhile_sublist _).mem (List.mem_reverse.1 hc)
      exact hfilled c (List.mem_of_mem_drop (List.mem_reverse.1 hdrop))
    split at h
    · exact .inl (hfilled c (List.mem_of_mem_take h))
    · rcases List.mem_append.1 h with hc | hc
      · exact .inl (hfilled c (List.mem_of_mem_take hc))
      · rcases List.mem_cons.1 hc with hc | hc
        · exact .inr hc
        · exact .inl (hfraction c hc)

theorem Binary64.mem_text {x : Binary64} {c : Char} (h : c ∈ x.text) :
    isDigit c = true ∨ c ∈ numeralLetters := by
  have hletters : ∀ cs : List Char, cs.all numeralLetters.contains = true → c ∈ cs →
      c ∈ numeralLetters := fun cs hall hc => by simpa using List.all_eq_true.1 hall c hc
  have hpoint : c = '.' → c ∈ numeralLetters := fun hc => hc ▸ by decide
  unfold Binary64.text at h
  split at h
  · exact .inr (hletters _ (by decide) h)
  · extract_lets digits unsigned at h
    have hunsigned : c ∈ unsigned → isDigit c = true ∨ c ∈ numeralLetters := by
      intro hc
      simp only [unsigned] at hc
      split at hc
      · exact .inr (hletters _ (by decide) hc)
      · have hdigits : c ∈ digits → isDigit c = true ∨ c ∈ numeralLetters := by
          intro hc
          simp only [digits] at hc
          split at hc
          · rw [List.mem_singleton.1 hc]
            exact .inl (by decide)
          · exact (isDigit_or_eq_of_mem_positional hc).imp_right hpoint
        split at hc
        · exact hdigits hc
        · rcases List.mem_append.1 hc with hc | hc
          · exact hdigits hc
          · rcases List.mem_cons.1 hc with hc | hc
            · exact .inr (hpoint hc)
            · rw [List.mem_singleton.1 hc]
              exact .inl (by decide)
    split at h
    · rcases List.mem_cons.1 h with rfl | hc
      · exact .inr (by decide)
      · exact hunsigned hc
    · exact hunsigned h

theorem mem_intText {n : Int} {c : Char} (h : c ∈ intText n) :
    isDigit c = true ∨ c ∈ numeralLetters := by
  unfold intText at h
  split at h
  · rcases List.mem_cons.1 h with rfl | hc
    · exact .inr (by decide)
    · exact .inl (isDigit_of_mem_toDigits hc)
  · exact .inl (isDigit_of_mem_toDigits h)

theorem Value.mem_text_of_isNumeric {v : Value} (hv : v.isNumeric = true) {c : Char}
    (h : c ∈ v.text) : isDigit c = true ∨ c ∈ numeralLetters := by
  cases v with
  | long n => exact mem_intText h
  | double x => exact Binary64.mem_text h
  | _ => cases hv

end FilterQuery
