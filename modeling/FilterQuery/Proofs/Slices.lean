import FilterQuery.Failure
import FilterQuery.Text.Bytes
import FilterQuery.Text.Replace
import FilterQuery.Text.Utf8
import FilterQuery.Proofs.Digits

set_option autoImplicit false

/-! # Slices of texts

A text that is kept in its UTF-8 form is cut at byte offsets, and its bytes are looked at one by
one. Both can go wrong: an offset may lie behind the end, or inside a character. `slice` and
`byteAt` have a fault then. A cut is in place where the characters in front of it take just as many
bytes (`slice_append`); a byte of the ASCII range is a character by itself wherever it is found
(`byteAt_eq_ok_iff`), so that finding one is as good as looking for a boundary. -/

namespace FilterQuery.Text

variable {c m : Char} {n : Nat} {cs before after : List Char}

/-- The characters between two byte offsets. -/
def slice (start stop : Nat) (cs : List Char) : Except Fault (List Char) :=
  match splitAtByte start cs with
  | none => .error .splitCharacter
  | some (_, rest) =>
    if start ≤ stop then
      match splitAtByte (stop - start) rest with
      | none => .error .splitCharacter
      | some (part, _) => .ok part
    else .error .splitCharacter

/-- The byte at an offset. -/
def byteAt (n : Nat) (cs : List Char) : Except Fault Nat :=
  match (encodeUtf8 cs)[n]? with
  | none => .error .splitCharacter
  | some b => .ok b

/-- The bytes in front of an offset. -/
def bytesTo (n : Nat) (cs : List Char) : Except Fault (List Nat) :=
  if n ≤ (encodeUtf8 cs).length then .ok ((encodeUtf8 cs).take n) else .error .splitCharacter

/-- The offset of the first character of a kind. -/
def firstOffset? (p : Char → Bool) : List Char → Option Nat
  | [] => none
  | c :: rest => if p c then some 0 else (firstOffset? p rest).map (c.utf8Size + ·)

/-- The offset of the last character of a kind. -/
def lastOffset? (p : Char → Bool) : List Char → Option Nat
  | [] => none
  | c :: rest =>
    match lastOffset? p rest with
    | some n => some (c.utf8Size + n)
    | none => if p c then some 0 else none

def isAscii (c : Char) : Bool := c.toNat < 0x80

def isDigitByte (b : Nat) : Bool := '0'.toNat ≤ b && b ≤ '9'.toNat

/-! ## Cuts in place -/

theorem splitAtByte_byteSize (before after : List Char) :
    splitAtByte (byteSize before) (before ++ after) = some (before, after) := by
  induction before with
  | nil =>
    rw [byteSize, List.nil_append]
    cases after <;> rfl
  | cons c before ih =>
    have hpos : 0 < c.utf8Size := Char.utf8Size_pos c
    obtain ⟨k, hk⟩ : ∃ k, byteSize (c :: before) = k + 1 :=
      ⟨c.utf8Size + byteSize before - 1, by rw [byteSize]; omega⟩
    have hle : c.utf8Size ≤ k + 1 := by rw [← hk, byteSize]; omega
    have hrest : k + 1 - c.utf8Size = byteSize before := by rw [← hk, byteSize]; omega
    rw [hk, List.cons_append, splitAtByte, if_pos hle, hrest, ih]
    rfl

/-- A cut is in place if the characters before it take as many bytes. -/
theorem slice_append (before part after : List Char) :
    slice (byteSize before) (byteSize before + byteSize part) (before ++ (part ++ after)) =
      .ok part := by
  have hstop : byteSize before + byteSize part - byteSize before = byteSize part := by omega
  simp only [slice, splitAtByte_byteSize, Nat.le_add_right, if_true, hstop]

theorem slice_to (before after : List Char) :
    slice 0 (byteSize before) (before ++ after) = .ok before := by
  simpa [byteSize] using slice_append [] before after

theorem slice_from (before after : List Char) :
    slice (byteSize before) (byteSize (before ++ after)) (before ++ after) = .ok after := by
  simpa using slice_append before after []

/-- Between two cuts in place, in their order, there is a slice. -/
theorem exists_slice {before' after' : List Char} (h : before ++ after = before' ++ after')
    (hle : byteSize before ≤ byteSize before') :
    ∃ part, slice (byteSize before) (byteSize before') (before ++ after) = .ok part := by
  rcases List.append_eq_append_iff.1 h with ⟨part, rfl, rfl⟩ | ⟨part, rfl, rfl⟩
  · exact ⟨part, by rw [byteSize_append]; exact slice_append before part after'⟩
  · -- the cuts are the same one
    have hstop : byteSize before' = byteSize (before' ++ part) + byteSize [] := by
      rw [byteSize_append] at hle ⊢
      rw [byteSize]
      omega
    exact ⟨[], by rw [hstop]; exact slice_append (before' ++ part) [] after⟩

/-- There is no slice up to an offset without a cut. -/
theorem slice_to_eq_error (h : splitAtByte n cs = none) :
    slice 0 n cs = .error .splitCharacter := by
  simp [slice, splitAtByte, h]

/-- ASCII characters take a byte each. -/
theorem byteSize_of_isAscii (h : cs.all isAscii = true) : byteSize cs = cs.length := by
  induction cs with
  | nil => rfl
  | cons c cs ih =>
    rw [List.all_cons, Bool.and_eq_true] at h
    have hsize : c.utf8Size = 1 := by
      have hc : c.toNat < 0x80 := by simpa [isAscii] using h.1
      rw [Char.utf8Size_eq_one_iff, UInt32.le_iff_toNat_le]
      exact Nat.lt_succ_iff.1 hc
    rw [byteSize, hsize, ih h.2, List.length_cons, Nat.add_comm]

theorem isAscii_of_isDigit (h : isDigit c = true) : isAscii c = true := by
  have hall : ['0', '1', '2', '3', '4', '5', '6', '7', '8', '9'].all isAscii = true := by decide
  exact List.all_eq_true.1 hall c (mem_of_isDigit h)

/-- The parts in front of an ASCII mark and behind it. -/
theorem slices_at_mark (hm : isAscii m = true) (before after : List Char) :
    slice 0 (byteSize before) (before ++ m :: after) = .ok before ∧
      slice (byteSize before + 1) (byteSize (before ++ m :: after)) (before ++ m :: after) =
        .ok after := by
  have hmark : byteSize [m] = 1 := byteSize_of_isAscii (by simp [hm])
  have hslice := slice_from (before ++ [m]) after
  rw [List.append_assoc, List.singleton_append, byteSize_append before [m], hmark] at hslice
  exact ⟨slice_to before (m :: after), hslice⟩

theorem slice_of_isAscii {start stop : Nat} (h : cs.all isAscii = true) (hle : start ≤ stop)
    (hstop : stop ≤ cs.length) :
    slice start stop cs = .ok ((cs.drop start).take (stop - start)) := by
  have hall : ∀ k l : Nat, ((cs.drop k).take l).all isAscii = true := by
    intro k l
    refine List.all_eq_true.2 fun c hc => ?_
    exact List.all_eq_true.1 h c (List.mem_of_mem_drop (List.mem_of_mem_take hc))
  have hbefore : byteSize (cs.take start) = start := by
    rw [byteSize_of_isAscii (by simpa using hall 0 start), List.length_take]
    omega
  have hpart : byteSize ((cs.drop start).take (stop - start)) = stop - start := by
    rw [byteSize_of_isAscii (hall start _), List.length_take, List.length_drop]
    omega
  have hslice := slice_append (cs.take start) ((cs.drop start).take (stop - start))
    ((cs.drop start).drop (stop - start))
  rw [List.take_append_drop, List.take_append_drop, hbefore, hpart] at hslice
  rwa [Nat.add_sub_cancel' hle] at hslice

/-! ## Bytes -/

theorem length_encodeChar (c : Char) : (encodeChar c).length = c.utf8Size := by
  have hval : c.toNat = c.val.toNat := rfl
  simp only [encodeChar, Char.utf8Size, hval, UInt32.le_iff_toNat_le, UInt32.toNat_ofNatLT,
    ← Nat.lt_succ_iff]
  split_ifs <;> rfl

theorem length_encodeUtf8 (cs : List Char) : (encodeUtf8 cs).length = byteSize cs := by
  induction cs with
  | nil => rfl
  | cons c cs ih =>
    rw [encodeUtf8, List.flatMap_cons, List.length_append, length_encodeChar, ← encodeUtf8, ih,
      byteSize]

theorem encodeChar_of_isAscii (h : isAscii c = true) : encodeChar c = [c.toNat] := by
  have hc : c.toNat < 0x80 := by simpa [isAscii] using h
  simp [encodeChar, hc]

/-- The bytes of other characters are beyond ASCII. -/
theorem le_of_mem_encodeChar {b : Nat} (h : isAscii c = false) (hb : b ∈ encodeChar c) :
    0x80 ≤ b := by
  have hc : ¬ c.toNat < 0x80 := by simpa [isAscii] using h
  simp only [encodeChar, if_neg hc] at hb
  split_ifs at hb
  all_goals
    simp only [continuation, List.mem_cons, List.not_mem_nil, or_false] at hb
    omega

theorem splitAtByte_eq_some_iff :
    splitAtByte n cs = some (before, after) ↔ cs = before ++ after ∧ byteSize before = n := by
  constructor
  · intro h
    exact ⟨(splitAtByte_append h).symm, byteSize_of_splitAtByte h⟩
  · rintro ⟨rfl, rfl⟩
    exact splitAtByte_byteSize before after

/-- A byte of the ASCII range is a character, and not a part of one. -/
theorem byteAt_eq_ok_iff (hm : isAscii m = true) :
    byteAt n cs = .ok m.toNat ↔
      ∃ before after, cs = before ++ m :: after ∧ byteSize before = n := by
  have hget : byteAt n cs = .ok m.toNat ↔ (encodeUtf8 cs)[n]? = some m.toNat := by
    unfold byteAt
    split
    · next h => simp [h]
    · next b h => simp [h]
  rw [hget]
  clear hget
  constructor
  · intro h
    induction cs generalizing n with
    | nil => simp [encodeUtf8] at h
    | cons c cs ih =>
      rw [encodeUtf8, List.flatMap_cons, ← encodeUtf8] at h
      by_cases hn : n < (encodeChar c).length
      · rw [List.getElem?_append_left hn] at h
        have hlow : m.toNat < 0x80 := by simpa [isAscii] using hm
        cases hc : isAscii c with
        | false =>
          have := le_of_mem_encodeChar hc (List.mem_of_getElem? h)
          omega
        | true =>
          rw [encodeChar_of_isAscii hc] at h hn
          obtain rfl : n = 0 := by simpa using hn
          obtain rfl : c = m := Char.toNat_inj.1 (by simpa using h)
          exact ⟨[], cs, rfl, rfl⟩
      · rw [List.getElem?_append_right (Nat.not_lt.1 hn), length_encodeChar] at h
        obtain ⟨before, after, rfl, hsize⟩ := ih h
        rw [length_encodeChar] at hn
        exact ⟨c :: before, after, rfl, by rw [byteSize]; omega⟩
  · rintro ⟨before, after, rfl, rfl⟩
    simp [encodeUtf8, encodeChar_of_isAscii hm, ← length_encodeUtf8]

theorem exists_byteAt (h : n < byteSize cs) : ∃ b, byteAt n cs = .ok b := by
  rw [← length_encodeUtf8] at h
  exact ⟨(encodeUtf8 cs)[n], by simp [byteAt, h]⟩

/-- Comparing a byte with an ASCII character is looking behind a cut. -/
theorem beq_of_byteAt {b : Nat} (hm : isAscii m = true) (h : byteAt n cs = .ok b) :
    (b == m.toNat) = (splitAtByte n cs).any fun parts => parts.2.head? == some m := by
  have hiff := @byteAt_eq_ok_iff m n cs hm
  rw [h, Except.ok.injEq] at hiff
  rw [Bool.eq_iff_iff, beq_iff_eq, hiff]
  constructor
  · rintro ⟨before, after, rfl, rfl⟩
    simp [splitAtByte_byteSize]
  · intro hany
    cases hsplit : splitAtByte n cs with
    | none => simp [hsplit] at hany
    | some parts =>
      obtain ⟨before, after⟩ := parts
      obtain ⟨after', rfl⟩ : ∃ after', after = m :: after' := by
        simpa [hsplit, List.head?_eq_some_iff] using hany
      exact ⟨before, after', splitAtByte_eq_some_iff.1 hsplit⟩

theorem isDigitByte_toNat (c : Char) : isDigitByte c.toNat = isDigit c := by
  simp [isDigitByte, isDigit, Char.le_def, UInt32.le_iff_toNat_le]

theorem isDigitByte_of_le {b : Nat} (h : 0x80 ≤ b) : isDigitByte b = false := by
  have hhigh : 57 < b := by omega
  simp [isDigitByte, hhigh]

/-- Bytes that are digits are characters that are. -/
theorem all_take_encodeUtf8 (n : Nat) (cs : List Char) (hn : n ≤ byteSize cs) :
    ((encodeUtf8 cs).take n).all isDigitByte = areDigits n (cs.take n) := by
  induction n generalizing cs with
  | zero => simp [areDigits]
  | succ n ih =>
    cases cs with
    | nil => simp [byteSize] at hn
    | cons c cs =>
      have hareDigits : areDigits (n + 1) ((c :: cs).take (n + 1)) =
          (isDigit c && areDigits n (cs.take n)) := by
        simp [areDigits, Bool.and_left_comm]
      rw [hareDigits, encodeUtf8, List.flatMap_cons, ← encodeUtf8]
      cases hc : isAscii c with
      | true =>
        have hsize : byteSize [c] = 1 := byteSize_of_isAscii (by simp [hc])
        have hn' : n ≤ byteSize cs := by
          simp only [byteSize] at hn hsize
          omega
        rw [encodeChar_of_isAscii hc, List.singleton_append, List.take_succ_cons, List.all_cons,
          isDigitByte_toNat, ih cs hn']
      | false =>
        have hpos : 0 < (encodeChar c).length := length_encodeChar c ▸ Char.utf8Size_pos c
        obtain ⟨b, bytes, hbytes⟩ := List.exists_cons_of_length_pos hpos
        have hb : 0x80 ≤ b := le_of_mem_encodeChar hc (by simp [hbytes])
        have hc' : 0x80 ≤ c.toNat := by simpa [isAscii] using hc
        rw [hbytes, List.cons_append, List.take_succ_cons, List.all_cons, isDigitByte_of_le hb,
          ← isDigitByte_toNat, isDigitByte_of_le hc', Bool.false_and, Bool.false_and]

/-! ## Characters that are looked for -/

theorem firstOffset?_eq (m : Char) (cs : List Char) :
    firstOffset? (· == m) cs = (splitFirst m cs).map fun parts => byteSize parts.1 := by
  induction cs with
  | nil => rfl
  | cons c cs ih =>
    by_cases hc : c = m
    · simp [firstOffset?, splitFirst, hc, byteSize]
    · simp [firstOffset?, splitFirst, hc, ih, Function.comp_def, byteSize]

theorem splitLast_eq_none_iff {p : Char → Bool} :
    splitLast p cs = none ↔ ∀ c ∈ cs, p c = false := by
  induction cs with
  | nil => simp [splitLast]
  | cons c cs ih =>
    rw [splitLast, List.forall_mem_cons, ← ih]
    cases splitLast p cs with
    | some parts => simp
    | none => simp

theorem splitLast_append {p : Char → Bool} (hc : p c = true) (hafter : ∀ d ∈ after, p d = false) :
    splitLast p (before ++ c :: after) = some (before, c :: after) := by
  induction before with
  | nil => simp [splitLast, splitLast_eq_none_iff.2 hafter, hc]
  | cons b before ih => simp [splitLast, ih]

/-- The last character of a kind is one behind which there is no other. -/
theorem eq_of_splitLast {p : Char → Bool} (h : splitLast p cs = some (before, after)) :
    ∃ c rest, after = c :: rest ∧ cs = before ++ c :: rest ∧ p c = true ∧
      ∀ d ∈ rest, p d = false := by
  induction cs generalizing before with
  | nil => cases h
  | cons c cs ih =>
    rw [splitLast] at h
    split at h
    · next before' after' hsplit =>
      obtain ⟨rfl, rfl⟩ := Prod.mk.inj (Option.some.inj h)
      obtain ⟨d, rest, rfl, rfl, hd, hrest⟩ := ih hsplit
      exact ⟨d, rest, rfl, rfl, hd, hrest⟩
    · next hnone =>
      split_ifs at h with hc
      obtain ⟨rfl, rfl⟩ := Prod.mk.inj (Option.some.inj h)
      exact ⟨c, cs, rfl, rfl, hc, splitLast_eq_none_iff.1 hnone⟩

theorem lastOffset?_eq (p : Char → Bool) (cs : List Char) :
    lastOffset? p cs = (splitLast p cs).map fun parts => byteSize parts.1 := by
  induction cs with
  | nil => rfl
  | cons c cs ih =>
    rw [lastOffset?, splitLast, ih]
    cases splitLast p cs with
    | some parts => simp [byteSize]
    | none => by_cases hc : p c <;> simp [hc, byteSize]

end FilterQuery.Text
