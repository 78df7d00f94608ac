set_option autoImplicit false

/-! # Byte offsets

Positions in a filter are offsets into its UTF-8 form, while the library works on lists of
characters. This module converts between the two: how many bytes a text takes, and where a cut at a
byte offset falls. A cut inside a multi-byte character has no result. -/

namespace FilterQuery.Text

/-- Length of the UTF-8 form in bytes. -/
def byteSize : List Char → Nat
  | [] => 0
  | c :: rest => c.utf8Size + byteSize rest

@[simp] theorem byteSize_append (xs ys : List Char) :
    byteSize (xs ++ ys) = byteSize xs + byteSize ys := by
  induction xs with
  | nil => simp [byteSize]
  | cons c rest ih => simp [byteSize, ih, Nat.add_assoc]

/-- Cut a text at a byte offset: the characters before it and those from it on. There is no cut
inside a character or beyond the end. -/
def splitAtByte : Nat → List Char → Option (List Char × List Char)
  | 0, cs => some ([], cs)
  | _ + 1, [] => none
  | n + 1, c :: rest =>
    if c.utf8Size ≤ n + 1 then
      (splitAtByte (n + 1 - c.utf8Size) rest).map fun (before, after) => (c :: before, after)
    else none
termination_by structural _ cs => cs

/-- A cut loses nothing. -/
theorem splitAtByte_append {n : Nat} {cs before after : List Char}
    (h : splitAtByte n cs = some (before, after)) : before ++ after = cs := by
  induction cs generalizing n before after with
  | nil => cases n <;> simp_all [splitAtByte]
  | cons c rest ih =>
    cases n with
    | zero => simp_all [splitAtByte]
    | succ n =>
      simp only [splitAtByte] at h
      split at h
      · obtain ⟨⟨b, a⟩, hba, heq⟩ := Option.map_eq_some_iff.1 h
        obtain ⟨rfl, rfl⟩ := Prod.mk.inj heq
        simp [ih hba]
      · simp at h

/-- The part before a cut takes exactly the bytes up to the offset. -/
theorem byteSize_of_splitAtByte {n : Nat} {cs before after : List Char}
    (h : splitAtByte n cs = some (before, after)) : byteSize before = n := by
  induction cs generalizing n before after with
  | nil => cases n <;> simp_all [splitAtByte, byteSize]
  | cons c rest ih =>
    cases n with
    | zero => simp_all [splitAtByte, byteSize]
    | succ n =>
      simp only [splitAtByte] at h
      split at h
      · obtain ⟨⟨b, a⟩, hba, heq⟩ := Option.map_eq_some_iff.1 h
        obtain ⟨rfl, rfl⟩ := Prod.mk.inj heq
        simp only [byteSize, ih hba]
        omega
      · simp at h

end FilterQuery.Text
