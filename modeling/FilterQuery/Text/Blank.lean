set_option autoImplicit false

/-! # Blank characters

The filter language separates its tokens by the characters of the Unicode property `White_Space`:
the five ASCII controls from tab to carriage return, the space, and sixteen characters beyond
ASCII. The zero-width space, the byte-order mark and the ASCII separators U+001C to U+001F are
*not* blank.

`trim` removes blank characters at both ends and nothing else. -/

namespace FilterQuery.Text

/-- The ranges of code points with the property `White_Space`, in ascending order. -/
def blankRanges : List (Nat × Nat) :=
  [(0x09, 0x0D), (0x20, 0x20), (0x85, 0x85), (0xA0, 0xA0), (0x1680, 0x1680), (0x2000, 0x200A),
   (0x2028, 0x2029), (0x202F, 0x202F), (0x205F, 0x205F), (0x3000, 0x3000)]

/-- A character that separates tokens and carries no meaning of its own. -/
def isBlank (c : Char) : Bool :=
  blankRanges.any fun (lo, hi) => lo ≤ c.toNat && c.toNat ≤ hi

def trimStart (cs : List Char) : List Char := cs.dropWhile isBlank

def trimEnd (cs : List Char) : List Char := (cs.reverse.dropWhile isBlank).reverse

/-- Remove the blank characters at both ends. -/
def trim (cs : List Char) : List Char := trimEnd (trimStart cs)

/-- `trim` on strings. -/
def trimmed (s : String) : String := String.ofList (trim s.toList)

theorem isBlank_space : isBlank ' ' = true := by decide

@[simp] theorem trim_nil : trim [] = [] := rfl

/-- Text with no blank at either end stays as it is. -/
theorem trim_eq_self {cs : List Char} (hfirst : ∀ c ∈ cs.head?, isBlank c = false)
    (hlast : ∀ c ∈ cs.getLast?, isBlank c = false) : trim cs = cs := by
  have keeps {ds : List Char} (h : ∀ c ∈ ds.head?, isBlank c = false) :
      ds.dropWhile isBlank = ds := by
    cases ds with
    | nil => rfl
    | cons d ds => simp [h d rfl]
  rw [trim, trimStart, keeps hfirst, trimEnd, keeps (by rwa [List.head?_reverse]),
    List.reverse_reverse]

/-- Trimmed text starts with no blank. -/
theorem not_isBlank_of_trim_eq {c : Char} {cs : List Char} (h : trim (c :: cs) = c :: cs) :
    isBlank c = false := by
  have htrim : (trim (c :: cs)).length ≤ (trimStart (c :: cs)).length := by
    simpa [trim, trimEnd] using
      (List.dropWhile_sublist (l := (trimStart (c :: cs)).reverse) isBlank).length_le
  cases hblank : isBlank c with
  | false => rfl
  | true =>
    have hshort : (trimStart (c :: cs)).length ≤ cs.length := by
      simpa [trimStart, hblank] using (List.dropWhile_sublist (l := cs) isBlank).length_le
    have hlength := congrArg List.length h
    simp only [List.length_cons] at hlength
    omega

end FilterQuery.Text
