set_option autoImplicit false

/-! # Replacing and splitting

`replaceAll` replaces every occurrence of a pattern, reading left to right and without overlaps:
after a match the scan goes on behind it, and what was written is not read again. `splitAll` cuts a
text at every occurrence of one character. -/

namespace FilterQuery.Text

/-- Scan for `pattern` while the first `skip` characters belong to the match before. -/
def replaceFrom (pattern replacement : List Char) : Nat → List Char → List Char
  | _, [] => []
  | skip + 1, _ :: rest => replaceFrom pattern replacement skip rest
  | 0, c :: rest =>
    if pattern.isPrefixOf (c :: rest) then
      replacement ++ replaceFrom pattern replacement (pattern.length - 1) rest
    else c :: replaceFrom pattern replacement 0 rest

/-- Replace every occurrence of `pattern`, left to right and without overlaps. -/
def replaceAll (pattern replacement cs : List Char) : List Char :=
  replaceFrom pattern replacement 0 cs

/-- Cut at every occurrence of `mark`; there is always at least one part. -/
def splitAll (mark : Char) : List Char → List (List Char)
  | [] => [[]]
  | c :: rest =>
    if c = mark then [] :: splitAll mark rest
    else match splitAll mark rest with
      | [] => [[c]]
      | part :: parts => (c :: part) :: parts

/-- Cut at the first occurrence of `mark`. -/
def splitFirst (mark : Char) : List Char → Option (List Char × List Char)
  | [] => none
  | c :: rest =>
    if c = mark then some ([], rest)
    else (splitFirst mark rest).map fun (before, after) => (c :: before, after)

/-- Cut before the last character that satisfies `p`. -/
def splitLast (p : Char → Bool) : List Char → Option (List Char × List Char)
  | [] => none
  | c :: rest =>
    match splitLast p rest with
    | some (before, after) => some (c :: before, after)
    | none => if p c then some ([], c :: rest) else none

/-- Put `separator` between the parts. -/
def join (separator : List Char) : List (List Char) → List Char
  | [] => []
  | [part] => part
  | part :: parts => part ++ separator ++ join separator parts

theorem splitAll_ne_nil (mark : Char) (cs : List Char) : splitAll mark cs ≠ [] := by
  cases cs with
  | nil => simp [splitAll]
  | cons c rest =>
    simp only [splitAll]
    split
    · simp
    · split <;> simp

/-- The parts, joined by the mark again, are the text. -/
theorem join_splitAll (mark : Char) (cs : List Char) : join [mark] (splitAll mark cs) = cs := by
  induction cs with
  | nil => simp [splitAll, join]
  | cons c rest ih =>
    simp only [splitAll]
    split
    · next h =>
      subst h
      cases hs : splitAll c rest with
      | nil => exact absurd hs (splitAll_ne_nil c rest)
      | cons part parts =>
        rw [hs] at ih
        simp [join, ih]
    · cases hs : splitAll mark rest with
      | nil => exact absurd hs (splitAll_ne_nil mark rest)
      | cons part parts =>
        rw [hs] at ih
        cases parts with
        | nil => simpa [join] using ih
        | cons next others => simpa [join] using ih

end FilterQuery.Text
