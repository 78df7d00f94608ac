import FilterQuery.Escape
import FilterQuery.Text.Blank
import Mathlib.Data.List.Basic
import Mathlib.Data.List.Infix

set_option autoImplicit false

/-! # What resolving makes of a text

Read from left to right, a text is a row of signs: characters with a mark in front that escapes
them, and plain characters. The stages of `resolve` do not see the signs; each replaces a pattern
wherever it finds it.

The first stages stay in step with the signs of every text. `Sign.after marks done` is a sign in
between, when escaped marks are written as `marks` and the characters of `done` have lost theirs.
The last stages do not stay in step, and `settle` is what they make of a row. It goes from sign to
sign (`settle_cons`), except in two places:

* a text may hold the placeholder itself, or all of it up to the one of an escaped mark (`Clash`);
* an escaped mark in front of a plain structural character is taken for the mark of it, and dropped
  (`LosesMark`).

Apart from escaped wildcards, which are doubled, these are all the texts that are not resolved to
the characters of their signs (`resolve_eq_decode_iff`). -/

namespace FilterQuery.Escape

open FilterQuery.Text

/-! ## Replacing -/

theorem replaceFrom_length_append (pattern replacement skipped rest : List Char) :
    replaceFrom pattern replacement skipped.length (skipped ++ rest) =
      replaceAll pattern replacement rest := by
  induction skipped with
  | nil => rfl
  | cons c skipped ih => simpa only [List.length_cons, List.cons_append, replaceFrom] using ih

theorem replaceAll_append_of_match (c : Char) (pattern replacement rest : List Char) :
    replaceAll (c :: pattern) replacement (c :: (pattern ++ rest)) =
      replacement ++ replaceAll (c :: pattern) replacement rest := by
  have hprefix : (c :: pattern).isPrefixOf (c :: (pattern ++ rest)) = true :=
    List.isPrefixOf_iff_prefix.2 ⟨rest, rfl⟩
  rw [replaceAll, replaceFrom, if_pos hprefix, List.length_cons, Nat.add_sub_cancel,
    replaceFrom_length_append]

/-- A character at which the pattern does not start is passed over. -/
theorem replaceAll_cons_of_not_prefix {pattern : List Char} {c : Char} {rest : List Char}
    (h : ¬ pattern <+: c :: rest) (replacement : List Char) :
    replaceAll pattern replacement (c :: rest) = c :: replaceAll pattern replacement rest := by
  rw [replaceAll, replaceFrom, if_neg fun hp => h (List.isPrefixOf_iff_prefix.1 hp)]
  rfl

theorem replaceAll_cons_of_ne {c d : Char} (h : c ≠ d) (pattern replacement rest : List Char) :
    replaceAll (d :: pattern) replacement (c :: rest) =
      c :: replaceAll (d :: pattern) replacement rest :=
  replaceAll_cons_of_not_prefix (fun hp => h (List.cons_prefix_cons.1 hp).1.symm) _

/-- So is a mark, unless the character behind it is the escaped one. -/
theorem replaceAll_mark_of_head?_ne {c : Char} {rest : List Char} (h : rest.head? ≠ some c)
    (replacement : List Char) :
    replaceAll [mark, c] replacement (mark :: rest) =
      mark :: replaceAll [mark, c] replacement rest := by
  refine replaceAll_cons_of_not_prefix (fun hp => h ?_) _
  obtain ⟨tail, htail⟩ := (List.cons_prefix_cons.1 hp).2
  rw [← htail]
  rfl

/-- Characters that the pattern and its replacement hold alike often stay as many. -/
theorem count_replaceAll {c d : Char} {pattern replacement : List Char}
    (h : replacement.count c = (d :: pattern).count c) (cs : List Char) :
    (replaceAll (d :: pattern) replacement cs).count c = cs.count c := by
  have hfrom (skip : Nat) : (replaceFrom (d :: pattern) replacement skip cs).count c =
      (cs.drop skip).count c := by
    fun_induction replaceFrom (d :: pattern) replacement skip cs with
    | case1 => simp
    | case2 skip e rest ih => simpa using ih
    | case3 e rest hprefix ih =>
      obtain ⟨tail, htail⟩ := List.isPrefixOf_iff_prefix.1 hprefix
      obtain ⟨rfl, rfl⟩ := List.cons.inj htail
      rw [List.count_append, ih, h]
      simp [List.count_cons]
      omega
    | case4 e rest hprefix ih =>
      simpa [List.count_cons] using ih
  exact hfrom 0

/-! ## Signs -/

/-- A character with a mark in front of it, or one that stands for itself. -/
inductive Sign where
  | escaped (c : Char) (h : isEscapable c = true)
  | plain (c : Char)
  deriving DecidableEq, Repr

/-- What stands for an escaped character in resolved text. -/
def resolved (c : Char) : List Char := if isWildcard c then [c, c] else [c]

namespace Sign

/-- An escaped mark. -/
def mark : Sign := .escaped Escape.mark rfl

/-- The character that the sign denotes. -/
def char : Sign → Char
  | .escaped c _ | .plain c => c

def isEscapedWildcard : Sign → Bool
  | .escaped c _ => isWildcard c
  | .plain _ => false

/-- The sign after some stages: how an escaped mark is written, and which characters have lost their
marks. -/
def after (marks done : List Char) : Sign → List Char
  | .escaped c _ =>
    if c = Escape.mark then marks
    else if c ∈ done then Escape.resolved c
    else [Escape.mark, c]
  | .plain c => [c]

/-- The sign as it is written. -/
abbrev written : Sign → List Char := after [Escape.mark, Escape.mark] []

/-- The sign while the escaped marks are set aside. -/
abbrev aside : Sign → List Char := after placeholder ['?', '*']

/-- The sign as it should be resolved. -/
def resolved : Sign → List Char
  | .escaped c _ => Escape.resolved c
  | .plain c => [c]

end Sign

/-- The kinds of signs that `resolve` treats differently. -/
theorem Sign.kinds {P : Sign → Prop} (mark : P Sign.mark)
    (wildcard : ∀ c h, isWildcard c = true → P (.escaped c h))
    (structural : ∀ c h, c ∈ Escape.structural → P (.escaped c h)) (plain : ∀ c, P (.plain c))
    (s : Sign) : P s := by
  cases s with
  | plain c => exact plain c
  | escaped c h =>
    by_cases hc : c = Escape.mark
    · subst hc
      exact mark
    by_cases hwild : isWildcard c = true
    · exact wildcard c h hwild
    · exact structural c h (by simpa [isEscapable, hc, hwild, isStructural] using h)

/-- The characters that have an escape. -/
theorem mem_of_isEscapable {c : Char} (h : isEscapable c = true) :
    c ∈ mark :: '*' :: '?' :: structural := by
  simpa [isEscapable, isWildcard, isStructural, or_assoc] using h

theorem ne_mark_of_isWildcard {c : Char} (h : isWildcard c = true) : c ≠ mark := by
  rintro rfl
  exact absurd h (by decide)

theorem mem_pair_of_isWildcard {c : Char} (h : isWildcard c = true) : c ∈ ['?', '*'] := by
  simpa [isWildcard, or_comm] using h

theorem ne_mark_of_mem_structural {c : Char} (h : c ∈ structural) : c ≠ mark := by
  rintro rfl
  exact absurd h (by decide)

theorem not_isWildcard_of_mem_structural {c : Char} (h : c ∈ structural) :
    isWildcard c = false := by
  have hall : (structural.all fun d => !isWildcard d) = true := by decide
  simpa using List.all_eq_true.1 hall c h

theorem not_isWildcard_of_mem_placeholder {c : Char} (h : c ∈ placeholder) :
    isWildcard c = false := by
  have hall : (placeholder.all fun d => !isWildcard d) = true := by decide
  simpa using List.all_eq_true.1 hall c h

namespace Sign

variable {marks : List Char} {c : Char} {h : isEscapable c = true}

@[simp] theorem after_mark {done : List Char} : Sign.mark.after marks done = marks := by
  simp [Sign.mark, after]

@[simp] theorem written_escaped : (escaped c h).written = [Escape.mark, c] := by
  by_cases hc : c = Escape.mark <;> simp [after, hc]

theorem after_wildcard (hc : isWildcard c = true) :
    (escaped c h).after marks ['?', '*'] = [c, c] := by
  simp only [after, if_neg (ne_mark_of_isWildcard hc), if_pos (mem_pair_of_isWildcard hc),
    Escape.resolved, hc, if_true]

theorem after_structural (hc : c ∈ structural) :
    (escaped c h).after marks ['?', '*'] = [Escape.mark, c] := by
  have hwild := not_isWildcard_of_mem_structural hc
  have hdone : c ∉ ['?', '*'] := by simpa [isWildcard, or_comm] using hwild
  simp only [after, if_neg (ne_mark_of_mem_structural hc), if_neg hdone]

theorem resolved_wildcard (hc : isWildcard c = true) : (escaped c h).resolved = [c, c] := if_pos hc

theorem resolved_structural (hc : c ∈ structural) : (escaped c h).resolved = [c] :=
  if_neg (by simp [not_isWildcard_of_mem_structural hc])

end Sign

/-- An escaped wildcard is all that is not resolved to the one character that it denotes. -/
theorem Sign.resolved_eq_iff (s : Sign) :
    s.resolved = [s.char] ↔ s.isEscapedWildcard = false := by
  cases s with
  | plain c => simp [Sign.resolved, Sign.char, Sign.isEscapedWildcard]
  | escaped c h =>
    by_cases hc : isWildcard c = true <;>
      simp [Sign.resolved, Escape.resolved, Sign.char, Sign.isEscapedWildcard, hc]

theorem Sign.isWildcard_char (s : Sign) (h : s.isEscapedWildcard = true) :
    isWildcard s.char = true := by
  cases s with
  | escaped c _ => exact h
  | plain c => cases h

/-- The signs of a text, read from left to right. -/
def signs : List Char → List Sign
  | [] => []
  | [c] => [.plain c]
  | c :: d :: rest =>
    if h : c = mark ∧ isEscapable d = true then .escaped d h.2 :: signs rest
    else .plain c :: signs (d :: rest)

/-- What a text denotes: every escape stands for the character behind its mark. -/
def decode (cs : List Char) : List Char := (signs cs).map Sign.char

/-- A plain mark has nothing behind it that it could escape. -/
def Legible : List Sign → Prop
  | [] => True
  | s :: rest =>
    (s = .plain mark → ∀ c ∈ (rest.flatMap Sign.written).head?, isEscapable c = false) ∧
      Legible rest

theorem flatMap_written_signs (cs : List Char) : (signs cs).flatMap Sign.written = cs := by
  fun_induction signs cs with
  | case1 => rfl
  | case2 c => rfl
  | case3 c d rest h ih =>
    obtain ⟨rfl, -⟩ := h
    rw [List.flatMap_cons, ih]
    simp
  | case4 c d rest h ih => simpa [Sign.after] using ih

theorem legible_signs (cs : List Char) : Legible (signs cs) := by
  fun_induction signs cs with
  | case1 => trivial
  | case2 c => exact ⟨by simp, trivial⟩
  | case3 c d rest h ih => exact ⟨by simp, ih⟩
  | case4 c d rest h ih =>
    refine ⟨fun hc e he => ?_, ih⟩
    rw [flatMap_written_signs] at he
    obtain rfl : d = e := by simpa using he
    simpa [Sign.plain.inj hc] using h

/-- What a plain mark stands in front of, after some stages. -/
theorem Legible.head?_ne {marks done : List Char} {rest : List Sign} {c : Char}
    (h : Legible (.plain mark :: rest)) (hc : isEscapable c = true) :
    (rest.flatMap (Sign.after marks done)).head? ≠ some c := by
  have hnext := h.1 rfl
  cases rest with
  | nil => simp
  | cons s rest =>
    cases s with
    | escaped d hd =>
      -- The mark of the escape would be escaped.
      have hmark := hnext mark (by simp)
      exact absurd hmark (by decide)
    | plain d =>
      have hd := hnext d (by simp [Sign.after])
      simp only [Sign.after, List.flatMap_cons, List.singleton_append, List.head?_cons, ne_eq,
        Option.some.injEq]
      rintro rfl
      rw [hc] at hd
      cases hd

/-! ## The stages that stay in step -/

/-- A stage that treats every sign by itself treats the whole row so. -/
theorem replaceAll_flatMap {pattern replacement : List Char} {before after : Sign → List Char}
    {row : List Sign} (hrow : Legible row)
    (h : ∀ (s : Sign) (rest : List Sign), Legible (s :: rest) →
      replaceAll pattern replacement (before s ++ rest.flatMap before) =
        after s ++ replaceAll pattern replacement (rest.flatMap before)) :
    replaceAll pattern replacement (row.flatMap before) = row.flatMap after := by
  induction row with
  | nil => rfl
  | cons s rest ih => rw [List.flatMap_cons, List.flatMap_cons, h s rest hrow, ih hrow.2]

theorem protectMarks_written {row : List Sign} (hrow : Legible row) :
    protectMarks (row.flatMap Sign.written) = row.flatMap (Sign.after placeholder []) := by
  refine replaceAll_flatMap hrow fun s rest hs => ?_
  cases s with
  | escaped c h =>
    by_cases hc : c = mark
    · simpa [Sign.after, hc] using replaceAll_append_of_match mark [mark] placeholder _
    · simp only [Sign.after, hc, List.not_mem_nil, if_false, List.cons_append, List.nil_append]
      rw [replaceAll_mark_of_head?_ne (by simpa using hc), replaceAll_cons_of_ne hc]
  | plain c =>
    by_cases hc : c = mark
    · subst hc
      exact replaceAll_mark_of_head?_ne (hs.head?_ne (by decide)) _
    · exact replaceAll_cons_of_ne hc _ _ _

theorem replaceAll_resolved_append {c d : Char} (h : c ≠ d)
    (pattern replacement rest : List Char) :
    replaceAll (d :: pattern) replacement (resolved c ++ rest) =
      resolved c ++ replaceAll (d :: pattern) replacement rest := by
  unfold resolved
  split <;> simp [replaceAll_cons_of_ne h]

/-- The escapes of one character are resolved while the escaped marks are set aside. -/
theorem replaceAll_escaped {done : List Char} {c : Char} (hc : isEscapable c = true)
    (hmark : c ≠ mark) (hdone : c ∉ done) {row : List Sign} (hrow : Legible row) :
    replaceAll [mark, c] (resolved c) (row.flatMap (Sign.after placeholder done)) =
      row.flatMap (Sign.after placeholder (c :: done)) := by
  refine replaceAll_flatMap hrow fun s rest hs => ?_
  cases s with
  | escaped d h =>
    by_cases hd : d = mark
    · -- No character of the placeholder is a mark.
      simp only [Sign.after, hd, if_true, placeholder, List.cons_append, List.nil_append]
      iterate 5 rw [replaceAll_cons_of_ne (by decide)]
    by_cases hcd : d = c
    · subst hcd
      simp only [Sign.after, if_neg hd, if_neg hdone, List.mem_cons_self, if_true]
      exact replaceAll_append_of_match mark [d] (resolved d) _
    · simp only [Sign.after, if_neg hd, List.mem_cons, hcd, false_or]
      split
      · exact replaceAll_resolved_append hd _ _ _
      · simp only [List.cons_append, List.nil_append]
        rw [replaceAll_mark_of_head?_ne (by simpa using hcd), replaceAll_cons_of_ne hd]
  | plain d =>
    by_cases hd : d = mark
    · subst hd
      exact replaceAll_mark_of_head?_ne (hs.head?_ne hc) _
    · exact replaceAll_cons_of_ne hd _ _ _

theorem doubleWildcards_after {row : List Sign} (hrow : Legible row) :
    doubleWildcards (row.flatMap (Sign.after placeholder [])) = row.flatMap Sign.aside := by
  have hstar := replaceAll_escaped (c := '*') (by decide) (by decide) (by simp : _ ∉ []) hrow
  have hquestion :=
    replaceAll_escaped (c := '?') (by decide) (by decide) (by decide : _ ∉ ['*']) hrow
  rw [← hquestion, ← hstar]
  rfl

/-! ## Losing marks

All structural characters lose their marks in one pass. -/

/-- Drop every mark in front of a character of the set. -/
def unmark (set : List Char) : List Char → List Char
  | [] => []
  | [c] => [c]
  | c :: d :: rest =>
    if c = mark ∧ d ∈ set then d :: unmark set rest else c :: unmark set (d :: rest)

theorem unmark_cons_of_ne {set rest : List Char} {c : Char} (h : c ≠ mark) :
    unmark set (c :: rest) = c :: unmark set rest := by
  cases rest with
  | nil => rfl
  | cons d rest => simp [unmark, h]

theorem unmark_mark_of_head? {set rest : List Char} (h : ∀ c ∈ rest.head?, c ∉ set) :
    unmark set (mark :: rest) = mark :: unmark set rest := by
  cases rest with
  | nil => rfl
  | cons d rest => simp [unmark, h d rfl]

theorem unmark_nil (cs : List Char) : unmark [] cs = cs := by
  fun_induction unmark [] cs with
  | case1 => rfl
  | case2 => rfl
  | case3 c d rest h => simp at h
  | case4 c d rest h ih => rw [ih]

/-- A character that has a mark to lose is not behind a mark that was kept. -/
theorem head?_unmark_ne {set cs : List Char} {c : Char} (hc : c ∉ set) (h : cs.head? ≠ some c) :
    (unmark set cs).head? ≠ some c := by
  fun_cases unmark set cs with
  | case1 => simp
  | case2 => simpa using h
  | case3 d e rest hd =>
    simp only [List.head?_cons, ne_eq, Option.some.injEq]
    rintro rfl
    exact hc hd.2
  | case4 d e rest hd => simpa using h

theorem replaceAll_unmark {set : List Char} {c : Char} (hset : mark ∉ set) (hmark : c ≠ mark)
    (hc : c ∉ set) (cs : List Char) :
    replaceAll [mark, c] [c] (unmark set cs) = unmark (c :: set) cs := by
  fun_induction unmark (c :: set) cs with
  | case1 => rfl
  | case2 d =>
    by_cases hd : d = mark
    · subst hd
      exact replaceAll_mark_of_head?_ne (by simp) _
    · exact replaceAll_cons_of_ne hd _ _ _
  | case3 d e rest h ih =>
    obtain ⟨rfl, he⟩ := h
    rcases List.mem_cons.1 he with rfl | he
    · rw [unmark, if_neg fun h => hc h.2, unmark_cons_of_ne hmark, ← ih]
      exact replaceAll_append_of_match mark [e] [e] _
    · have hne : e ≠ mark := by rintro rfl; exact hset he
      rw [unmark, if_pos ⟨rfl, he⟩, replaceAll_cons_of_ne hne, ih]
  | case4 d e rest h ih =>
    have hsmaller : ¬ (d = mark ∧ e ∈ set) := fun h' => h ⟨h'.1, List.mem_cons_of_mem _ h'.2⟩
    rw [unmark, if_neg hsmaller, ← ih]
    by_cases hd : d = mark
    · subst hd
      have hne : e ≠ c := by rintro rfl; exact h ⟨rfl, List.mem_cons_self⟩
      exact replaceAll_mark_of_head?_ne (head?_unmark_ne hc (by simpa using hne)) _
    · exact replaceAll_cons_of_ne hd _ _ _

theorem foldl_unmark {cs set : List Char} (hmark : mark ∉ cs ++ set) (hnodup : (cs ++ set).Nodup)
    (text : List Char) :
    cs.foldl (fun text c => replaceAll [mark, c] [c] text) (unmark set text) =
      unmark (cs.reverse ++ set) text := by
  induction cs generalizing set with
  | nil => rfl
  | cons c cs ih =>
    simp only [List.cons_append, List.mem_cons, List.mem_append, not_or, List.nodup_cons]
      at hmark hnodup
    obtain ⟨hc, hmark⟩ := hmark
    rw [List.foldl_cons, replaceAll_unmark hmark.2 (Ne.symm hc) hnodup.1.2, ih]
    · simp
    · simp [hc, hmark]
    · exact List.perm_middle.nodup_iff.2 (List.nodup_cons.2 (by simpa using hnodup))

theorem unmarkStructural_eq (cs : List Char) :
    unmarkStructural cs = unmark structural.reverse cs := by
  have hfold := @foldl_unmark structural [] (by decide) (by decide) cs
  rwa [unmark_nil, List.append_nil] at hfold

/-! ## The row that the last stages see -/

/-- What the last stages make of a row of signs. -/
def settle (row : List Sign) : List Char :=
  unmark structural.reverse (restoreMarks (row.flatMap Sign.aside))

theorem resolve_written {row : List Sign} (hrow : Legible row) :
    resolve (row.flatMap Sign.written) = settle row := by
  rw [resolve, protectMarks_written hrow, doubleWildcards_after hrow, unmarkStructural_eq]
  rfl

theorem resolve_eq_settle (cs : List Char) : resolve cs = settle (signs cs) := by
  have hrow := resolve_written (legible_signs cs)
  rwa [flatMap_written_signs] at hrow

/-- The placeholder up to its last character, as plain signs. -/
def halfPlaceholder : List Sign := placeholder.dropLast.map .plain

/-- The row starts with the placeholder, of which the last character may be the first one of an
escaped mark that was set aside. -/
def StartsWithClash (row : List Sign) : Prop :=
  ∃ last ∈ [Sign.plain '\x00', Sign.mark], halfPlaceholder ++ [last] <+: row

/-- The row starts with an escaped mark and a structural character that has no mark of its own. -/
def StartsWithLoss (row : List Sign) : Prop := ∃ c ∈ structural, [Sign.mark, .plain c] <+: row

variable {s : Sign} {row rest : List Sign} {c : Char}

/-- What a sign starts with when the wildcards have lost their marks. -/
theorem Sign.exists_after_eq (m : Char) (ms : List Char) (s : Sign) :
    ∃ c cs, s.after (m :: ms) ['?', '*'] = c :: cs ∧
      (s = .plain c ∨ s = Sign.mark ∧ c = m ∨ c = Escape.mark ∨ isWildcard c = true) := by
  induction s using Sign.kinds with
  | mark => exact ⟨m, ms, after_mark, .inr (.inl ⟨rfl, rfl⟩)⟩
  | wildcard c h hc => exact ⟨c, [c], after_wildcard hc, .inr (.inr (.inr hc))⟩
  | structural c h hc => exact ⟨Escape.mark, [c], after_structural hc, .inr (.inr (.inl rfl))⟩
  | plain c => exact ⟨c, [], rfl, .inl rfl⟩

/-- The characters of the placeholder are those of plain signs, or the first one of an escaped
mark. -/
theorem exists_of_prefix_aside {cs : List Char} (hc : c ∈ placeholder)
    (h : c :: cs <+: row.flatMap Sign.aside) :
    (∃ rest, row = .plain c :: rest ∧ cs <+: rest.flatMap Sign.aside) ∨
      ∃ rest, row = Sign.mark :: rest ∧ c = '\x00' := by
  cases row with
  | nil => simp at h
  | cons s rest =>
    obtain ⟨d, ds, haside, hs⟩ := s.exists_after_eq '\x00' placeholder.tail
    rw [List.flatMap_cons] at h
    change c :: cs <+: s.after ('\x00' :: placeholder.tail) ['?', '*'] ++ _ at h
    rw [haside] at h
    obtain ⟨rfl, htail⟩ := List.cons_prefix_cons.1 h
    rcases hs with rfl | ⟨rfl, rfl⟩ | rfl | hwild
    · obtain ⟨-, rfl⟩ := List.cons.inj haside
      exact .inl ⟨rest, rfl, htail⟩
    · exact .inr ⟨rest, rfl, rfl⟩
    · exact absurd hc (by decide)
    · rw [not_isWildcard_of_mem_placeholder hc] at hwild
      cases hwild

/-- The placeholder is found at a plain sign exactly if a clash starts there. -/
theorem placeholder_prefix_iff :
    placeholder <+: (.plain c :: rest).flatMap Sign.aside ↔ StartsWithClash (.plain c :: rest) := by
  constructor
  · intro h
    have plain {d : Char} {ds : List Char} {row : List Sign} (hd : d ∈ placeholder)
        (hne : d ≠ '\x00') (h : d :: ds <+: row.flatMap Sign.aside) :
        ∃ rest, row = .plain d :: rest ∧ ds <+: rest.flatMap Sign.aside :=
      (exists_of_prefix_aside hd h).resolve_right fun ⟨_, _, heq⟩ => hne heq
    obtain ⟨rfl, h₁⟩ := List.cons_prefix_cons.1 h
    obtain ⟨rest, rfl, h₂⟩ := plain (by decide) (by decide) h₁
    obtain ⟨rest, rfl, h₃⟩ := plain (by decide) (by decide) h₂
    obtain ⟨rest, rfl, h₄⟩ := plain (by decide) (by decide) h₃
    rcases exists_of_prefix_aside (by decide) h₄ with ⟨rest, rfl, -⟩ | ⟨rest, rfl, -⟩
    · exact ⟨.plain '\x00', by simp, rest, rfl⟩
    · exact ⟨Sign.mark, by simp, rest, rfl⟩
  · rintro ⟨last, hlast, tail, htail⟩
    rw [← htail]
    rcases List.mem_pair.1 hlast with rfl | rfl
    · exact ⟨_, rfl⟩
    · exact ⟨_, rfl⟩

/-- The escaped marks come back, sign by sign, as far as no clash starts. -/
theorem restoreMarks_cons (h : ¬ StartsWithClash (s :: rest)) :
    restoreMarks ((s :: rest).flatMap Sign.aside) =
      s.after [mark] ['?', '*'] ++ restoreMarks (rest.flatMap Sign.aside) := by
  rw [List.flatMap_cons]
  induction s using Sign.kinds with
  | mark => exact replaceAll_append_of_match _ _ _ _
  | wildcard c hc hwild =>
    have hnull : c ≠ '\x00' := by rintro rfl; exact absurd hc (by decide)
    rw [Sign.aside, Sign.after_wildcard hwild, Sign.after_wildcard hwild]
    simp [restoreMarks, placeholder, replaceAll_cons_of_ne hnull]
  | structural c hc hstructural =>
    have hnull : c ≠ '\x00' := by rintro rfl; exact absurd hc (by decide)
    have hmark : mark ≠ '\x00' := by decide
    rw [Sign.aside, Sign.after_structural hstructural, Sign.after_structural hstructural]
    simp [restoreMarks, placeholder, replaceAll_cons_of_ne hnull, replaceAll_cons_of_ne hmark]
  | plain c =>
    rw [← placeholder_prefix_iff] at h
    exact replaceAll_cons_of_not_prefix h _

/-- A clash is taken for an escaped mark. -/
theorem exists_restoreMarks_of_clash (h : StartsWithClash row) :
    ∃ cs, restoreMarks (row.flatMap Sign.aside) = mark :: cs := by
  obtain ⟨last, hlast, tail, rfl⟩ := h
  rcases List.mem_pair.1 hlast with rfl | rfl
  · exact ⟨_, replaceAll_append_of_match _ _ _ _⟩
  · exact ⟨_, replaceAll_append_of_match _ _ _ _⟩

theorem not_startsWithClash_of_ne (h : s ≠ .plain '\x00') : ¬ StartsWithClash (s :: rest) := by
  rintro ⟨last, -, tail, htail⟩
  exact h (List.cons.inj htail).1.symm

/-- Only a plain sign puts a structural character behind a mark that came back. -/
theorem exists_plain_of_head?_restoreMarks (hc : c ∈ structural)
    (h : (restoreMarks (row.flatMap Sign.aside)).head? = some c) :
    ∃ rest, row = .plain c :: rest := by
  have hmark := ne_mark_of_mem_structural hc
  by_cases hclash : StartsWithClash row
  · obtain ⟨cs, hcs⟩ := exists_restoreMarks_of_clash hclash
    rw [hcs] at h
    exact absurd (Option.some.inj h).symm hmark
  cases row with
  | nil => cases h
  | cons s rest =>
    obtain ⟨d, ds, hafter, hs⟩ := s.exists_after_eq mark []
    rw [restoreMarks_cons hclash, hafter] at h
    obtain rfl : d = c := Option.some.inj h
    rcases hs with rfl | ⟨-, hd⟩ | hd | hd
    · exact ⟨rest, rfl⟩
    · exact absurd hd hmark
    · exact absurd hd hmark
    · rw [not_isWildcard_of_mem_structural hc] at hd
      cases hd

/-- Away from clashes and losses, a row is settled sign by sign. -/
theorem settle_cons (hs : Legible (s :: rest)) (hclash : ¬ StartsWithClash (s :: rest))
    (hloss : ¬ StartsWithLoss (s :: rest)) : settle (s :: rest) = s.resolved ++ settle rest := by
  rw [settle, restoreMarks_cons hclash, settle]
  have hplain {c : Char} (hc : c ∈ (restoreMarks (rest.flatMap Sign.aside)).head?)
      (hmem : c ∈ structural.reverse) : ∃ rest', rest = .plain c :: rest' :=
    exists_plain_of_head?_restoreMarks (List.mem_reverse.1 hmem) hc
  induction s using Sign.kinds with
  | mark =>
    refine unmark_mark_of_head? fun c hc hmem => hloss ?_
    obtain ⟨rest, rfl⟩ := hplain hc hmem
    exact ⟨c, List.mem_reverse.1 hmem, rest, rfl⟩
  | wildcard c h hc =>
    rw [Sign.after_wildcard hc, Sign.resolved_wildcard hc]
    simp [unmark_cons_of_ne (ne_mark_of_isWildcard hc)]
  | structural c h hc =>
    rw [Sign.after_structural hc, Sign.resolved_structural hc]
    simp [unmark, hc]
  | plain c =>
    by_cases hc : c = mark
    · subst hc
      refine unmark_mark_of_head? fun c hc hmem => ?_
      obtain ⟨rest, rfl⟩ := hplain hc hmem
      have hescapable : isEscapable c = true := by
        simp [isEscapable, isStructural, List.mem_reverse.1 hmem]
      exact absurd rfl (@Legible.head?_ne [] [] _ _ hs hescapable)
    · exact unmark_cons_of_ne hc

/-- The mark is dropped. -/
theorem settle_of_loss (hc : c ∈ structural) :
    settle (Sign.mark :: .plain c :: rest) = c :: settle rest := by
  have hnull : c ≠ '\x00' := by rintro rfl; exact absurd hc (by decide)
  rw [settle, restoreMarks_cons (not_startsWithClash_of_ne (by simp [Sign.mark])),
    restoreMarks_cons (not_startsWithClash_of_ne (by simpa using hnull)), settle]
  rw [Sign.after_mark]
  simp [Sign.after, unmark, hc]

/-- The first character of a clash is gone. -/
theorem head?_settle_of_clash (h : StartsWithClash row) : (settle row).head? ≠ some '\x00' := by
  obtain ⟨cs, hcs⟩ := exists_restoreMarks_of_clash h
  rw [settle, hcs]
  exact head?_unmark_ne (by decide) (by simp; decide)

/-! ## Texts that are read once -/

/-- A clash starts somewhere in the row. -/
def Clash (row : List Sign) : Prop :=
  ∃ last ∈ [Sign.plain '\x00', Sign.mark], halfPlaceholder ++ [last] <:+: row

/-- Somewhere in the row an escaped mark stands in front of a structural character that has no mark
of its own. -/
def LosesMark (row : List Sign) : Prop := ∃ c ∈ structural, [Sign.mark, .plain c] <:+: row

instance : DecidablePred Clash := fun _ => List.decidableBEx _ _

instance : DecidablePred LosesMark := fun _ => List.decidableBEx _ _

theorem clash_cons : Clash (s :: row) ↔ StartsWithClash (s :: row) ∨ Clash row := by
  simp only [Clash, StartsWithClash, List.infix_cons_iff, and_or_left, exists_or]

theorem losesMark_cons : LosesMark (s :: row) ↔ StartsWithLoss (s :: row) ∨ LosesMark row := by
  simp only [LosesMark, StartsWithLoss, List.infix_cons_iff, and_or_left, exists_or]

/-- Where a clash starts the first character is wrong, and where a mark is lost the mark itself.
Everywhere else the row is settled sign by sign. -/
theorem settle_eq_flatMap_iff (hrow : Legible row) :
    settle row = row.flatMap Sign.resolved ↔ ¬ Clash row ∧ ¬ LosesMark row := by
  induction row with
  | nil =>
    refine iff_of_true rfl ⟨?_, ?_⟩
    · simp [Clash, halfPlaceholder, placeholder]
    · simp [LosesMark]
  | cons s rest ih =>
    rw [clash_cons, losesMark_cons, not_or, not_or, List.flatMap_cons]
    by_cases hclash : StartsWithClash (s :: rest)
    · refine iff_of_false (fun h => head?_settle_of_clash hclash ?_) fun h => h.1.1 hclash
      obtain ⟨last, -, tail, htail⟩ := hclash
      rw [h, ← (List.cons.inj htail).1]
      rfl
    by_cases hloss : StartsWithLoss (s :: rest)
    · refine iff_of_false (fun h => ?_) fun h => h.2.1 hloss
      obtain ⟨c, hc, tail, htail⟩ := hloss
      obtain ⟨rfl, rfl⟩ := List.cons.inj htail
      have hhead : c = mark := (List.cons.inj ((settle_of_loss hc).symm.trans h)).1
      exact ne_mark_of_mem_structural hc hhead
    · rw [settle_cons hrow hclash hloss, List.append_right_inj, ih hrow.2]
      simp only [hclash, hloss, not_false_eq_true, true_and]

/-! ## How often a character occurs -/

theorem count_unmarkStructural (hc : c ≠ mark) (cs : List Char) :
    (unmarkStructural cs).count c = cs.count c := by
  rw [unmarkStructural]
  generalize structural = set
  induction set generalizing cs with
  | nil => rfl
  | cons d set ih =>
    rw [List.foldl_cons, ih, count_replaceAll]
    simp [List.count_cons, Ne.symm hc]

/-- The last stages count for marks and the characters of the placeholder only. -/
theorem count_settle (hc : c ≠ mark) (hplace : c ∉ placeholder) (row : List Sign) :
    (settle row).count c = (row.flatMap Sign.aside).count c := by
  have hmarks : [mark].count c = placeholder.count c := by
    rw [List.count_eq_zero_of_not_mem hplace, List.count_eq_zero_of_not_mem (by simpa using hc)]
  rw [settle, ← unmarkStructural_eq, count_unmarkStructural hc]
  exact count_replaceAll hmarks _

theorem Sign.count_aside (hc : c ≠ Escape.mark) (hplace : c ∉ placeholder) (s : Sign) :
    s.aside.count c = [s.char].count c + if s.isEscapedWildcard && s.char == c then 1 else 0 := by
  induction s using Sign.kinds with
  | mark =>
    rw [aside, after_mark, List.count_eq_zero_of_not_mem hplace]
    simp [Sign.mark, char, Ne.symm hc]
  | wildcard d h hd =>
    rw [aside, after_wildcard hd]
    by_cases hdc : d = c
    · subst hdc
      simp [char, isEscapedWildcard, hd]
    · simp [char, hdc]
  | structural d h hd =>
    rw [aside, after_structural hd]
    simp [char, isEscapedWildcard, not_isWildcard_of_mem_structural hd, List.count_cons,
      Ne.symm hc]
  | plain d => simp [after, char, isEscapedWildcard]

/-- Every character is there as often as it is denoted, and an escaped wildcard once more. -/
theorem count_resolve (hc : c ≠ mark) (hplace : c ∉ placeholder) (cs : List Char) :
    (resolve cs).count c =
      (decode cs).count c + (signs cs).countP fun s => s.isEscapedWildcard && s.char == c := by
  rw [resolve_eq_settle, count_settle hc hplace, decode]
  generalize signs cs = row
  induction row with
  | nil => rfl
  | cons s row ih =>
    rw [List.flatMap_cons, List.count_append, ih, s.count_aside hc hplace, List.map_cons,
      List.countP_cons]
    simp only [List.count_cons, List.count_nil]
    omega

/-- A text denotes its characters, apart from marks. -/
theorem count_decode (hc : c ≠ mark) (cs : List Char) : (decode cs).count c = cs.count c := by
  conv_rhs => rw [← flatMap_written_signs cs]
  rw [decode]
  generalize signs cs = row
  induction row with
  | nil => rfl
  | cons s row ih =>
    have hsign : s.written.count c = [s.char].count c := by
      cases s with
      | plain d => rfl
      | escaped d h =>
        rw [Sign.written_escaped]
        simp [Sign.char, List.count_cons, Ne.symm hc]
    rw [List.flatMap_cons, List.count_append, ← ih, hsign, ← List.count_append]
    rfl

theorem count_resolve_of_not_isWildcard (hc : c ≠ mark) (hplace : c ∉ placeholder)
    (hwild : isWildcard c = false) (cs : List Char) : (resolve cs).count c = cs.count c := by
  have hzero : ((signs cs).countP fun s => s.isEscapedWildcard && s.char == c) = 0 := by
    refine List.countP_eq_zero.2 fun s _ h => ?_
    obtain ⟨hescaped, rfl⟩ : s.isEscapedWildcard = true ∧ s.char = c := by simpa using h
    rw [s.isWildcard_char hescaped] at hwild
    cases hwild
  rw [count_resolve hc hplace, hzero, count_decode hc, Nat.add_zero]

/-! ## The resolved text -/

/-- A text whose signs are resolved one by one. -/
structure ReadOnce (cs : List Char) : Prop where
  not_clash : ¬ Clash (signs cs)
  not_losesMark : ¬ LosesMark (signs cs)

theorem ReadOnce.resolve_eq {cs : List Char} (h : ReadOnce cs) :
    resolve cs = (signs cs).flatMap Sign.resolved := by
  rw [resolve_eq_settle]
  exact (settle_eq_flatMap_iff (legible_signs cs)).2 ⟨h.not_clash, h.not_losesMark⟩

/-- The texts that are resolved to what they denote. -/
theorem resolve_eq_decode_iff (cs : List Char) :
    resolve cs = decode cs ↔
      ReadOnce cs ∧ ∀ s ∈ signs cs, s.isEscapedWildcard = false := by
  have hdecode : (∀ s ∈ signs cs, s.isEscapedWildcard = false) →
      (signs cs).flatMap Sign.resolved = decode cs := by
    intro hwild
    rw [decode, List.map_eq_flatMap]
    exact List.flatMap_congr fun s hs => s.resolved_eq_iff.2 (hwild s hs)
  constructor
  · intro h
    have hwild : ∀ s ∈ signs cs, s.isEscapedWildcard = false := by
      intro s hs
      by_contra hescaped
      rw [Bool.not_eq_false] at hescaped
      -- The wildcard would be there once more than it is denoted.
      have hchar := s.isWildcard_char hescaped
      have hplace : s.char ∉ placeholder := fun hmem => by
        simp [not_isWildcard_of_mem_placeholder hmem] at hchar
      have hcount := count_resolve (ne_mark_of_isWildcard hchar) hplace cs
      rw [h, Nat.left_eq_add, List.countP_eq_zero] at hcount
      exact hcount s hs (by simp [hescaped])
    rw [resolve_eq_settle, ← hdecode hwild, settle_eq_flatMap_iff (legible_signs cs)] at h
    exact ⟨⟨h.1, h.2⟩, hwild⟩
  · rintro ⟨h, hwild⟩
    rw [h.resolve_eq, hdecode hwild]

/-! ## One pass over the signs -/

/-- The signs without the escaped marks that stand in front of a plain structural character. -/
def withoutLost : List Sign → List Sign
  | [] => []
  | [s] => [s]
  | s :: t :: rest =>
    if s = Sign.mark ∧ t ∈ structural.map Sign.plain then withoutLost (t :: rest)
    else s :: withoutLost (t :: rest)

theorem settle_eq_withoutLost (hrow : Legible row) (hclash : ¬ Clash row) :
    settle row = (withoutLost row).flatMap Sign.resolved := by
  fun_induction withoutLost row with
  | case1 => rfl
  | case2 s =>
    rw [clash_cons, not_or] at hclash
    have hloss : ¬ StartsWithLoss [s] := by
      rintro ⟨c, -, tail, htail⟩
      cases (List.cons.inj htail).2
    rw [settle_cons hrow hclash.1 hloss]
    rfl
  | case3 s t rest h ih =>
    rw [clash_cons, not_or] at hclash
    obtain ⟨rfl, ht⟩ := h
    obtain ⟨c, hc, rfl⟩ := List.mem_map.1 ht
    have hnext := hclash.2
    rw [clash_cons, not_or] at hnext
    -- Behind the mark that is gone, the character itself is settled as it stands.
    have hloss : ¬ StartsWithLoss (.plain c :: rest) := by
      rintro ⟨d, -, tail, htail⟩
      cases (List.cons.inj htail).1
    rw [← ih hrow.2 hclash.2, settle_of_loss hc, settle_cons hrow.2 hnext.1 hloss]
    rfl
  | case4 s t rest h ih =>
    rw [clash_cons, not_or] at hclash
    have hloss : ¬ StartsWithLoss (s :: t :: rest) := by
      rintro ⟨c, hc, tail, htail⟩
      obtain ⟨rfl, hnext⟩ := List.cons.inj htail
      exact h ⟨rfl, (List.cons.inj hnext).1 ▸ List.mem_map_of_mem hc⟩
    rw [settle_cons hrow hclash.1 hloss, List.flatMap_cons, ih hrow.2 hclash.2]

/-- **Which texts are resolved in one pass.** Resolving goes from sign to sign, with every escape
read once, if and only if the text does not hold the placeholder (nor all of it up to the one of an
escaped mark) and no `$$` stands in front of a structural character that has no mark of its own. If
only the latter fails, these `$$` are lost and all the rest is read once. -/
theorem resolve_eq_flatMap_resolved_iff (cs : List Char) :
    (resolve cs = (signs cs).flatMap Sign.resolved ↔ ReadOnce cs) ∧
      (¬ Clash (signs cs) → resolve cs = (withoutLost (signs cs)).flatMap Sign.resolved) := by
  rw [resolve_eq_settle]
  constructor
  · rw [settle_eq_flatMap_iff (legible_signs cs)]
    exact ⟨fun h => ⟨h.1, h.2⟩, fun h => ⟨h.not_clash, h.not_losesMark⟩⟩
  · exact settle_eq_withoutLost (legible_signs cs)

/-- Every mark of the text starts an escape, and the one that `$$` stands for is read again as the
mark of the colon. -/
theorem resolve_loses_mark :
    (∀ s ∈ signs "a$$:b".toList, s ≠ .plain mark) ∧
      (signs "a$$:b".toList).flatMap Sign.resolved = "a$:b".toList ∧
      resolve "a$$:b".toList = "a:b".toList := by
  decide

end FilterQuery.Escape
