import FilterQuery.Proofs.Resolve

set_option autoImplicit false

/-! # Escaped text resolves to what was escaped

`escape` writes a text as a row of signs in which no mark and no structural character is plain
(`exists_row`). So no mark is lost when it is resolved, and only a text that holds the placeholder
itself is not resolved to what it was (`resolve_escape_iff`). -/

namespace FilterQuery.Escape

open FilterQuery.Text

/-! ## The signs of escaped text -/

/-- Every mark and every structural character of the row is escaped. -/
def AllMarked (row : List Sign) : Prop := ∀ c, .plain c ∈ row → c ≠ mark ∧ c ∉ structural

theorem allMarked_cons {s : Sign} {row : List Sign} :
    AllMarked (s :: row) ↔ (∀ c, s = .plain c → c ≠ mark ∧ c ∉ structural) ∧ AllMarked row := by
  simp only [AllMarked, List.mem_cons, or_imp]
  rw [forall_and]
  simp only [eq_comm]

theorem AllMarked.legible {row : List Sign} (h : AllMarked row) : Legible row := by
  induction row with
  | nil => trivial
  | cons s row ih =>
    rw [allMarked_cons] at h
    exact ⟨fun hs => absurd rfl (h.1 _ hs).1, ih h.2⟩

/-- A character outside a doubled wildcard is one sign. -/
theorem exists_sign (c : Char) : ∃ s : Sign, s.resolved = [c] ∧
    s.written = (if c == mark || isStructural c then [mark, c] else [c]) ∧
    ∀ d, s = .plain d → d ≠ mark ∧ d ∉ structural := by
  by_cases hmark : c = mark
  · subst hmark
    exact ⟨.mark, by decide, by decide, by simp [Sign.mark]⟩
  by_cases hc : c ∈ structural
  · have hstructural : isStructural c = true := List.contains_iff_mem.2 hc
    have hescapable : isEscapable c = true := by simp [isEscapable, hstructural]
    refine ⟨.escaped c hescapable, Sign.resolved_structural hc, ?_, by simp⟩
    simp [hstructural]
  · refine ⟨.plain c, rfl, by simp [Sign.after, hmark, isStructural, hc], ?_⟩
    rintro d hd
    obtain rfl := Sign.plain.inj hd
    exact ⟨hmark, hc⟩

/-- Escaped text is a row of signs, and they are resolved to the text. -/
theorem exists_row (cs : List Char) : ∃ row : List Sign, AllMarked row ∧
    row.flatMap Sign.resolved = cs ∧ row.flatMap Sign.written = escape cs := by
  fun_induction escape cs with
  | case1 => exact ⟨[], by simp [AllMarked], rfl, rfl⟩
  | case2 c h | case3 c h =>
    obtain ⟨s, hresolved, hwritten, hs⟩ := exists_sign c
    exact ⟨[s], allMarked_cons.2 ⟨hs, by simp [AllMarked]⟩, by simp [hresolved],
      by simp [hwritten, h]⟩
  | case4 c d rest h ih =>
    obtain ⟨row, hrow, hresolved, hwritten⟩ := ih
    obtain ⟨hwild, rfl⟩ : isWildcard c = true ∧ d = c := by simpa using h
    have hescapable : isEscapable d = true := by simp [isEscapable, hwild]
    refine ⟨.escaped d hescapable :: row, allMarked_cons.2 ⟨by simp, hrow⟩, ?_, ?_⟩
    · rw [List.flatMap_cons, Sign.resolved_wildcard hwild, hresolved]
      rfl
    · simp [hwritten]
  | case5 c d rest _ h ih | case6 c d rest _ h ih =>
    obtain ⟨row, hrow, hresolved, hwritten⟩ := ih
    obtain ⟨s, hresolved', hwritten', hs⟩ := exists_sign c
    exact ⟨s :: row, allMarked_cons.2 ⟨hs, hrow⟩, by simp [hresolved', hresolved],
      by simp [hwritten', hwritten, h]⟩

/-! ## Resolving escaped text -/

/-- The text holds the placeholder, or all of it up to a mark, which is set aside as another one. -/
def HoldsPlaceholder (cs : List Char) : Prop :=
  ∃ last ∈ ['\x00', mark], placeholder.dropLast ++ [last] <:+: cs

instance : DecidablePred HoldsPlaceholder := fun _ => List.decidableBEx _ _

theorem not_holdsPlaceholder {cs : List Char} (hnull : '\x00' ∉ cs) : ¬ HoldsPlaceholder cs := by
  rintro ⟨last, -, hpart⟩
  exact hnull (hpart.subset (by simp [placeholder]))

/-- A character that cannot be escaped stands for a plain sign. -/
theorem exists_plain_of_prefix_resolved {c : Char} {cs : List Char} {row : List Sign}
    (hc : isEscapable c = false) (h : c :: cs <+: row.flatMap Sign.resolved) :
    ∃ rest, row = .plain c :: rest ∧ cs <+: rest.flatMap Sign.resolved := by
  cases row with
  | nil => simp at h
  | cons s rest =>
    cases s with
    | plain d =>
      obtain ⟨rfl, htail⟩ := List.cons_prefix_cons.1 h
      exact ⟨rest, rfl, htail⟩
    | escaped d hd =>
      have hhead : c = d := by
        simp only [List.flatMap_cons, Sign.resolved, resolved] at h
        split at h
        · exact (List.cons_prefix_cons.1 h).1
        · exact (List.cons_prefix_cons.1 h).1
      rw [hhead, hd] at hc
      cases hc

/-- A mark stands for an escaped one, if there are no plain marks. -/
theorem exists_mark_of_prefix_resolved {row : List Sign} (hrow : AllMarked row)
    (h : [mark] <+: row.flatMap Sign.resolved) : ∃ rest, row = Sign.mark :: rest := by
  cases row with
  | nil => simp at h
  | cons s rest =>
    refine ⟨rest, congrArg (· :: rest) ?_⟩
    induction s using Sign.kinds with
    | mark => rfl
    | wildcard c hc hwild =>
      rw [List.flatMap_cons, Sign.resolved_wildcard hwild] at h
      exact absurd (List.cons_prefix_cons.1 h).1.symm (ne_mark_of_isWildcard hwild)
    | structural c hc hstructural =>
      rw [List.flatMap_cons, Sign.resolved_structural hstructural] at h
      exact absurd (List.cons_prefix_cons.1 h).1.symm (ne_mark_of_mem_structural hstructural)
    | plain c =>
      exact absurd (List.cons_prefix_cons.1 h).1.symm (hrow c List.mem_cons_self).1

/-- A row of signs starts with a clash exactly if its text starts with the placeholder. -/
theorem startsWithClash_iff {row : List Sign} (hrow : AllMarked row) :
    StartsWithClash row ↔
      ∃ last ∈ ['\x00', mark], placeholder.dropLast ++ [last] <+: row.flatMap Sign.resolved := by
  constructor
  · rintro ⟨last, hlast, tail, rfl⟩
    rcases List.mem_pair.1 hlast with rfl | rfl
    · exact ⟨'\x00', by simp, _, rfl⟩
    · exact ⟨mark, by simp, _, rfl⟩
  · rintro ⟨last, hlast, h⟩
    -- Four plain signs, and the last one is plain or an escaped mark.
    obtain ⟨row, rfl, h₁⟩ := exists_plain_of_prefix_resolved (by decide) h
    obtain ⟨row, rfl, h₂⟩ := exists_plain_of_prefix_resolved (by decide) h₁
    obtain ⟨row, rfl, h₃⟩ := exists_plain_of_prefix_resolved (by decide) h₂
    obtain ⟨row, rfl, h₄⟩ := exists_plain_of_prefix_resolved (by decide) h₃
    simp only [allMarked_cons] at hrow
    rcases List.mem_pair.1 hlast with rfl | rfl
    · obtain ⟨rest, rfl, -⟩ := exists_plain_of_prefix_resolved (by decide) h₄
      exact ⟨.plain '\x00', by simp, rest, rfl⟩
    · obtain ⟨rest, rfl⟩ := exists_mark_of_prefix_resolved hrow.2.2.2.2 h₄
      exact ⟨Sign.mark, by simp, rest, rfl⟩

theorem clash_iff_holdsPlaceholder {row : List Sign} (hrow : AllMarked row) :
    Clash row ↔ HoldsPlaceholder (row.flatMap Sign.resolved) := by
  induction row with
  | nil => simp [Clash, HoldsPlaceholder, halfPlaceholder, placeholder]
  | cons s rest ih =>
    have hstart := startsWithClash_iff hrow
    rw [allMarked_cons] at hrow
    rw [clash_cons, hstart, ih hrow.2]
    -- No occurrence starts at the second character of a doubled wildcard.
    obtain ⟨c, cs, hresolved, hcs⟩ : ∃ c cs, s.resolved = c :: cs ∧ ∀ d ∈ cs, d ≠ '\x00' := by
      cases s with
      | plain c => exact ⟨c, [], rfl, by simp⟩
      | escaped c hc =>
        have hnull : c ≠ '\x00' := by rintro rfl; exact absurd hc (by decide)
        by_cases hwild : isWildcard c = true
        · exact ⟨c, [c], if_pos hwild, by simpa using hnull⟩
        · exact ⟨c, [], if_neg hwild, by simp⟩
    have hskip : HoldsPlaceholder (cs ++ rest.flatMap Sign.resolved) ↔
        HoldsPlaceholder (rest.flatMap Sign.resolved) := by
      clear hresolved
      induction cs with
      | nil => rfl
      | cons d cs ihcs =>
        obtain ⟨hd, hcs⟩ := List.forall_mem_cons.1 hcs
        rw [← ihcs hcs]
        refine exists_congr fun last => and_congr_right fun _ => ?_
        rw [List.cons_append, List.infix_cons_iff]
        exact or_iff_right fun h => hd (List.cons_prefix_cons.1 h).1.symm
    rw [← hskip]
    simp only [HoldsPlaceholder, List.flatMap_cons, hresolved, List.cons_append,
      List.infix_cons_iff, and_or_left, exists_or]

/-- Escaped text is resolved to the text exactly if it does not hold the placeholder: no mark is
lost. -/
theorem resolve_escape_iff (cs : List Char) : resolve (escape cs) = cs ↔ ¬ HoldsPlaceholder cs := by
  obtain ⟨row, hrow, rfl, hwritten⟩ := exists_row cs
  have hloss : ¬ LosesMark row := by
    rintro ⟨c, hc, before, after, rfl⟩
    exact (hrow c (by simp)).2 hc
  rw [← hwritten, resolve_written hrow.legible, settle_eq_flatMap_iff hrow.legible,
    clash_iff_holdsPlaceholder hrow]
  exact and_iff_left hloss

/-- **Resolving undoes escaping** on every text without the character that the placeholder starts
with, and on every other text too, unless it holds the placeholder. -/
theorem resolve_escape_eq_self (cs : List Char) :
    ('\x00' ∉ cs → resolve (escape cs) = cs) ∧
      (resolve (escape cs) = cs ↔ ¬ HoldsPlaceholder cs) := by
  refine ⟨fun hnull => ?_, resolve_escape_iff cs⟩
  rw [resolve_escape_iff]
  exact not_holdsPlaceholder hnull

/-! ## The escaped text itself -/

/-- A sign is written with its own character, behind a mark or not. -/
theorem mem_resolved_of_mem_written {c : Char} {s : Sign} (h : c ∈ s.written) (hc : c ≠ mark) :
    c ∈ s.resolved := by
  induction s using Sign.kinds with
  | mark => simp [hc] at h
  | wildcard d hd hwild =>
    obtain rfl : c = d := by simpa [hc] using h
    simp [Sign.resolved_wildcard hwild]
  | structural d hd hstructural =>
    obtain rfl : c = d := by simpa [hc] using h
    simp [Sign.resolved_structural hstructural]
  | plain d => exact h

/-- Escaping adds marks and nothing else. -/
theorem mem_of_mem_escape {c : Char} {cs : List Char} (h : c ∈ escape cs) (hc : c ≠ mark) :
    c ∈ cs := by
  obtain ⟨row, -, rfl, hwritten⟩ := exists_row cs
  rw [← hwritten] at h
  obtain ⟨s, hs, hmem⟩ := List.mem_flatMap.1 h
  exact List.mem_flatMap.2 ⟨s, hs, mem_resolved_of_mem_written hmem hc⟩

/-- Without marks there is nothing escaped. -/
theorem escape_eq_of_not_mem {cs : List Char} (h : mark ∉ escape cs) : escape cs = cs := by
  obtain ⟨row, -, rfl, hwritten⟩ := exists_row cs
  rw [← hwritten] at h ⊢
  refine List.flatMap_congr fun s hs => ?_
  have hnot : mark ∉ s.written := fun hmem => h (List.mem_flatMap.2 ⟨s, hs, hmem⟩)
  cases s with
  | escaped c hc => simp at hnot
  | plain c => rfl

/-- Nor is there if nothing can be escaped. -/
theorem escape_eq_self {cs : List Char} (h : ∀ c ∈ cs, isEscapable c = false) : escape cs = cs := by
  obtain ⟨row, -, rfl, hwritten⟩ := exists_row cs
  rw [← hwritten]
  refine List.flatMap_congr fun s hs => ?_
  cases s with
  | plain c => rfl
  | escaped c hc =>
    have hmem : c ∈ (Sign.escaped c hc).resolved := by
      by_cases hwild : isWildcard c = true <;> simp [Sign.resolved, resolved, hwild]
    have hnot := h c (List.mem_flatMap.2 ⟨_, hs, hmem⟩)
    rw [hc] at hnot
    cases hnot

/-- Apart from marks and wildcards, the characters of the escaped text are those of the text. -/
theorem count_escape {c : Char} (hc : c ≠ mark) (hwild : isWildcard c = false) (cs : List Char) :
    (escape cs).count c = cs.count c := by
  obtain ⟨row, -, rfl, hwritten⟩ := exists_row cs
  rw [← hwritten]
  clear hwritten
  have hsign (s : Sign) : s.written.count c = s.resolved.count c := by
    cases s with
    | plain d => rfl
    | escaped d h =>
      rw [Sign.written_escaped]
      by_cases hd : isWildcard d = true
      · have hne : d ≠ c := by rintro rfl; rw [hd] at hwild; cases hwild
        simp [Sign.resolved, resolved, hd, hne, Ne.symm hc]
      · simp [Sign.resolved, resolved, hd, List.count_cons, Ne.symm hc]
  induction row with
  | nil => rfl
  | cons s row ih =>
    rw [List.flatMap_cons, List.flatMap_cons, List.count_append, List.count_append, hsign, ih]

/-- In front of a structural character in escaped text there is a mark. -/
theorem mark_mem_of_escape_eq {cs front rest : List Char} {c : Char} (hc : c ∈ structural)
    (h : escape cs = front ++ c :: rest) : mark ∈ front := by
  obtain ⟨row, hrow, rfl, hwritten⟩ := exists_row cs
  rw [← hwritten] at h
  clear hwritten
  induction row generalizing front with
  | nil => simp at h
  | cons s row ih =>
    rw [allMarked_cons] at hrow
    rw [List.flatMap_cons] at h
    cases s with
    | escaped d hd =>
      rw [Sign.written_escaped] at h
      cases front with
      | nil =>
        obtain ⟨rfl, -⟩ := List.cons.inj h
        exact absurd rfl (ne_mark_of_mem_structural hc)
      | cons e front =>
        obtain ⟨rfl, -⟩ := List.cons.inj h
        exact List.mem_cons_self
    | plain d =>
      cases front with
      | nil =>
        obtain ⟨rfl, -⟩ := List.cons.inj h
        exact absurd hc (hrow.1 d rfl).2
      | cons e front =>
        obtain ⟨-, hrest⟩ := List.cons.inj h
        exact List.mem_cons_of_mem _ (ih hrow.2 hrest)

theorem getLast?_written (s : Sign) : s.written.getLast? = s.resolved.getLast? := by
  induction s using Sign.kinds with
  | mark => decide
  | wildcard c h hc =>
    rw [Sign.resolved_wildcard hc]
    simp
  | structural c h hc =>
    rw [Sign.resolved_structural hc]
    simp
  | plain c => rfl

theorem getLast?_escape (cs : List Char) : (escape cs).getLast? = cs.getLast? := by
  obtain ⟨row, -, rfl, hwritten⟩ := exists_row cs
  rw [← hwritten]
  clear hwritten
  induction row with
  | nil => rfl
  | cons s row ih =>
    rw [List.flatMap_cons, List.flatMap_cons, List.getLast?_append, List.getLast?_append,
      getLast?_written, ih]

/-- Escaped text starts with no blank if a space is the only one it has. -/
theorem not_isBlank_head?_escape {cs : List Char} (hblank : ∀ c ∈ cs, isBlank c = true → c = ' ') :
    ∀ c ∈ (escape cs).head?, isBlank c = false := by
  obtain ⟨row, hrow, rfl, hwritten⟩ := exists_row cs
  rw [← hwritten]
  intro c hc
  cases row with
  | nil => simp at hc
  | cons s row =>
    cases s with
    | escaped d h =>
      obtain rfl : mark = c := by simpa using hc
      decide
    | plain d =>
      obtain rfl : d = c := by simpa [Sign.after] using hc
      by_contra hd
      have hspace := hblank d (by simp [Sign.resolved]) (by simpa using hd)
      subst hspace
      exact (hrow ' ' List.mem_cons_self).2 (by decide)

/-- Escaped text survives trimming if it has no blank but spaces and does not end in one. -/
theorem trim_escape {cs : List Char} (hblank : ∀ c ∈ cs, isBlank c = true → c = ' ')
    (hlast : cs.getLast? ≠ some ' ') : trim (escape cs) = escape cs := by
  refine trim_eq_self (not_isBlank_head?_escape hblank) fun c hc => ?_
  rw [getLast?_escape] at hc
  by_contra h
  exact hlast (hblank c (List.mem_of_getLast? hc) (by simpa using h) ▸ hc)

end FilterQuery.Escape
