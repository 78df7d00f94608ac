import FilterQuery.Sorting
import FilterQuery.Proofs.LiteralText
import FilterQuery.Proofs.ParsedConditions

set_option autoImplicit false

/-! # The text of a sorting

The marks of the directions overlap: `~-` starts with the mark of another direction, no mark at all
starts every text, and a field may start with a mark of its own. A component of a sorting is cut
behind its longest mark. So the text of the criterion is the component again, without the blanks
around it, and is cut in the same place.

`Sorting.Spells` is what a component spells, in terms of marks and blanks alone. A sorting is read
off a text if and only if its criteria are what the components of the text spell, one after the
other (`Sorting.parse_eq_ok_iff`). -/

namespace FilterQuery

open FilterQuery.Text

/-! ## Marks -/

namespace Direction

variable {d e : Direction} {cs field : List Char}

theorem mark_injective : Function.Injective mark := by
  intro d e h
  cases d <;> cases e <;> simp_all [mark]

/-- No mark at the start of a text is longer than the one that is taken off. -/
theorem length_mark_le_split (h : d.mark <+: cs) : d.mark.length ≤ (split cs).1.mark.length := by
  obtain ⟨rest, rfl⟩ := h
  cases d with
  | asc => exact Nat.zero_le _
  | desc => exact le_refl 1
  | ascAlpha =>
    -- The mark may go on, if the field seems to start with a hyphen.
    show 1 ≤ (split ('~' :: rest)).1.mark.length
    unfold split
    split <;> simp_all [mark]
  | descAlpha => exact le_refl 2

/-- The mark that is taken off is the longest one, and there is one such mark only. -/
theorem split_eq_iff : split cs = (d, field) ↔
    d.mark ++ field = cs ∧ ∀ e : Direction, e.mark <+: cs → e.mark.length ≤ d.mark.length := by
  constructor
  · intro h
    have hcut := mark_append_split cs
    rw [h] at hcut
    refine ⟨hcut, fun e he => ?_⟩
    simpa [h] using length_mark_le_split he
  · rintro ⟨hcut, hlongest⟩
    have hcut' := mark_append_split cs
    have hlength : (split cs).1.mark.length = d.mark.length :=
      le_antisymm (hlongest _ ⟨_, hcut'⟩) (length_mark_le_split ⟨_, hcut⟩)
    obtain ⟨hmark, hfield⟩ := List.append_inj (hcut'.trans hcut.symm) hlength
    exact Prod.ext (mark_injective hmark) hfield

end Direction

/-! ## Components -/

namespace Sorting

/-- A component spells a criterion: without the blanks around it, it is the text of the criterion,
the mark of which is the longest one there, and something is left for the field. -/
structure Spells (component : List Char) (c : Criterion) : Prop where
  text_eq : c.text = trim component
  longest : ∀ d : Direction, d.mark <+: trim component → d.mark.length ≤ c.direction.mark.length
  field_ne : c.field ≠ ""

variable {component text : List Char} {components : List (List Char)} {c : Criterion}
  {criteria : List Criterion} {s : Sorting}

theorem readCriterion?_eq_some_iff : readCriterion? component = some c ↔ Spells component c := by
  have hsplit : Direction.split (trim component) = (c.direction, c.field.toList) ↔
      c.text = trim component ∧
        ∀ d : Direction, d.mark <+: trim component → d.mark.length ≤ c.direction.mark.length :=
    Direction.split_eq_iff
  have hread : readCriterion? component = some c ↔
      Direction.split (trim component) = (c.direction, c.field.toList) ∧ c.field ≠ "" := by
    obtain ⟨field, direction⟩ := c
    unfold readCriterion?
    obtain ⟨d, rest⟩ := Direction.split (trim component)
    by_cases hrest : rest = []
    · subst hrest
      simp only [List.isEmpty_nil, if_true, Prod.mk.injEq, reduceCtorEq, false_iff, not_and]
      rintro ⟨-, hfield⟩ hne
      exact hne (String.toList_eq_nil_iff.1 hfield.symm)
    · simp only [List.isEmpty_iff, hrest, if_false, Option.some.injEq, Criterion.mk.injEq,
        Prod.mk.injEq]
      constructor
      · rintro ⟨rfl, rfl⟩
        simpa using hrest
      · rintro ⟨⟨rfl, rfl⟩, -⟩
        simp
  rw [hread, hsplit]
  exact ⟨fun h => ⟨h.1.1, h.1.2, h.2⟩, fun h => ⟨⟨h.text_eq, h.longest⟩, h.field_ne⟩⟩

theorem readAll_eq_ok_iff (index : Nat) : readAll index components = .ok criteria ↔
    List.Forall₂ (fun component c => readCriterion? component = some c) components criteria := by
  induction components generalizing index criteria with
  | nil =>
    rw [readAll, List.forall₂_nil_left_iff, Except.ok.injEq]
    exact eq_comm
  | cons component rest ih =>
    rw [readAll, List.forall₂_cons_left_iff]
    cases readCriterion? component with
    | none => simp
    | some c =>
      simp only [Option.some.injEq, ← ih (index + 1)]
      cases readAll (index + 1) rest with
      | error e => simp
      | ok cs => simp [eq_comm]

/-- The criteria of a sorting are what the components of its text spell. -/
theorem parse_eq_ok_iff :
    parse text = .ok s ↔ List.Forall₂ Spells (splitAll ',' text) s.criteria := by
  have hspells : (fun component c => readCriterion? component = some c) = Spells := by
    funext component c
    exact propext readCriterion?_eq_some_iff
  rw [← hspells, ← readAll_eq_ok_iff 0]
  obtain ⟨criteria⟩ := s
  unfold parse
  cases readAll 0 (splitAll ',' text) with
  | error e => simp
  | ok found => simp

/-! ## Round trip -/

/-- The text of a criterion spells that criterion. -/
theorem Spells.spells_text (h : Spells component c) : Spells c.text c := by
  have htrim : trim c.text = c.text := by rw [h.text_eq, trim_trim]
  refine ⟨htrim.symm, fun d hd => h.longest d ?_, h.field_ne⟩
  rwa [htrim, h.text_eq] at hd

/-- A sorting has its criteria with commas between them, since no comma is in a criterion. -/
theorem splitAll_text (h : parse text = .ok s) :
    splitAll ',' s.text = s.criteria.map Criterion.text := by
  have hspells := parse_eq_ok_iff.1 h
  refine splitAll_join ?_ ?_
  · have hlength := hspells.length_eq
    have hpos := List.length_pos_of_ne_nil (splitAll_ne_nil ',' text)
    exact List.ne_nil_of_length_pos (by simp only [List.length_map]; omega)
  · intro part hpart hcomma
    obtain ⟨c, hc, rfl⟩ := List.mem_map.1 hpart
    obtain ⟨component, hcomponent, hspelled⟩ := exists_of_mem_of_forall₂ hspells hc
    rw [hspelled.text_eq] at hcomma
    exact not_mem_splitAll component hcomponent ((trim_sublist component).subset hcomma)

/-- **The text of a sorting gives it back.** What is read off a text is one criterion for each of
its components, in turn, and the text of these criteria is read as the same sorting, whatever marks
and blanks stand behind the mark of a direction. -/
theorem parse_text_of_parse (text : List Char) (s : Sorting) :
    (parse text = .ok s ↔ List.Forall₂ Spells (splitAll ',' text) s.criteria) ∧
      (parse text = .ok s → parse s.text = .ok s) := by
  refine ⟨parse_eq_ok_iff, fun h => ?_⟩
  rw [parse_eq_ok_iff, splitAll_text h, List.forall₂_map_left_iff, List.forall₂_same]
  intro c hc
  obtain ⟨component, -, hspelled⟩ := exists_of_mem_of_forall₂ (parse_eq_ok_iff.1 h) hc
  exact hspelled.spells_text

/-- Marks and blanks behind a mark belong to the field, and blanks around a component do not. -/
theorem parse_marks_behind_marks :
    let s : Sorting := ⟨[⟨"-x", .descAlpha⟩, ⟨" y", .desc⟩, ⟨" -z", .ascAlpha⟩, ⟨"~a", .desc⟩]⟩
    parse " ~--x ,- y,\t~ -z,-~a\u3000".toList = .ok s ∧ parse s.text = .ok s := by
  intro s
  have hparse : parse " ~--x ,- y,\t~ -z,-~a\u3000".toList = .ok s := by decide +kernel
  exact ⟨hparse, (parse_text_of_parse _ s).2 hparse⟩

end Sorting

end FilterQuery
