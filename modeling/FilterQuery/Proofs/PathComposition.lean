import FilterQuery.Proofs.CatalogWalk

set_option autoImplicit false

/-! # Paths in parts

A path that goes on behind another one is resolved from where the first one leads. On the level of
segments this is one equation (`resolveSegments_append_eq`): the first part is resolved, and if it
leads to an association, the rest is resolved from its target. A scalar stops the walk, and whatever
is wrong with the first part is wrong with the whole path.

A dotted text has the same law as long as no part of it is empty, since the empty text is no path at
all, while the empty segment may well be the name of an attribute. -/

namespace FilterQuery

open FilterQuery.Text

/-! ## Segments of a longer path -/

theorem segments_ne_nil (path : String) : segments path ≠ [] := by
  simpa [segments] using splitAll_ne_nil '.' path.toList

/-- The segment that a path ends with. -/
def lastSegment (path : String) : String := (segments path).getLast (segments_ne_nil path)

theorem segments_append (p q : String) : segments (p ++ "." ++ q) = segments p ++ segments q := by
  have hsplit : splitAll '.' (p.toList ++ '.' :: q.toList) =
      splitAll '.' p.toList ++ splitAll '.' q.toList := splitAll_append_cons
  simp [segments, hsplit]

theorem Attribute.target?_eq_none {a : Attribute} (h : a.isAssociation = false) :
    a.target? = none := by
  unfold isAssociation at h
  split at h
  · cases h
  · next type hkind => simp [target?, hkind]

namespace Catalog

variable {c : Catalog} {defs : List EntityDef} {type root target : String} {a : Attribute}
  {before rest : List String} {p q : String}

/-! ## Walks in two parts -/

/-- Where a path goes on behind an attribute: at the target of an association. A scalar, found at
the given segment, is the end. -/
def goOn (a : Attribute) (segment : String) (next : String → Except PathError Attribute) :
    Except PathError Attribute :=
  a.target?.elim (.error (.notNavigable segment)) next

theorem resolveSegments_append_eq (hbefore : before ≠ []) (hrest : rest ≠ []) :
    c.resolveSegments type (before ++ rest) =
      c.resolveSegments type before >>= fun a =>
        goOn a (before.getLast hbefore) fun target => c.resolveSegments target rest := by
  induction before generalizing type with
  | nil => exact absurd rfl hbefore
  | cons segment before ih =>
    cases hattr : c.attribute? type segment with
    | none => simp [resolveSegments, hattr]
    | some attr =>
      cases before with
      | nil =>
        cases htarget : attr.target? with
        | none => simp [resolveSegments, hattr, htarget, hrest, goOn]
        | some target => simp [resolveSegments, hattr, htarget, hrest, goOn]
      | cons next before =>
        cases htarget : attr.target? with
        | none => simp [resolveSegments, hattr, htarget]
        | some target => simpa [resolveSegments, hattr, htarget] using ih (List.cons_ne_nil _ _)

/-- The attribute at the end of a walk, on the type that the walk reaches before its last step. -/
theorem resolveSegments_concat {name : String} :
    c.resolveSegments type (before ++ [name]) = .ok a ↔
      ∃ owner, c.reach? type before = some owner ∧ c.attribute? owner name = some a := by
  simp only [resolveSegments_append (List.cons_ne_nil name []), resolveSegments_singleton]

/-! ## Paths in two parts -/

theorem resolve_eq_resolveSegments (htype : c.hasType type = true) (hne : p ≠ "") :
    c.resolve type p = c.resolveSegments type (segments p) := by
  simp [resolve, htype, hne]

namespace WellFormed

/-- An association at the end of a path leads to a type of the catalog. -/
theorem hasType_of_resolve (hc : c.WellFormed) (h : c.resolve root p = .ok a)
    (htarget : a.target? = some target) : c.hasType target = true := by
  obtain ⟨-, hsegments⟩ := resolve_eq_ok h
  rw [← List.dropLast_append_getLast (segments_ne_nil p), resolveSegments_concat] at hsegments
  obtain ⟨owner, -, hattr⟩ := hsegments
  exact hc.hasType_target (mem_of_attribute? hattr) htarget

theorem resolve_append_eq (hc : c.WellFormed) (hroot : c.hasType root = true) (hp : p ≠ "")
    (hq : q ≠ "") :
    c.resolve root (p ++ "." ++ q) =
      c.resolve root p >>= fun a => goOn a (lastSegment p) fun target => c.resolve target q := by
  have hne : p ++ "." ++ q ≠ "" := by simp [hq]
  rw [resolve_eq_resolveSegments hroot hne, segments_append,
    resolveSegments_append_eq (segments_ne_nil p) (segments_ne_nil q),
    ← resolve_eq_resolveSegments hroot hp]
  cases hresolve : c.resolve root p with
  | error e => rfl
  | ok a =>
    cases htarget : a.target? with
    | none => simp [goOn, htarget, lastSegment]
    | some target =>
      have htype := hc.hasType_of_resolve hresolve htarget
      simp [goOn, htarget, resolve_eq_resolveSegments htype hq]

end WellFormed

/-- A walk that leads somewhere does so after each of its steps, and what it finds there is declared
on the type that it stands on. -/
theorem WellFormed.exists_of_isPrefix (hc : c.WellFormed) {path : List String} {name : String}
    (h : c.resolveSegments root path = .ok a) (hpart : before ++ [name] <+: path) :
    ∃ b owner, c.resolveSegments root (before ++ [name]) = .ok b ∧
      c.reach? root before = some owner ∧ c.attribute? owner name = some b ∧
      b.declaringType = owner := by
  obtain ⟨rest, rfl⟩ := hpart
  have hfound : ∃ b, c.resolveSegments root (before ++ [name]) = .ok b := by
    by_cases hrest : rest = []
    · subst hrest
      exact ⟨a, by simpa using h⟩
    · -- What the rest starts from is the target of an association that was found.
      obtain ⟨middle, hreach, -⟩ := (resolveSegments_append hrest).1 h
      obtain ⟨b, hb, -⟩ := exists_of_reach? hreach (by simp)
      exact ⟨b, hb⟩
  obtain ⟨b, hb⟩ := hfound
  obtain ⟨owner, hreach, hattr⟩ := resolveSegments_concat.1 hb
  exact ⟨b, owner, hb, hreach, hattr, hc.declaringType_eq (mem_of_attribute? hattr)⟩

/-- **Paths resolve by parts.** Behind a path to an association, a longer path is resolved from the
target of the association, whatever comes of it. Behind a path to a scalar it is refused at the last
segment of that path, and behind a path that leads nowhere for the same reason as that one.

So all first segments of a path that leads somewhere lead somewhere, to an attribute of the type
that is reached by the segments in front of the last. Unless they are the empty text, that is what
they are resolved to. -/
theorem resolve_append_and_parts (hbuild : build defs = .ok c) :
    (∀ root p q, c.hasType root = true → p ≠ "" → q ≠ "" →
      (∀ a target, c.resolve root p = .ok a → a.target? = some target →
        c.resolve root (p ++ "." ++ q) = c.resolve target q) ∧
      (∀ a, c.resolve root p = .ok a → a.isAssociation = false →
        c.resolve root (p ++ "." ++ q) = .error (.notNavigable (lastSegment p))) ∧
      ∀ e, c.resolve root p = .error e → c.resolve root (p ++ "." ++ q) = .error e) ∧
    ∀ root path a, c.resolve root path = .ok a →
      ∀ before name, before ++ [name] <+: segments path →
        ∃ b owner, c.resolveSegments root (before ++ [name]) = .ok b ∧
          (joinSegments (before ++ [name]) ≠ "" →
            c.resolve root (joinSegments (before ++ [name])) = .ok b) ∧
          c.reach? root before = some owner ∧ c.attribute? owner name = some b ∧
          b.declaringType = owner := by
  have hc := wellFormed_of_build hbuild
  constructor
  · intro root p q hroot hp hq
    have happend := hc.resolve_append_eq hroot hp hq
    refine ⟨fun a target ha htarget => ?_, fun a ha hscalar => ?_, fun e he => ?_⟩
    · rw [happend, ha, ok_bind, goOn, htarget, Option.elim_some]
    · rw [happend, ha, ok_bind, goOn, Attribute.target?_eq_none hscalar, Option.elim_none]
    · rw [happend, he, error_bind]
  · intro root path a h before name hpart
    obtain ⟨hroot, hsegments⟩ := resolve_eq_ok h
    obtain ⟨b, owner, hb, hreach, hattr, hdeclaring⟩ := hc.exists_of_isPrefix hsegments hpart
    refine ⟨b, owner, hb, fun hne => ?_, hreach, hattr, hdeclaring⟩
    rw [resolve_joinSegments hroot hne fun n hn => dot_not_mem_segments n (hpart.subset hn), hb]

/-- Round a circle of two types and on, beyond a scalar, and behind a segment that names nothing. -/
theorem resolve_employees_append : ∃ c, build Example.company = .ok c ∧
    c.resolve "Department" "employees.department.employees.lastName" =
      c.resolve "Department" "employees.lastName" ∧
    c.resolve "Department" "employees.salary..x" = .error (.notNavigable "salary") ∧
    c.resolve "Department" "employees..id.x" = .error (.unknownAttribute "Employee" "") ∧
    ∃ b, c.resolve "Department" "employees.department" = .ok b ∧ b.declaringType = "Employee" := by
  have hrun : ((build Example.company).toOption.any fun c =>
      decide (c.hasType "Department" = true ∧
        c.resolve "Department" "employees.department" =
          .ok ⟨"department", "Employee", .association .manyToOne "Department" none⟩ ∧
        c.resolve "Department" "employees.salary" = .ok ⟨"salary", "Employee", .scalar .float⟩ ∧
        c.resolve "Department" "employees..id" = .error (.unknownAttribute "Employee" "") ∧
        c.resolve "Department" "employees.department.name" =
          .ok ⟨"name", "Department", .scalar .string⟩ ∧
        c.reach? "Department" ["employees"] = some "Employee")) = true := by decide +kernel
  obtain ⟨c, hbuild, hrun⟩ := exists_ok_of_any hrun
  obtain ⟨htype, hassociation, hscalar, herror, hlonger, hemployee⟩ := decide_eq_true_iff.1 hrun
  obtain ⟨hlaw, hparts⟩ := resolve_append_and_parts hbuild
  refine ⟨c, hbuild, ?_, ?_, ?_, ?_⟩
  · exact (hlaw "Department" "employees.department" "employees.lastName" htype (by decide)
      (by decide)).1 _ "Department" hassociation rfl
  · exact
      (hlaw "Department" "employees.salary" ".x" htype (by decide) (by decide)).2.1 _ hscalar rfl
  · exact (hlaw "Department" "employees..id" "x" htype (by decide) (by decide)).2.2 _ herror
  · have hpart : ["employees"] ++ ["department"] <+: segments "employees.department.name" := by
      decide
    obtain ⟨b, owner, -, hresolve, hreach, -, hdeclaring⟩ := hparts _ _ _ hlonger _ _ hpart
    cases hreach.symm.trans hemployee
    exact ⟨b, hresolve (by decide), hdeclaring⟩

end Catalog

end FilterQuery
