import FilterQuery.Proofs.CatalogWalk

set_option autoImplicit false

/-! # Associations and their inverses

An association is held by one of its two sides. The side that does not hold it names the attribute
that does (`Attribute.holder?`), so from there the way back is a lookup by name. From the side that
holds it, the way back is a search among the attributes of the target, for one that leads here and
names it.

In a catalog where the names fit together (`Catalog.Consistent`), each way undoes the other: the
inverse of an inverse is the association again. That a name leads to an attribute which holds its
association is needed on the way out from the side that names it, that the search cannot find
another one on the way back. -/

namespace FilterQuery

namespace Attribute

/-- The attribute of the target that holds the association, where the association says so. -/
def holder? (a : Attribute) : Option String := a.mappedBy?.filter fun m => !m.isEmpty

theorem holder?_eq_some_iff {a : Attribute} {m : String} :
    a.holder? = some m ↔ a.mappedBy? = some m ∧ m ≠ "" := by
  simp [holder?, Option.filter_eq_some_iff]

end Attribute

namespace Catalog

variable {c : Catalog} {defs : List EntityDef} {source target m : String} {a b : Attribute}

/-! ## Two ways back -/

theorem inverse?_of_holder? (h : a.holder? = some m) :
    c.inverse? source a target = c.attribute? target m := by
  rw [Attribute.holder?] at h
  simp only [inverse?, h]

theorem inverse?_eq_some_of_search (h : a.holder? = none)
    (hb : c.inverse? source a target = some b) :
    b ∈ c.attributes target ∧ b.target? = some source ∧ b.mappedBy? = some a.name := by
  rw [Attribute.holder?] at h
  simp only [inverse?, h] at hb
  exact ⟨List.mem_of_find?_eq_some hb, by simpa using List.find?_some hb⟩

/-- The search finds the only attribute that it can find. -/
theorem inverse?_eq_some_of_unique (h : a.holder? = none) (hb : b ∈ c.attributes target)
    (htarget : b.target? = some source) (hmapped : b.mappedBy? = some a.name)
    (hunique : ∀ b' ∈ c.attributes target, b'.target? = some source →
      b'.mappedBy? = some a.name → b' = b) :
    c.inverse? source a target = some b := by
  cases hfound : c.inverse? source a target with
  | none =>
    rw [Attribute.holder?] at h
    simp only [inverse?, h] at hfound
    have hmiss := List.find?_eq_none.1 hfound b hb
    simp [htarget, hmapped] at hmiss
  | some b' =>
    obtain ⟨hmem, htarget', hmapped'⟩ := inverse?_eq_some_of_search h hfound
    rw [hunique b' hmem htarget' hmapped']

/-! ## Catalogs whose names fit together -/

/-- If an attribute of a type names a holder, that is an association back to the type, and one that
holds itself. -/
def NamesHolder (c : Catalog) (type : String) (a : Attribute) : Prop :=
  ∀ target ∈ a.target?, ∀ m ∈ a.holder?,
    ∃ b ∈ c.attributes target, b.name = m ∧ b.target? = some type ∧ b.holder? = none

instance (c : Catalog) (type : String) (a : Attribute) : Decidable (c.NamesHolder type a) :=
  inferInstanceAs (Decidable (∀ target ∈ a.target?, ∀ m ∈ a.holder?,
    ∃ b ∈ c.attributes target, b.name = m ∧ b.target? = some type ∧ b.holder? = none))

/-- The names that associations give for their holders fit together. -/
structure Consistent (c : Catalog) : Prop where
  name_ne_empty : ∀ t ∈ c.types, ∀ a ∈ t.attributes, a.name ≠ ""
  namesHolder : ∀ t ∈ c.types, ∀ a ∈ t.attributes, c.NamesHolder t.name a
  /-- Two associations to the same type do not name the same holder. Those that hold themselves may
  well lead to the same type. -/
  eq_of_mappedBy?_eq : ∀ t ∈ c.types, ∀ a ∈ t.attributes, ∀ b ∈ t.attributes,
    a.holder?.isSome = true → a.target? = b.target? → a.mappedBy? = b.mappedBy? → a = b

instance (c : Catalog) : Decidable c.Consistent :=
  decidable_of_iff
    ((∀ t ∈ c.types, ∀ a ∈ t.attributes, a.name ≠ "") ∧
      (∀ t ∈ c.types, ∀ a ∈ t.attributes, c.NamesHolder t.name a) ∧
      ∀ t ∈ c.types, ∀ a ∈ t.attributes, ∀ b ∈ t.attributes,
        a.holder?.isSome = true → a.target? = b.target? → a.mappedBy? = b.mappedBy? → a = b)
    ⟨fun h => ⟨h.1, h.2.1, h.2.2⟩, fun h => ⟨h.1, h.2, h.3⟩⟩

namespace Consistent

/-- From the side that names the holder and back. -/
theorem inverse?_of_named (hc : c.Consistent) (hw : c.WellFormed) (ha : a ∈ c.attributes source)
    (htarget : a.target? = some target) (hm : a.holder? = some m)
    (h : c.inverse? source a target = some b) :
    b.target? = some source ∧ c.inverse? target b source = some a := by
  obtain ⟨t, ht, rfl, hattributes⟩ := exists_type_of_mem_attributes ha
  rw [← hattributes] at ha
  obtain ⟨holder, hholder, hname, hback, hholds⟩ := hc.namesHolder t ht a ha target htarget m hm
  -- The name leads to the holder.
  have hfound := hw.attribute?_name hholder
  rw [hname, ← inverse?_of_holder? hm, h] at hfound
  cases hfound
  obtain ⟨hmapped, -⟩ := Attribute.holder?_eq_some_iff.1 hm
  rw [← hname] at hmapped
  refine ⟨hback, inverse?_eq_some_of_unique hholds (hattributes ▸ ha) htarget hmapped ?_⟩
  intro a' ha' htarget' hmapped'
  rw [← hattributes] at ha'
  exact (hc.eq_of_mappedBy?_eq t ht a ha a' ha' (by simp [hm]) (htarget.trans htarget'.symm)
    (hmapped.trans hmapped'.symm)).symm

/-- From the side that holds the association and back. -/
theorem inverse?_of_searched (hc : c.Consistent) (hw : c.WellFormed) (ha : a ∈ c.attributes source)
    (hm : a.holder? = none) (h : c.inverse? source a target = some b) :
    b.target? = some source ∧ c.inverse? target b source = some a := by
  obtain ⟨-, hback, hmapped⟩ := inverse?_eq_some_of_search hm h
  obtain ⟨t, ht, -, hattributes⟩ := exists_type_of_mem_attributes ha
  have hname := hc.name_ne_empty t ht a (hattributes ▸ ha)
  rw [inverse?_of_holder? (Attribute.holder?_eq_some_iff.2 ⟨hmapped, hname⟩)]
  exact ⟨hback, hw.attribute?_name ha⟩

end Consistent

/-- **The inverse of the inverse.** In a consistent catalog, what points back at an association of
one type to another, or to the type itself, is an association that is declared on the other type and
leads to the first, and what points back at it is the association again. -/
theorem inverse_involutive (hbuild : build defs = .ok c) (hc : c.Consistent)
    (ha : a ∈ c.attributes source) (htarget : a.target? = some target)
    (h : c.inverse? source a target = some b) :
    b ∈ c.attributes target ∧ b.declaringType = target ∧ b.target? = some source ∧
      c.inverse? target b source = some a := by
  have hw := wellFormed_of_build hbuild
  have hb : b ∈ c.attributes target := mem_of_attribute? (hw.attribute?_inverse h)
  refine ⟨hb, hw.declaringType_eq hb, ?_⟩
  cases hm : a.holder? with
  | none => exact hc.inverse?_of_searched hw ha hm h
  | some m => exact hc.inverse?_of_named hw ha htarget hm h

/-- Employees and the employees that they lead, from the side that names its holder, and projects
and their members, from the side that holds the association. -/
theorem inverse_involutive_company : ∃ c reports manager members projects,
    build Example.company = .ok c ∧ c.Consistent ∧
    c.attribute? "Employee" "reports" = some reports ∧
    c.inverse? "Employee" reports "Employee" = some manager ∧ manager.name = "manager" ∧
    c.inverse? "Employee" manager "Employee" = some reports ∧
    c.attribute? "Project" "members" = some members ∧
    c.inverse? "Project" members "Employee" = some projects ∧ projects.name = "projects" ∧
    c.inverse? "Employee" projects "Project" = some members := by
  have hrun : ((build Example.company).toOption.any fun c => decide (c.Consistent ∧
      c.attribute? "Employee" "reports" =
        some ⟨"reports", "Employee", .association .oneToMany "Employee" (some "manager")⟩ ∧
      c.inverse? "Employee"
          ⟨"reports", "Employee", .association .oneToMany "Employee" (some "manager")⟩ "Employee" =
        some ⟨"manager", "Employee", .association .manyToOne "Employee" none⟩ ∧
      c.attribute? "Project" "members" =
        some ⟨"members", "Project", .association .manyToMany "Employee" none⟩ ∧
      c.inverse? "Project" ⟨"members", "Project", .association .manyToMany "Employee" none⟩
          "Employee" =
        some ⟨"projects", "Employee", .association .manyToMany "Project" (some "members")⟩)) =
      true := by decide +kernel
  obtain ⟨c, hbuild, hrun⟩ := exists_ok_of_any hrun
  obtain ⟨hc, hreports, hmanager, hmembers, hprojects⟩ := decide_eq_true_iff.1 hrun
  obtain ⟨-, -, -, hreports'⟩ :=
    inverse_involutive hbuild hc (mem_of_attribute? hreports) rfl hmanager
  obtain ⟨-, -, -, hmembers'⟩ :=
    inverse_involutive hbuild hc (mem_of_attribute? hmembers) rfl hprojects
  exact ⟨c, _, _, _, _, hbuild, hc, hreports, hmanager, rfl, hreports', hmembers, hprojects, rfl,
    hmembers'⟩

end Catalog

end FilterQuery
