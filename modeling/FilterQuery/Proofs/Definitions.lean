import FilterQuery.Example.Company
import FilterQuery.Failure
import Mathlib.Data.List.Forall2
import Mathlib.Tactic.Common

set_option autoImplicit false

/-! # Which definitions make a catalog

Definitions are checked in one pass, entity by entity and attribute by attribute: a name must not be
among the earlier ones, while a target may be defined anywhere. `IsValid` says what the definition
of one entity has to be like, and `Describes` which attribute or entity type a definition stands
for, without regard to that order.

Each function of the pass has one lemma that says when it succeeds, and with what
(`buildAttributes_eq_ok_iff`, `EntityDef.build_eq_ok_iff`, `buildTypes_eq_ok_iff`). The two loops
have one argument in common (`loop_eq_ok_iff`), with the invariant that the names to come are
distinct, and disjoint from the earlier ones.
`Catalog.build_eq_ok_iff` puts them together: a catalog is built exactly from valid definitions of
distinct entities, and it holds for each of them, in turn, what the definition describes. -/

namespace FilterQuery

/-! ## Related lists -/

section Related

variable {α β : Type} {R : α → β → Prop} {xs : List α} {ys : List β}

theorem exists_forall₂_of_forall (h : ∀ x ∈ xs, ∃ y, R x y) : ∃ ys, List.Forall₂ R xs ys := by
  induction xs with
  | nil => exact ⟨[], .nil⟩
  | cons x xs ih =>
    obtain ⟨hx, hxs⟩ := List.forall_mem_cons.1 h
    obtain ⟨y, hy⟩ := hx
    obtain ⟨ys, hys⟩ := ih hxs
    exact ⟨y :: ys, .cons hy hys⟩

theorem exists_of_mem_of_forall₂ (h : List.Forall₂ R xs ys) {y : β} (hy : y ∈ ys) :
    ∃ x ∈ xs, R x y := by
  induction h with
  | nil => cases hy
  | cons hfirst hrest ih =>
    rcases List.mem_cons.1 hy with rfl | hy
    · exact ⟨_, List.mem_cons_self, hfirst⟩
    · obtain ⟨x, hx, hR⟩ := ih hy
      exact ⟨x, List.mem_cons_of_mem _ hx, hR⟩

variable {f : α → String} {g : β → String}

theorem map_eq_map_of_forall₂ (h : List.Forall₂ R xs ys) (hname : ∀ x y, R x y → g y = f x) :
    ys.map g = xs.map f := by
  induction h with
  | nil => rfl
  | cons hfirst hrest ih => rw [List.map_cons, List.map_cons, hname _ _ hfirst, ih]

/-- Where related elements have the same name and names do not repeat, an element is found by the
name of the one that it is related to. -/
theorem exists_find?_of_forall₂ (h : List.Forall₂ R xs ys) (hname : ∀ x y, R x y → g y = f x)
    (hnodup : (xs.map f).Nodup) {x : α} (hx : x ∈ xs) :
    ∃ y, ys.find? (fun y => g y == f x) = some y ∧ R x y := by
  induction h with
  | nil => cases hx
  | @cons first y xs ys hfirst hrest ih =>
    obtain ⟨hnew, hnodup⟩ := List.nodup_cons.1 hnodup
    rcases List.mem_cons.1 hx with rfl | hx
    · exact ⟨y, by simp [hname x y hfirst], hfirst⟩
    · obtain ⟨z, hfind, hR⟩ := ih hnodup hx
      have hne : g y ≠ f x := by
        rw [hname first y hfirst]
        intro heq
        exact hnew (heq ▸ List.mem_map_of_mem hx)
      exact ⟨z, by rwa [List.find?_cons_of_neg (by simpa using hne)], hR⟩

/-- A loop that looks for each name among the earlier ones, and puts each element to a test of its
own, succeeds exactly if the names are distinct, from each other and from the earlier ones, and all
elements pass. -/
theorem loop_eq_ok_iff {ε : Type} {Passes : α → Prop}
    {loop : List String → List α → Except ε (List β)}
    (hnil : ∀ earlier ys, loop earlier [] = .ok ys ↔ ys = [])
    (hcons : ∀ earlier x xs ys, loop earlier (x :: xs) = .ok ys ↔ f x ∉ earlier ∧ Passes x ∧
      ∃ y rest, R x y ∧ loop (f x :: earlier) xs = .ok rest ∧ ys = y :: rest)
    {earlier : List String} :
    loop earlier xs = .ok ys ↔ (xs.map f).Nodup ∧ (xs.map f).Disjoint earlier ∧
      (∀ x ∈ xs, Passes x) ∧ List.Forall₂ R xs ys := by
  induction xs generalizing earlier ys with
  | nil => simp [hnil]
  | cons x xs ih =>
    rw [hcons, List.forall₂_cons_left_iff, List.forall_mem_cons, List.map_cons, List.nodup_cons,
      List.disjoint_cons_left]
    simp only [ih, List.disjoint_cons_right]
    constructor
    · rintro ⟨hearlier, hx, y, rest, hy, ⟨hnodup, ⟨hnew, hdisjoint⟩, hxs, hrest⟩, rfl⟩
      exact ⟨⟨hnew, hnodup⟩, ⟨hearlier, hdisjoint⟩, ⟨hx, hxs⟩, y, rest, hy, hrest, rfl⟩
    · rintro ⟨⟨hnew, hnodup⟩, ⟨hearlier, hdisjoint⟩, ⟨hx, hxs⟩, y, rest, hy, hrest, rfl⟩
      exact ⟨hearlier, hx, y, rest, hy, ⟨hnodup, ⟨hnew, hdisjoint⟩, hxs, hrest⟩, rfl⟩

end Related

/-! ## What definitions stand for -/

namespace AttributeDef

/-- If it defines an association, it leads to one of the entities. -/
def LeadsInto (d : AttributeDef) (entities : List String) : Prop :=
  ∀ kind, d.kind = .association kind → ∃ target ∈ entities, d.target = some target

/-- The attribute of an entity that a definition stands for. Target and holder of a scalar mean
nothing. -/
structure Describes (d : AttributeDef) (entity : String) (a : Attribute) : Prop where
  name_eq : a.name = d.name
  declaringType_eq : a.declaringType = entity
  scalar : ∀ type, d.kind = .scalar type → a.kind = .scalar type
  association : ∀ kind, d.kind = .association kind →
    ∃ target, d.target = some target ∧ a.kind = .association kind target d.mappedBy

variable {d : AttributeDef} {entity : String} {entities : List String} {a b : Attribute}

theorem describes_scalar {type : ScalarType} (h : d.kind = .scalar type) :
    d.Describes entity a ↔ a = ⟨d.name, entity, .scalar type⟩ := by
  constructor
  · rintro ⟨hname, hdeclaring, hscalar, -⟩
    cases a
    simp_all
  · rintro rfl
    exact ⟨rfl, rfl, by simp [h], by simp [h]⟩

theorem describes_association {kind : AssociationKind} (h : d.kind = .association kind) :
    d.Describes entity a ↔ ∃ target, d.target = some target ∧
      a = ⟨d.name, entity, .association kind target d.mappedBy⟩ := by
  constructor
  · rintro ⟨hname, hdeclaring, -, hassociation⟩
    obtain ⟨target, htarget, hkind⟩ := hassociation kind h
    refine ⟨target, htarget, ?_⟩
    cases a
    simp_all
  · rintro ⟨target, htarget, rfl⟩
    exact ⟨rfl, rfl, by simp [h], by simp [h, htarget]⟩

/-- A definition stands for one attribute. -/
theorem Describes.unique (ha : d.Describes entity a) (hb : d.Describes entity b) : a = b := by
  cases hkind : d.kind with
  | scalar type => exact ((describes_scalar hkind).1 ha).trans ((describes_scalar hkind).1 hb).symm
  | association kind =>
    obtain ⟨target, htarget, rfl⟩ := (describes_association hkind).1 ha
    obtain ⟨target', htarget', rfl⟩ := (describes_association hkind).1 hb
    cases htarget.symm.trans htarget'
    rfl

theorem LeadsInto.exists_describes (h : d.LeadsInto entities) (entity : String) :
    ∃ a, d.Describes entity a := by
  cases hkind : d.kind with
  | scalar type => exact ⟨_, (describes_scalar hkind).2 rfl⟩
  | association kind =>
    obtain ⟨target, -, htarget⟩ := h kind hkind
    exact ⟨_, (describes_association hkind).2 ⟨target, htarget, rfl⟩⟩

/-- An association that is described leads where its definition does. -/
theorem Describes.target_mem (ha : d.Describes entity a) (h : d.LeadsInto entities)
    {target : String} (htarget : a.target? = some target) : target ∈ entities := by
  cases hkind : d.kind with
  | scalar type =>
    rw [(describes_scalar hkind).1 ha] at htarget
    cases htarget
  | association kind =>
    obtain ⟨target', hmem, htarget'⟩ := h kind hkind
    obtain ⟨found, hfound, rfl⟩ := (describes_association hkind).1 ha
    cases htarget'.symm.trans hfound
    cases htarget
    exact hmem

theorem resolveKind_eq_ok_iff {kind : AttributeKind} :
    d.resolveKind entity entities = .ok kind ↔
      d.LeadsInto entities ∧ d.Describes entity ⟨d.name, entity, kind⟩ := by
  cases hkind : d.kind with
  | scalar type => simp [resolveKind, hkind, LeadsInto, describes_scalar hkind, eq_comm]
  | association k =>
    cases htarget : d.target with
    | none => simp [resolveKind, hkind, htarget, LeadsInto]
    | some target =>
      by_cases hmem : target ∈ entities
      · simp [resolveKind, hkind, htarget, hmem, LeadsInto, describes_association hkind, eq_comm]
      · simp [resolveKind, hkind, htarget, hmem, LeadsInto]

end AttributeDef

namespace EntityDef

/-- What the definition of an entity has to be like, among entities of the given names. -/
structure IsValid (d : EntityDef) (entities : List String) : Prop where
  /-- Attribute names do not repeat. -/
  nodup : (d.attributes.map AttributeDef.name).Nodup
  /-- Associations have a target, which is an entity. -/
  leads : ∀ a ∈ d.attributes, a.LeadsInto entities
  /-- The identifier is an attribute. -/
  id_mem : d.id ∈ d.attributes.map AttributeDef.name

/-- The entity type that a definition stands for. -/
structure Describes (d : EntityDef) (t : EntityType) : Prop where
  name_eq : t.name = d.name
  id_eq : t.id = d.id
  attributes : List.Forall₂ (fun a b => a.Describes d.name b) d.attributes t.attributes

variable {d : EntityDef} {entity : String} {entities earlier : List String}

/-! ## The attributes of an entity -/

theorem buildAttributes_cons_eq_ok_iff {a : AttributeDef} {defs : List AttributeDef}
    {attributes : List Attribute} :
    buildAttributes entity entities earlier (a :: defs) = .ok attributes ↔
      a.name ∉ earlier ∧ a.LeadsInto entities ∧ ∃ b rest, a.Describes entity b ∧
        buildAttributes entity entities (a.name :: earlier) defs = .ok rest ∧
        attributes = b :: rest := by
  constructor
  · intro h
    rw [buildAttributes] at h
    split at h
    · cases h
    next hearlier =>
    split at h
    · cases h
    next kind hkind =>
    split at h
    · cases h
    next rest hrest =>
    cases h
    obtain ⟨hleads, hdescribes⟩ := AttributeDef.resolveKind_eq_ok_iff.1 hkind
    exact ⟨by simpa using hearlier, hleads, _, rest, hdescribes, hrest, rfl⟩
  · rintro ⟨hearlier, hleads, ⟨name, declaring, kind⟩, rest, hdescribes, hrest, rfl⟩
    obtain rfl : name = a.name := hdescribes.name_eq
    obtain rfl : declaring = entity := hdescribes.declaringType_eq
    have hkind := AttributeDef.resolveKind_eq_ok_iff.2 ⟨hleads, hdescribes⟩
    simp [buildAttributes, hearlier, hkind, hrest]

/-- The attributes behind those of earlier names are built exactly if the names are distinct, from
each other and from the earlier ones, and all associations lead somewhere. -/
theorem buildAttributes_eq_ok_iff {defs : List AttributeDef} {attributes : List Attribute} :
    buildAttributes entity entities earlier defs = .ok attributes ↔
      (defs.map AttributeDef.name).Nodup ∧ (defs.map AttributeDef.name).Disjoint earlier ∧
        (∀ a ∈ defs, a.LeadsInto entities) ∧
        List.Forall₂ (fun a b => a.Describes entity b) defs attributes :=
  loop_eq_ok_iff (fun _ _ => by simp [buildAttributes, eq_comm])
    fun _ _ _ _ => buildAttributes_cons_eq_ok_iff

theorem Describes.map_name_attributes {t : EntityType} (h : d.Describes t) :
    t.attributes.map Attribute.name = d.attributes.map AttributeDef.name :=
  map_eq_map_of_forall₂ h.attributes fun _ _ hdescribes => hdescribes.name_eq

/-! ## Entities -/

theorem build_eq_ok_iff {t : EntityType} :
    d.build entities = .ok t ↔ d.IsValid entities ∧ d.Describes t := by
  constructor
  · intro h
    unfold build at h
    split at h
    · cases h
    next attributes hattributes =>
    split at h
    · next hid =>
      cases h
      obtain ⟨hnodup, -, hleads, hall⟩ := buildAttributes_eq_ok_iff.1 hattributes
      have hdescribes : d.Describes ⟨d.name, d.id, attributes⟩ := ⟨rfl, rfl, hall⟩
      refine ⟨⟨hnodup, hleads, ?_⟩, hdescribes⟩
      rw [← hdescribes.map_name_attributes]
      simpa using hid
    · cases h
  · rintro ⟨hvalid, hdescribes⟩
    have hattributes : buildAttributes d.name entities [] d.attributes = .ok t.attributes :=
      buildAttributes_eq_ok_iff.2
        ⟨hvalid.nodup, List.disjoint_nil_right _, hvalid.leads, hdescribes.attributes⟩
    have hid := hvalid.id_mem
    rw [← hdescribes.map_name_attributes] at hid
    have hany : t.attributes.any (·.name == d.id) = true := by simpa using hid
    simp only [build, hattributes, hany, if_true]
    rw [← hdescribes.name_eq, ← hdescribes.id_eq]

theorem IsValid.exists_describes (h : d.IsValid entities) : ∃ t, d.Describes t := by
  obtain ⟨attributes, hall⟩ := exists_forall₂_of_forall fun a ha =>
    (h.leads a ha).exists_describes d.name
  exact ⟨⟨d.name, d.id, attributes⟩, rfl, rfl, hall⟩

end EntityDef

/-! ## Catalogs -/

namespace Catalog

variable {c : Catalog} {defs : List EntityDef} {d : EntityDef} {type name : String}
  {entities earlier : List String} {a : Attribute}

theorem buildTypes_cons_eq_ok_iff {types : List EntityType} :
    buildTypes entities earlier (d :: defs) = .ok types ↔
      d.name ∉ earlier ∧ d.IsValid entities ∧ ∃ t rest, d.Describes t ∧
        buildTypes entities (d.name :: earlier) defs = .ok rest ∧ types = t :: rest := by
  constructor
  · intro h
    rw [buildTypes] at h
    split at h
    · cases h
    next t ht =>
    split at h
    · cases h
    next hearlier =>
    split at h
    · cases h
    next rest hrest =>
    cases h
    obtain ⟨hvalid, hdescribes⟩ := EntityDef.build_eq_ok_iff.1 ht
    exact ⟨by simpa using hearlier, hvalid, t, rest, hdescribes, hrest, rfl⟩
  · rintro ⟨hearlier, hvalid, t, rest, hdescribes, hrest, rfl⟩
    have ht := EntityDef.build_eq_ok_iff.2 ⟨hvalid, hdescribes⟩
    simp [buildTypes, ht, hearlier, hrest]

theorem buildTypes_eq_ok_iff {types : List EntityType} :
    buildTypes entities earlier defs = .ok types ↔
      (defs.map EntityDef.name).Nodup ∧ (defs.map EntityDef.name).Disjoint earlier ∧
        (∀ d ∈ defs, d.IsValid entities) ∧ List.Forall₂ EntityDef.Describes defs types :=
  loop_eq_ok_iff (fun _ _ => by simp [buildTypes, eq_comm])
    fun _ _ _ _ => buildTypes_cons_eq_ok_iff

/-- Which catalog is built from which definitions. -/
theorem build_eq_ok_iff : build defs = .ok c ↔
    (defs.map EntityDef.name).Nodup ∧ (∀ d ∈ defs, d.IsValid (defs.map EntityDef.name)) ∧
      List.Forall₂ EntityDef.Describes defs c.types := by
  have htypes : build defs = .ok c ↔
      buildTypes (defs.map EntityDef.name) [] defs = .ok c.types := by
    unfold build
    cases buildTypes (defs.map EntityDef.name) [] defs with
    | error e => simp
    | ok types =>
      cases c
      simp
  rw [htypes, buildTypes_eq_ok_iff]
  simp

/-! ### What a catalog holds -/

theorem mem_of_type? {t : EntityType} (h : c.type? type = some t) : t ∈ c.types ∧ t.name = type :=
  ⟨List.mem_of_find?_eq_some h, by simpa using List.find?_some h⟩

theorem exists_type_of_mem_attributes (h : a ∈ c.attributes type) :
    ∃ t ∈ c.types, t.name = type ∧ t.attributes = c.attributes type := by
  cases ht : c.type? type with
  | none => simp [attributes, ht] at h
  | some t =>
    obtain ⟨hmem, hname⟩ := mem_of_type? ht
    exact ⟨t, hmem, hname, by simp [attributes, ht]⟩

theorem hasType_iff_mem : c.hasType name = true ↔ name ∈ c.types.map EntityType.name := by
  simp [hasType, type?, List.find?_isSome]

theorem hasType_iff_of_build (h : build defs = .ok c) :
    c.hasType name = true ↔ name ∈ defs.map EntityDef.name := by
  obtain ⟨-, -, hall⟩ := build_eq_ok_iff.1 h
  rw [hasType_iff_mem, map_eq_map_of_forall₂ hall fun _ _ hdescribes => hdescribes.name_eq]

/-- The type of a definition is found by its name. -/
theorem exists_type?_of_build (h : build defs = .ok c) (hd : d ∈ defs) :
    ∃ t, c.type? d.name = some t ∧ d.Describes t := by
  obtain ⟨hnodup, -, hall⟩ := build_eq_ok_iff.1 h
  exact exists_find?_of_forall₂ hall (fun _ _ hdescribes => hdescribes.name_eq) hnodup hd

theorem describes_attributes_of_build (h : build defs = .ok c) (hd : d ∈ defs) :
    List.Forall₂ (fun a b => a.Describes d.name b) d.attributes (c.attributes d.name) := by
  obtain ⟨t, ht, hdescribes⟩ := exists_type?_of_build h hd
  simpa [attributes, ht] using hdescribes.attributes

theorem identifier?_of_build (h : build defs = .ok c) (hd : d ∈ defs) :
    c.identifier? d.name = some d.id := by
  obtain ⟨t, ht, hdescribes⟩ := exists_type?_of_build h hd
  simp [identifier?, ht, hdescribes.id_eq]

/-- Every attribute of a catalog was defined. -/
theorem exists_def_of_mem_attributes (h : build defs = .ok c) (ha : a ∈ c.attributes type) :
    ∃ d ∈ defs, d.name = type ∧ ∃ b ∈ d.attributes, b.Describes type a := by
  obtain ⟨t, ht, rfl, -⟩ := exists_type_of_mem_attributes ha
  have htype := (hasType_iff_of_build h).1 (hasType_iff_mem.2 (List.mem_map_of_mem ht))
  obtain ⟨d, hd, hname⟩ := List.mem_map.1 htype
  rw [← hname] at ha ⊢
  exact ⟨d, hd, rfl, exists_of_mem_of_forall₂ (describes_attributes_of_build h hd) ha⟩

/-- An attribute is found by the name in its definition. -/
theorem exists_attribute?_of_build (h : build defs = .ok c) (hd : d ∈ defs) {b : AttributeDef}
    (hb : b ∈ d.attributes) : ∃ a, c.attribute? d.name b.name = some a ∧ b.Describes d.name a := by
  obtain ⟨-, hvalid, -⟩ := build_eq_ok_iff.1 h
  exact exists_find?_of_forall₂ (describes_attributes_of_build h hd)
    (fun _ _ hdescribes => hdescribes.name_eq) (hvalid d hd).nodup hb

theorem attribute?_eq_some_iff_of_build (h : build defs = .ok c) (hd : d ∈ defs) :
    c.attribute? d.name name = some a ↔
      ∃ b ∈ d.attributes, b.name = name ∧ b.Describes d.name a := by
  constructor
  · intro ha
    obtain ⟨b, hb, hdescribes⟩ := exists_of_mem_of_forall₂ (describes_attributes_of_build h hd)
      (List.mem_of_find?_eq_some ha)
    have hname : a.name = name := by simpa using List.find?_some ha
    exact ⟨b, hb, hdescribes.name_eq.symm.trans hname, hdescribes⟩
  · rintro ⟨b, hb, rfl, hdescribes⟩
    obtain ⟨a', ha', hdescribes'⟩ := exists_attribute?_of_build h hd hb
    rw [ha', hdescribes.unique hdescribes']

/-- **Which definitions make a catalog, and which catalog they make.** Definitions are accepted
exactly if entity names do not repeat, attribute names do not repeat within an entity, associations
have a target that is one of the entities, defined earlier, later or just there, and identifiers are
attributes. The catalog then has these entity types and no others. The attributes of each are the
ones defined, in turn, with their kinds, and each of them is found by its name. -/
theorem exists_build_iff_and_describes (defs : List EntityDef) :
    ((∃ c, build defs = .ok c) ↔
      (defs.map EntityDef.name).Nodup ∧
      ∀ d ∈ defs, (d.attributes.map AttributeDef.name).Nodup ∧
        (∀ a ∈ d.attributes, ∀ kind, a.kind = .association kind →
          ∃ target ∈ defs.map EntityDef.name, a.target = some target) ∧
        d.id ∈ d.attributes.map AttributeDef.name) ∧
    ∀ c, build defs = .ok c →
      (∀ type, c.hasType type = true ↔ type ∈ defs.map EntityDef.name) ∧
      ∀ d ∈ defs,
        List.Forall₂ (fun a b => a.Describes d.name b) d.attributes (c.attributes d.name) ∧
        (∀ name a, c.attribute? d.name name = some a ↔
          ∃ b ∈ d.attributes, b.name = name ∧ b.Describes d.name a) ∧
        c.identifier? d.name = some d.id := by
  refine ⟨⟨?_, ?_⟩, ?_⟩
  · rintro ⟨c, h⟩
    obtain ⟨hnodup, hvalid, -⟩ := build_eq_ok_iff.1 h
    exact ⟨hnodup, fun d hd => ⟨(hvalid d hd).nodup, (hvalid d hd).leads, (hvalid d hd).id_mem⟩⟩
  · rintro ⟨hnodup, hall⟩
    have hvalid : ∀ d ∈ defs, d.IsValid (defs.map EntityDef.name) := fun d hd =>
      ⟨(hall d hd).1, (hall d hd).2.1, (hall d hd).2.2⟩
    obtain ⟨types, htypes⟩ := exists_forall₂_of_forall fun d hd => (hvalid d hd).exists_describes
    exact ⟨⟨types⟩, build_eq_ok_iff.2 ⟨hnodup, hvalid, htypes⟩⟩
  · intro c h
    refine ⟨fun type => hasType_iff_of_build h, fun d hd => ?_⟩
    exact ⟨describes_attributes_of_build h hd,
      fun name a => attribute?_eq_some_iff_of_build h hd, identifier?_of_build h hd⟩

/-- Employees lead to a type that is defined before them, to one behind them, and to themselves. -/
theorem describes_employee : ∃ c, build Example.company = .ok c ∧
    List.Forall₂ (fun a b => a.Describes "Employee" b) Example.employee.attributes
      (c.attributes "Employee") ∧
    c.attribute? "Employee" "reports" =
      some ⟨"reports", "Employee", .association .oneToMany "Employee" (some "manager")⟩ ∧
    c.identifier? "Employee" = some "id" := by
  have hrun : ((build Example.company).toOption.any fun _ => true) = true := by decide +kernel
  obtain ⟨c, hbuild, -⟩ := exists_ok_of_any hrun
  have hmem : Example.employee ∈ Example.company := by simp [Example.company]
  obtain ⟨hattributes, hfind, hid⟩ :=
    ((exists_build_iff_and_describes Example.company).2 c hbuild).2 Example.employee hmem
  refine ⟨c, hbuild, hattributes, (hfind "reports" _).2 ⟨Example.association "reports" .oneToMany
    "Employee" (some "manager"), by decide, rfl, ?_⟩, hid⟩
  exact (AttributeDef.describes_association rfl).2 ⟨"Employee", rfl, rfl⟩

end Catalog

end FilterQuery
