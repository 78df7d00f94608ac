import FilterQuery.Proofs.Compiled
import FilterQuery.Proofs.Digits

set_option autoImplicit false

/-! # Walks through a catalog

A dotted path is a walk from one entity type to the next, over associations. `reach?` is the type
that such a walk leads to, and a path resolves by parts: where its first segments lead to a type,
the others are resolved from there (`resolveSegments_append`).

`WellFormed` holds of every catalog that is built from definitions (`wellFormed_of_build`):
associations lead to types of the catalog, and a type has its identifier among its attributes.

The compiler looks for the first collection on a path by resolving longer and longer parts of it.
`hop_outcome` says what it can find, in terms of the walk alone: in a well-formed catalog the second
look at the path never contradicts the first. -/

namespace FilterQuery

open FilterQuery.Text

/-! ## Segments -/

theorem not_mem_splitAll {mark : Char} {cs : List Char} :
    ∀ part ∈ splitAll mark cs, mark ∉ part := by
  induction cs with
  | nil => simp [splitAll]
  | cons c rest ih =>
    rw [splitAll]
    split
    · simpa using ih
    · next hc =>
      split
      · simpa using Ne.symm hc
      · next part parts hparts =>
        rw [hparts] at ih
        simpa [Ne.symm hc] using ih

theorem splitAll_join {mark : Char} {parts : List (List Char)} (hne : parts ≠ [])
    (h : ∀ part ∈ parts, mark ∉ part) : splitAll mark (join [mark] parts) = parts := by
  induction parts with
  | nil => exact absurd rfl hne
  | cons part parts ih =>
    obtain ⟨hpart, hparts⟩ := List.forall_mem_cons.1 h
    cases parts with
    | nil => exact splitAll_eq_singleton hpart
    | cons next parts =>
      have hrest := ih (by simp) hparts
      simpa [join] using (splitAll_append hpart).trans (congrArg _ hrest)

/-- A segment has no dot in it. -/
theorem dot_not_mem_segments {path : String} : ∀ name ∈ segments path, '.' ∉ name.toList := by
  intro name hname
  obtain ⟨part, hpart, rfl⟩ := List.mem_map.1 hname
  simpa using not_mem_splitAll part hpart

/-- Names without dots are the segments of the path that they make. -/
theorem segments_joinSegments {parts : List String} (hne : parts ≠ [])
    (h : ∀ name ∈ parts, '.' ∉ name.toList) : segments (joinSegments parts) = parts := by
  have hsplit : splitAll '.' (join ['.'] (parts.map String.toList)) = parts.map String.toList :=
    splitAll_join (by simpa using hne) (by simpa using h)
  simp [segments, joinSegments, hsplit, Function.comp_def]

namespace Catalog

variable {c : Catalog} {type name target : String} {a attr : Attribute}
  {path before rest : List String}

/-! ## Walks -/

/-- The type that a walk over associations leads to. -/
def reach? (c : Catalog) (type : String) : List String → Option String
  | [] => some type
  | segment :: rest =>
    match c.attribute? type segment with
    | none => none
    | some attr =>
      match attr.target? with
      | none => none
      | some target => reach? c target rest

theorem name_of_attribute? (h : c.attribute? type name = some a) : a.name = name := by
  simpa using List.find?_some h

theorem mem_of_attribute? (h : c.attribute? type name = some a) : a ∈ c.attributes type :=
  List.mem_of_find?_eq_some h

theorem resolveSegments_singleton :
    c.resolveSegments type [name] = .ok a ↔ c.attribute? type name = some a := by
  cases hattr : c.attribute? type name with
  | none => simp [resolveSegments, hattr]
  | some attr => simp [resolveSegments, hattr]

/-- A path of two segments at least starts with an association. -/
theorem resolveSegments_cons (hne : rest ≠ []) :
    c.resolveSegments type (name :: rest) = .ok a ↔
      ∃ attr target, c.attribute? type name = some attr ∧ attr.target? = some target ∧
        c.resolveSegments target rest = .ok a := by
  cases hattr : c.attribute? type name with
  | none => simp [resolveSegments, hattr]
  | some attr =>
    cases htarget : attr.target? with
    | none => simp [resolveSegments, hattr, htarget, hne]
    | some target => simp [resolveSegments, hattr, htarget, hne]

/-- A path resolves by parts. -/
theorem resolveSegments_append (hne : rest ≠ []) :
    c.resolveSegments type (before ++ rest) = .ok a ↔
      ∃ middle, c.reach? type before = some middle ∧ c.resolveSegments middle rest = .ok a := by
  induction before generalizing type with
  | nil => simp [reach?]
  | cons segment before ih =>
    rw [List.cons_append, resolveSegments_cons (by simp [hne])]
    cases hattr : c.attribute? type segment with
    | none => simp [reach?, hattr]
    | some attr =>
      cases htarget : attr.target? with
      | none => simp [reach?, hattr, htarget]
      | some target => simp [reach?, hattr, htarget, ih]

theorem reach?_append {middle : String} (h : c.reach? type before = some middle) :
    c.reach? type (before ++ rest) = c.reach? middle rest := by
  induction before generalizing type with
  | nil =>
    cases h
    rfl
  | cons segment before ih =>
    cases hattr : c.attribute? type segment with
    | none => simp [reach?, hattr] at h
    | some attr =>
      cases htarget : attr.target? with
      | none => simp [reach?, hattr, htarget] at h
      | some target =>
        simp only [reach?, hattr, htarget] at h
        simpa [reach?, hattr, htarget] using ih h

/-- A walk of one step at least ends with an association to where it leads. -/
theorem exists_of_reach? (h : c.reach? type path = some target) (hne : path ≠ []) :
    ∃ a, c.resolveSegments type path = .ok a ∧ a.target? = some target := by
  induction path generalizing type with
  | nil => exact absurd rfl hne
  | cons segment rest ih =>
    cases hattr : c.attribute? type segment with
    | none => simp [reach?, hattr] at h
    | some attr =>
      cases htarget : attr.target? with
      | none => simp [reach?, hattr, htarget] at h
      | some next =>
        simp only [reach?, hattr, htarget] at h
        cases rest with
        | nil =>
          cases h
          exact ⟨attr, resolveSegments_singleton.2 hattr, htarget⟩
        | cons segment' rest =>
          obtain ⟨a, ha, hlast⟩ := ih h (by simp)
          exact ⟨a, (resolveSegments_cons (by simp)).2 ⟨attr, next, hattr, htarget, ha⟩, hlast⟩

theorem resolve_eq_ok {path : String} (h : c.resolve type path = .ok a) :
    c.hasType type = true ∧ c.resolveSegments type (segments path) = .ok a := by
  unfold resolve at h
  split at h
  · cases h
  · split at h
    · cases h
    · next htype => exact ⟨by simpa using htype, h⟩

/-- Names that are not empty and have no dot are resolved as the path that they make. -/
theorem resolve_joinSegments (htype : c.hasType type = true) (hne : joinSegments path ≠ "")
    (hdots : ∀ name ∈ path, '.' ∉ name.toList) :
    c.resolve type (joinSegments path) = c.resolveSegments type path := by
  have hpath : path ≠ [] := by
    rintro rfl
    exact hne rfl
  simp [resolve, htype, hne, segments_joinSegments hpath hdots]

/-- The first collection on a path: the segments in front of it, the collection, and those behind
it. -/
def firstCollection? (c : Catalog) (type : String) :
    List String → Option (List String × Attribute × List String)
  | [] => none
  | segment :: rest =>
    match c.attribute? type segment with
    | none => none
    | some attr =>
      if attr.isCollection then some ([], attr, rest)
      else
        match attr.target? with
        | none => none
        | some target =>
          (firstCollection? c target rest).map fun found => (segment :: found.1, found.2)

theorem firstCollection?_eq_some {collection : Attribute}
    (h : c.firstCollection? type path = some (before, collection, rest)) :
    collection.isCollection = true ∧ path = before ++ collection.name :: rest ∧
      ∃ owner, c.reach? type before = some owner ∧
        c.attribute? owner collection.name = some collection := by
  induction path generalizing type before with
  | nil => cases h
  | cons segment path ih =>
    rw [firstCollection?] at h
    split at h
    · cases h
    next attr hattr =>
    split at h
    · next hcollection =>
      cases h
      have hname := name_of_attribute? hattr
      exact ⟨hcollection, by simp [hname], type, rfl, by rw [hname, hattr]⟩
    · split at h
      · cases h
      next target htarget =>
      obtain ⟨⟨before', collection', rest'⟩, hfound, heq⟩ := Option.map_eq_some_iff.1 h
      cases heq
      obtain ⟨hcollection, rfl, owner, hreach, howner⟩ := ih hfound
      exact ⟨hcollection, rfl, owner, by simpa [reach?, hattr, htarget] using hreach, howner⟩

theorem exists_target_of_isCollection (h : a.isCollection = true) : ∃ t, a.target? = some t := by
  unfold Attribute.isCollection at h
  split at h
  · next kind target mappedBy hkind => exact ⟨target, by simp [Attribute.target?, hkind]⟩
  · cases h

/-! ## Well-formed catalogs -/

/-- What the compiler relies on: associations lead to types of the catalog, an attribute is found by
its name and knows its type, and a type has its identifier among its attributes. -/
structure WellFormed (c : Catalog) : Prop where
  hasType_target : ∀ {type target : String} {a : Attribute}, a ∈ c.attributes type →
    a.target? = some target → c.hasType target = true
  declaringType_eq : ∀ {type : String} {a : Attribute}, a ∈ c.attributes type →
    a.declaringType = type
  attribute?_name : ∀ {type : String} {a : Attribute}, a ∈ c.attributes type →
    c.attribute? type a.name = some a
  exists_identifier : ∀ {type : String}, c.hasType type = true →
    ∃ id a, c.identifier? type = some id ∧ c.attribute? type id = some a

/-- A catalog that is built from definitions is well-formed. -/
theorem wellFormed_of_build {defs : List EntityDef} (h : build defs = .ok c) : c.WellFormed := by
  obtain ⟨-, hvalid, -⟩ := build_eq_ok_iff.1 h
  exact {
    hasType_target := by
      intro type target a ha htarget
      obtain ⟨d, hd, -, b, hb, hdescribes⟩ := exists_def_of_mem_attributes h ha
      exact (hasType_iff_of_build h).2 (hdescribes.target_mem ((hvalid d hd).leads b hb) htarget)
    declaringType_eq := by
      intro type a ha
      obtain ⟨d, hd, -, b, hb, hdescribes⟩ := exists_def_of_mem_attributes h ha
      exact hdescribes.declaringType_eq
    attribute?_name := by
      intro type a ha
      obtain ⟨d, hd, rfl, b, hb, hdescribes⟩ := exists_def_of_mem_attributes h ha
      exact (attribute?_eq_some_iff_of_build h hd).2
        ⟨b, hb, hdescribes.name_eq.symm, hdescribes⟩
    exists_identifier := by
      intro type htype
      obtain ⟨d, hd, rfl⟩ := List.mem_map.1 ((hasType_iff_of_build h).1 htype)
      obtain ⟨b, hb, hid⟩ := List.mem_map.1 (hvalid d hd).id_mem
      obtain ⟨a, ha, -⟩ := exists_attribute?_of_build h hd hb
      exact ⟨d.id, a, identifier?_of_build h hd, hid ▸ ha⟩ }

namespace WellFormed

/-- A walk from a type of the catalog leads to a type of the catalog. -/
theorem hasType_reach? (hc : c.WellFormed) (htype : c.hasType type = true)
    (h : c.reach? type path = some target) : c.hasType target = true := by
  induction path generalizing type with
  | nil =>
    cases h
    exact htype
  | cons segment path ih =>
    cases hattr : c.attribute? type segment with
    | none => simp [reach?, hattr] at h
    | some attr =>
      cases htarget : attr.target? with
      | none => simp [reach?, hattr, htarget] at h
      | some next =>
        simp only [reach?, hattr, htarget] at h
        exact ih (hc.hasType_target (mem_of_attribute? hattr) htarget) h

/-- The attribute that points back belongs to the members. -/
theorem attribute?_inverse {source : String} (hc : c.WellFormed)
    (h : c.inverse? source attr type = some a) : c.attribute? type a.name = some a := by
  unfold inverse? at h
  split at h
  · exact hc.attribute?_name (mem_of_attribute? h)
  · exact hc.attribute?_name (List.mem_of_find?_eq_some h)

end WellFormed

end Catalog

/-! ## Steps to a collection -/

namespace Scope

variable {s : Scope} {field type : String} {done path : List String}

/-- A part of a path that leads somewhere leads somewhere too, unless it is an empty text. -/
theorem attributeAt_joinSegments (field : String) {attr : Attribute}
    (htype : s.catalog.hasType s.entity = true) (hdots : ∀ name ∈ path, '.' ∉ name.toList)
    (h : s.catalog.resolveSegments s.entity path = .ok attr) :
    s.attributeAt field (joinSegments path) = .ok attr ∨
      s.attributeAt field (joinSegments path) = refuse (.invalidField s.entity field .empty) := by
  by_cases hempty : joinSegments path = ""
  · right
    simp [attributeAt, Catalog.resolve, hempty, orRefuse]
  · left
    simp [attributeAt, Catalog.resolve_joinSegments htype hempty hdots, h, orRefuse]

/-- The search for a collection on a path that leads somewhere follows the walk. -/
theorem firstCollection_cases (field : String) (htype : s.catalog.hasType s.entity = true)
    (hdots : ∀ name ∈ done ++ path, '.' ∉ name.toList)
    (hreach : s.catalog.reach? s.entity done = some type)
    (hpath : path ≠ [] → ∃ attr, s.catalog.resolveSegments type path = .ok attr) :
    s.firstCollection field done path = refuse (.notACollection field) ∨
    s.firstCollection field done path = refuse (.invalidField s.entity field .empty) ∨
    ∃ before collection rest,
      s.firstCollection field done path = .ok (done ++ before, collection, rest) ∧
      s.catalog.firstCollection? type path = some (before, collection, rest) := by
  induction path generalizing done type with
  | nil => exact .inl rfl
  | cons segment path ih =>
    obtain ⟨last, hlast⟩ := hpath (by simp)
    -- The first segment names an attribute, whether it is the last one or not.
    obtain ⟨attr, hattr, hnext⟩ : ∃ attr, s.catalog.attribute? type segment = some attr ∧
        (path ≠ [] → ∃ target, attr.target? = some target ∧
          s.catalog.resolveSegments target path = .ok last) := by
      by_cases hempty : path = []
      · subst hempty
        exact ⟨last, Catalog.resolveSegments_singleton.1 hlast, fun hne => absurd rfl hne⟩
      · obtain ⟨attr, target, hattr, htarget, hrest⟩ :=
          (Catalog.resolveSegments_cons hempty).1 hlast
        exact ⟨attr, hattr, fun _ => ⟨target, htarget, hrest⟩⟩
    have hhere : s.catalog.resolveSegments s.entity (done ++ [segment]) = .ok attr :=
      (Catalog.resolveSegments_append (by simp)).2
        ⟨type, hreach, Catalog.resolveSegments_singleton.2 hattr⟩
    have hdots' : ∀ name ∈ done ++ [segment] ++ path, '.' ∉ name.toList := by simpa using hdots
    have hat := attributeAt_joinSegments field htype
      (fun name hname => hdots' name (List.mem_append_left _ hname)) hhere
    rcases hat with hat | hat
    · by_cases hcollection : attr.isCollection = true
      · refine .inr (.inr ⟨[], attr, path, ?_, ?_⟩)
        · simp [firstCollection, hat, hcollection, pure, Except.pure]
        · simp [Catalog.firstCollection?, hattr, hcollection]
      · have hstep : s.firstCollection field done (segment :: path) =
            s.firstCollection field (done ++ [segment]) path := by
          simp [firstCollection, hat, hcollection]
        rw [hstep]
        cases path with
        | nil => exact .inl rfl
        | cons next path =>
          obtain ⟨target, htarget, hrest⟩ := hnext (by simp)
          have hreach' : s.catalog.reach? s.entity (done ++ [segment]) = some target := by
            rw [Catalog.reach?_append hreach]
            simp [Catalog.reach?, hattr, htarget]
          rcases ih hdots' hreach' (fun _ => ⟨last, hrest⟩) with h | h | h
          · exact .inl h
          · exact .inr (.inl h)
          · obtain ⟨before, collection, rest, hfirst, hfound⟩ := h
            refine .inr (.inr ⟨segment :: before, collection, rest, by simpa using hfirst, ?_⟩)
            rw [Catalog.firstCollection?]
            simp [hattr, hcollection, htarget, hfound]
    · right
      left
      simp [firstCollection, hat, refuse]

/-- What stands behind a collection was walked over before. -/
theorem checkRest_eq_ok
    (h : path ≠ [] → ∃ attr, s.catalog.resolveSegments type path = .ok attr) :
    s.checkRest field type path = .ok () := by
  induction path generalizing type with
  | nil => rfl
  | cons segment path ih =>
    obtain ⟨last, hlast⟩ := h (by simp)
    by_cases hempty : path = []
    · subst hempty
      simp [checkRest, Catalog.resolveSegments_singleton.1 hlast, orFail]
    · obtain ⟨attr, target, hattr, htarget, hrest⟩ := (Catalog.resolveSegments_cons hempty).1 hlast
      simpa [checkRest, hattr, htarget, orFail] using ih fun _ => ⟨last, hrest⟩

/-- A step that goes over the first collection on the path of a field. -/
structure Hop.Found (s : Scope) (field : String) (before : List String) (collection : Attribute)
    (hop : Hop) : Prop where
  first : s.catalog.firstCollection? s.entity (segments (s.rename field)) =
    some (before, collection, hop.rest)
  owner : hop.owner = ⟨s.aliasName, before⟩
  ownerType : hop.ownerType = collection.declaringType
  target : collection.target? = some hop.target
  inverse : s.catalog.inverse? hop.ownerType collection hop.target = some hop.inverse
  rest : hop.rest ≠ [] → ∃ attr, s.catalog.resolveSegments hop.target hop.rest = .ok attr

/-- How the search for a step can end. -/
inductive HopOutcome (s : Scope) (field : String) : Compile Hop → Prop
  | invalidField {cause : PathError}
    (h : s.catalog.resolve s.entity (s.rename field) = .error cause ∨ cause = .empty) :
    HopOutcome s field (refuse (.invalidField s.entity field cause))
  | notACollection : HopOutcome s field (refuse (.notACollection field))
  | noInverseAttribute (target : String) :
    HopOutcome s field (refuse (.noInverseAttribute field target))
  | found {before : List String} {collection : Attribute} {hop : Hop}
    (h : hop.Found s field before collection) : HopOutcome s field (.ok hop)

/-- The step is found at the first collection of the walk, or one of three errors says why not. -/
theorem hop_outcome (s : Scope) (field : String) : HopOutcome s field (s.hop field) := by
  cases hresolve : s.catalog.resolve s.entity (s.rename field) with
  | error cause =>
    have hhop : s.hop field = refuse (.invalidField s.entity field cause) := by
      simp [hop, attributeAt, hresolve, orRefuse, refuse]
    rw [hhop]
    exact .invalidField (.inl hresolve)
  | ok last =>
    obtain ⟨htype, hlast⟩ := Catalog.resolve_eq_ok hresolve
    have hat : s.attributeAt field (s.rename field) = .ok last := by
      simp [attributeAt, hresolve, orRefuse]
    have hdots : ∀ name ∈ [] ++ segments (s.rename field), '.' ∉ name.toList :=
      dot_not_mem_segments
    rcases firstCollection_cases field htype hdots rfl fun _ => ⟨last, hlast⟩ with h | h | h
    · have hhop : s.hop field = refuse (.notACollection field) := by
        simp [hop, hat, h, refuse]
      rw [hhop]
      exact .notACollection
    · have hhop : s.hop field = refuse (.invalidField s.entity field .empty) := by
        simp [hop, hat, h, refuse]
      rw [hhop]
      exact .invalidField (.inr rfl)
    · obtain ⟨before, collection, rest, hfirst, hfound⟩ := h
      obtain ⟨hcollection, hpath, owner, hreach, howner⟩ := Catalog.firstCollection?_eq_some hfound
      obtain ⟨target, htarget⟩ := Catalog.exists_target_of_isCollection hcollection
      have hrest : rest ≠ [] → ∃ attr, s.catalog.resolveSegments target rest = .ok attr := by
        intro hne
        rw [hpath] at hlast
        obtain ⟨middle, hmiddle, hlast⟩ := (Catalog.resolveSegments_append (by simp)).1 hlast
        obtain ⟨attr, target', hattr, htarget', hlast⟩ := (Catalog.resolveSegments_cons hne).1 hlast
        cases hmiddle.symm.trans hreach
        cases hattr.symm.trans howner
        cases htarget'.symm.trans htarget
        exact ⟨last, hlast⟩
      cases hinverse : s.catalog.inverse? collection.declaringType collection target with
      | none =>
        have hhop : s.hop field = refuse (.noInverseAttribute field target) := by
          simp [hop, hat, hfirst, htarget, hinverse, orFail, refuse]
        rw [hhop]
        exact .noInverseAttribute target
      | some inverse =>
        have hhop : s.hop field =
            .ok ⟨⟨s.aliasName, before⟩, collection.declaringType, target, inverse, rest⟩ := by
          simp [hop, hat, hfirst, htarget, hinverse, orFail, checkRest_eq_ok hrest, pure,
            Except.pure]
        rw [hhop]
        exact .found {
          first := hfound
          owner := rfl
          ownerType := rfl
          target := htarget
          inverse := hinverse
          rest := hrest }

theorem exists_found_of_hop {hop : Hop} (h : s.hop field = .ok hop) :
    ∃ before collection, hop.Found s field before collection := by
  have houtcome := hop_outcome s field
  rw [h] at houtcome
  cases houtcome with
  | found hfound => exact ⟨_, _, hfound⟩

end Scope

end FilterQuery
