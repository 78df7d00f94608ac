import FilterQuery.Proofs.CatalogWalk
import FilterQuery.Proofs.QueryWords

set_option autoImplicit false

/-! # Paths of a query in their scopes

Every path of a query starts at an alias, and an alias stands for the entity type that it was
declared with. `Clause.paths` are the paths that a clause writes, each with the scope that it stands
in: the one of its own query or subquery, or the one around it where it says what a subquery is
asked about. `Clause.Path.Scoped` says that a path starts at the alias of its scope and leads from
the type of that alias to an attribute. In a catalog that is built from definitions with identifiers
for names, every path of a compilation does (`Condition.scoped_of_compile`), with one exception: a
total is grouped by the identifier of the owner, behind the attribute of the members that points
back, and if that is no association, or one to another type, the identifier may lead nowhere.

The compiler puts some paths together from parts of others: the way to the owner of a collection,
with or without its identifier behind it, and the ways from a member. That they lead somewhere is
the walk over the first collection, seen from both ends. -/

namespace FilterQuery

open FilterQuery.Text

/-! ## Paths that lead somewhere -/

namespace Catalog

/-- A path from an alias leads from the type that the alias stands for to an attribute. -/
structure Leads (c : Catalog) (type aliasName : String) (ref : Ref) (attr : Attribute) : Prop where
  alias_eq : ref.aliasName = aliasName
  resolve_eq : c.resolve type (joinSegments ref.path) = .ok attr

variable {c : Catalog} {type a : String} {attr : Attribute} {path : List String}

/-- The text of a path of identifiers has the same segments. -/
theorem resolve_of_isIdentifier (htype : c.hasType type = true) (hne : path ≠ [])
    (hpath : ∀ n ∈ path, isIdentifier n = true) :
    c.resolve type (joinSegments path) = c.resolveSegments type path := by
  refine resolve_joinSegments htype ?_ fun n hn => not_mem_of_isIdentifier (by decide) (hpath n hn)
  intro hempty
  obtain ⟨n, rest, rfl⟩ := List.exists_cons_of_ne_nil hne
  have hn := ne_empty_of_isIdentifier (hpath n List.mem_cons_self)
  have htext : (joinSegments (n :: rest)).toList = [] := by simp [hempty]
  cases rest with
  | nil => simp [joinSegments, join, hn] at htext
  | cons m rest => simp [joinSegments, join] at htext

/-- Identifiers that are walked over make a path that resolves to the same attribute. -/
theorem leads_of_resolveSegments (hnames : ∀ n ∈ c.names, isIdentifier n = true)
    (htype : c.hasType type = true) (h : c.resolveSegments type path = .ok attr) :
    c.Leads type a ⟨a, path⟩ attr := by
  have hne : path ≠ [] := by
    rintro rfl
    cases h
  have hpath : ∀ n ∈ path, isIdentifier n = true := fun n hn =>
    hnames n ((mem_names_of_resolveSegments h).1 n hn)
  exact ⟨rfl, (resolve_of_isIdentifier htype hne hpath).trans h⟩

theorem leads_of_attribute? {name : String} (hnames : ∀ n ∈ c.names, isIdentifier n = true)
    (htype : c.hasType type = true) (h : c.attribute? type name = some attr) :
    c.Leads type a ⟨a, [name]⟩ attr :=
  leads_of_resolveSegments hnames htype (resolveSegments_singleton.2 h)

end Catalog

/-! ## The paths of a clause -/

namespace Clause

/-- What a path is written for. -/
inductive Path.Role where
  | compared
  /-- The owner of a collection, as an entity or by its identifier. -/
  | owner | ownerIdentifier
  /-- What a member points back at, by itself or with the identifier of the owner behind it. -/
  | inverse | inverseIdentifier
  | aggregated
  deriving DecidableEq, Repr

/-- A path that is written in a query, and the scope that it stands in: an alias and the entity type
that the alias stands for. -/
structure Path where
  role : Path.Role
  type : String
  aliasName : String
  ref : Ref
  deriving DecidableEq, Repr

mutual

/-- The paths that a clause writes in a scope. A subquery has a scope of its own; the path in front
of it stands in the scope around it. -/
def paths (type aliasName : String) : Clause → List Path
  | .null ref | .notNull ref | .compareText ref _ _ | .compare ref _ _
  | .compareComponent _ ref _ _ | .oneOf ref _ | .noneOf ref _ =>
    [⟨.compared, type, aliasName, ref⟩]
  | .not clause => paths type aliasName clause
  | .group _ clauses => pathsAll type aliasName clauses
  | .members owner back target restriction =>
    ⟨.owner, type, aliasName, owner⟩ :: ⟨.inverse, target, back.aliasName, back⟩ ::
      paths target back.aliasName restriction
  | .totals owner back target _ aggregated _ _ =>
    [⟨.ownerIdentifier, type, aliasName, owner⟩,
      ⟨.inverseIdentifier, target, back.aliasName, back⟩,
      ⟨.aggregated, target, back.aliasName, aggregated⟩]

def pathsAll (type aliasName : String) : List Clause → List Path
  | [] => []
  | clause :: rest => paths type aliasName clause ++ pathsAll type aliasName rest

end

variable {c : Catalog} {type a : String} {ref : Ref} {clause : Clause} {op : Operator}

theorem mem_pathsAll_iff {clauses : List Clause} {p : Path} :
    p ∈ pathsAll type a clauses ↔ ∃ clause ∈ clauses, p ∈ clause.paths type a := by
  induction clauses with
  | nil => simp [pathsAll]
  | cons clause clauses ih => simp [pathsAll, ih]

namespace Path

/-- The path leads to an attribute. The owner of a collection can also be the entity itself. -/
def Resolves (c : Catalog) (p : Path) : Prop :=
  (p.role = .owner ∧ p.ref.path = []) ∨
    ∃ attr, c.resolve p.type (joinSegments p.ref.path) = .ok attr

/-- A path that keeps to its scope. The identifier of an owner, behind an attribute of the members
that points back, leads somewhere exactly if that attribute does, to a type with an attribute of
this name. -/
structure Scoped (c : Catalog) (p : Path) : Prop where
  alias_eq : p.ref.aliasName = p.aliasName
  resolves : p.role ≠ .inverseIdentifier → p.Resolves c
  resolves_iff : p.role = .inverseIdentifier → ∃ inverse id,
    c.attribute? p.type inverse.name = some inverse ∧ p.ref.path = [inverse.name, id] ∧
      (p.Resolves c ↔
        ∃ target attr, inverse.target? = some target ∧ c.attribute? target id = some attr)

theorem scoped_of_leads {role : Role} {attr : Attribute} (hrole : role ≠ .inverseIdentifier)
    (h : c.Leads type a ref attr) : Scoped c ⟨role, type, a, ref⟩ :=
  ⟨h.alias_eq, fun _ => .inr ⟨attr, h.resolve_eq⟩, fun heq => absurd heq hrole⟩

/-- Only the owner of a collection is written without a segment. -/
theorem Scoped.path_ne_nil {p : Path} (h : p.Scoped c) (hrole : p.role ≠ .owner) :
    p.ref.path ≠ [] := by
  intro hpath
  by_cases hback : p.role = .inverseIdentifier
  · obtain ⟨inverse, id, -, heq, -⟩ := h.resolves_iff hback
    rw [hpath] at heq
    cases heq
  · rcases h.resolves hback with ⟨howner, -⟩ | ⟨attr, hresolve⟩
    · exact hrole howner
    · rw [hpath] at hresolve
      exact absurd hresolve (by simp [Catalog.resolve, joinSegments, join])

end Path

theorem scoped_of_compareRow? {row : List (Component × Nat)} {attr : Attribute}
    (h : c.Leads type a ref attr) (hrow : compareRow? ref op row = some clause) :
    ∀ p ∈ clause.paths type a, p.Scoped c := by
  refine compareRow?_induction (P := fun clause => ∀ p ∈ clause.paths type a, p.Scoped c) ?_ ?_ hrow
  · intro component symbol n
    exact List.forall_mem_singleton.2 (Path.scoped_of_leads (by decide) h)
  · intro connective clauses hclauses p hp
    obtain ⟨clause, hclause, hp⟩ := mem_pathsAll_iff.1 hp
    exact hclauses clause hclause p hp

end Clause

/-! ## Compilation -/

namespace Scope

open Clause

variable {s : Scope} {field : String} {op : Operator} {names names' : Names} {clause : Clause}

theorem leads_of_resolve {ref : Ref} {attr : Attribute} (h : s.resolve field = .ok (ref, attr)) :
    s.catalog.Leads s.entity s.aliasName ref attr := by
  obtain ⟨found, hfound, heq⟩ := bind_eq_ok_iff.1 h
  cases heq
  refine ⟨rfl, ?_⟩
  rw [joinSegments_segments]
  exact orRefuse_eq_ok.1 hfound

theorem scoped_of_simple {value : Option Value}
    (h : s.simple field op value names = .ok (clause, names')) :
    ∀ p ∈ clause.paths s.entity s.aliasName, p.Scoped s.catalog := by
  obtain ⟨⟨ref, attr⟩, hresolve, h⟩ := bind_eq_ok_iff.1 h
  have hleads := leads_of_resolve hresolve
  have hleaf := List.forall_mem_singleton.2
    (Path.scoped_of_leads (show Path.Role.compared ≠ .inverseIdentifier by decide) hleads)
  simp only at h
  split at h
  · cases h
    exact hleaf
  · cases h
    exact hleaf
  · obtain ⟨v, -, h⟩ := bind_eq_ok_iff.1 h
    cases compares_of_comparison (isPath_of_resolve hresolve).2 h with
    | row hvalue row hrow => exact scoped_of_compareRow? hleads hrow
    | _ => exact hleaf

theorem scoped_of_list {values : List Value} {ref : Ref} {items : List Operand}
    (h : s.list field values = .ok (ref, items)) :
    Path.Scoped s.catalog ⟨.compared, s.entity, s.aliasName, ref⟩ := by
  obtain ⟨⟨found, attr⟩, hresolve, h⟩ := bind_eq_ok_iff.1 h
  obtain ⟨written, -, h⟩ := bind_eq_ok_iff.1 h
  cases h
  exact Path.scoped_of_leads (by decide) (leads_of_resolve hresolve)

/-! ### Steps to a collection -/

/-- What a step to a collection goes over: the owner is where its path leads, the target is a type
of the catalog, and the attribute that points back belongs to it. -/
structure Hop.Scoped (s : Scope) (hop : Hop) : Prop where
  alias_eq : hop.owner.aliasName = s.aliasName
  reach_eq : s.catalog.reach? s.entity hop.owner.path = some hop.ownerType
  hasType_owner : s.catalog.hasType hop.ownerType = true
  hasType_target : s.catalog.hasType hop.target = true
  inverse_eq : s.catalog.attribute? hop.target hop.inverse.name = some hop.inverse
  rest : hop.rest ≠ [] → ∃ attr, s.catalog.resolveSegments hop.target hop.rest = .ok attr

theorem scoped_of_hop {hop : Hop} (hc : s.catalog.WellFormed)
    (htype : s.catalog.hasType s.entity = true) (h : s.hop field = .ok hop) : hop.Scoped s := by
  obtain ⟨before, collection, hfound⟩ := exists_found_of_hop h
  obtain ⟨-, -, owner, hreach, hcollection⟩ := Catalog.firstCollection?_eq_some hfound.first
  have hmem := Catalog.mem_of_attribute? hcollection
  have howner : hop.ownerType = owner := hfound.ownerType.trans (hc.declaringType_eq hmem)
  exact {
    alias_eq := by rw [hfound.owner]
    reach_eq := by rw [hfound.owner, howner, hreach]
    hasType_owner := howner ▸ hc.hasType_reach? htype hreach
    hasType_target := hc.hasType_target hmem hfound.target
    inverse_eq := hc.attribute?_inverse hfound.inverse
    rest := hfound.rest }

/-- The owner itself is at the end of a path, unless it is the entity of the scope. -/
theorem Hop.Scoped.scoped_owner {hop : Hop} (h : hop.Scoped s)
    (hnames : ∀ n ∈ s.catalog.names, isIdentifier n = true)
    (htype : s.catalog.hasType s.entity = true) :
    Path.Scoped s.catalog ⟨.owner, s.entity, s.aliasName, hop.owner⟩ := by
  refine ⟨h.alias_eq, fun _ => ?_, fun hrole => by cases hrole⟩
  by_cases hne : hop.owner.path = []
  · exact .inl ⟨rfl, hne⟩
  · obtain ⟨attr, hattr, -⟩ := Catalog.exists_of_reach? h.reach_eq hne
    have hleads := @Catalog.leads_of_resolveSegments s.catalog _ s.aliasName _ _ hnames htype hattr
    exact .inr ⟨attr, hleads.resolve_eq⟩

/-- What the identifier of the owner is looked up in, behind the attribute that points back. -/
theorem Hop.Scoped.scoped_inverseIdentifier {hop : Hop} {id inner : String} {attr : Attribute}
    (h : hop.Scoped s) (hnames : ∀ n ∈ s.catalog.names, isIdentifier n = true)
    (hid : s.catalog.attribute? hop.ownerType id = some attr) :
    Path.Scoped s.catalog
      ⟨.inverseIdentifier, hop.target, inner, ⟨inner, [hop.inverse.name, id]⟩⟩ := by
  refine ⟨rfl, fun hrole => absurd rfl hrole, fun _ => ⟨hop.inverse, id, h.inverse_eq, rfl, ?_⟩⟩
  have hpath : ∀ n ∈ [hop.inverse.name, id], isIdentifier n = true := by
    simpa using ⟨hnames _ (Catalog.mem_names_of_attribute? h.inverse_eq).1,
      hnames _ (Catalog.mem_names_of_attribute? hid).1⟩
  have hresolve := Catalog.resolve_of_isIdentifier h.hasType_target (by simp) hpath
  simp only [Path.Resolves, reduceCtorEq, false_and, false_or, hresolve,
    Catalog.resolveSegments_cons (List.cons_ne_nil id []), Catalog.resolveSegments_singleton,
    h.inverse_eq, Option.some.injEq]
  constructor
  · rintro ⟨found, _, target, rfl, htarget, hfound⟩
    exact ⟨target, found, htarget, hfound⟩
  · rintro ⟨target, found, htarget, hfound⟩
    exact ⟨found, hop.inverse, target, rfl, htarget, hfound⟩

/-- What is aggregated is an attribute of the members. -/
theorem Hop.Scoped.exists_attribute?_aggregated {hop : Hop} {function : Aggregate} {name : String}
    (h : hop.Scoped s) (hc : s.catalog.WellFormed) (hrest : hop.rest.length ≤ 1)
    (hname : s.aggregatedName hop field function = .ok name) :
    ∃ attr, s.catalog.attribute? hop.target name = some attr := by
  unfold aggregatedName at hname
  split at hname
  · next first more hsegments =>
    cases hname
    obtain rfl : more = [] := by
      rw [hsegments] at hrest
      simpa using hrest
    obtain ⟨attr, hattr⟩ := h.rest (by simp [hsegments])
    rw [hsegments] at hattr
    exact ⟨attr, Catalog.resolveSegments_singleton.1 hattr⟩
  · split at hname
    · obtain ⟨id, attr, hid, hattr⟩ := hc.exists_identifier h.hasType_target
      cases hid.symm.trans (orFail_eq_ok.1 hname)
      exact ⟨attr, hattr⟩
    · cases hname

theorem scoped_of_aggregate {function : Aggregate} {bound : Value} (hc : s.catalog.WellFormed)
    (hnames : ∀ n ∈ s.catalog.names, isIdentifier n = true)
    (htype : s.catalog.hasType s.entity = true)
    (h : s.aggregate field function op bound names = .ok (clause, names')) :
    ∀ p ∈ clause.paths s.entity s.aliasName, p.Scoped s.catalog := by
  obtain ⟨hop, ownerId, aggregated, symbol, hhop, hlength, hownerId, haggregated, -, rfl, -⟩ :=
    aggregate_eq_ok h
  replace hhop := scoped_of_hop hc htype hhop
  obtain ⟨id, idAttr, hid, hidAttr⟩ := hc.exists_identifier hhop.hasType_owner
  cases hid.symm.trans hownerId
  obtain ⟨attr, hattr⟩ := hhop.exists_attribute?_aggregated hc hlength haggregated
  have hlast := Catalog.resolveSegments_singleton.2 hidAttr
  have howner : s.catalog.resolveSegments s.entity (hop.owner.path ++ [ownerId]) = .ok idAttr :=
    (Catalog.resolveSegments_append (by simp)).2 ⟨_, hhop.reach_eq, hlast⟩
  have hmember : hop.owner.member ownerId = ⟨s.aliasName, hop.owner.path ++ [ownerId]⟩ := by
    rw [Ref.member, hhop.alias_eq]
  rw [hmember]
  simp only [paths, List.forall_mem_cons]
  refine ⟨Path.scoped_of_leads (by decide) (Catalog.leads_of_resolveSegments hnames htype howner),
    hhop.scoped_inverseIdentifier hnames hidAttr, ?_, by simp⟩
  exact Path.scoped_of_leads (by decide)
    (Catalog.leads_of_attribute? hnames hhop.hasType_target hattr)

end Scope

namespace Condition

mutual

/-- What a condition is compiled to keeps to its scopes. -/
theorem scoped_of_compile {s : Scope} {names names' : Names} {clause : Clause}
    (hc : s.catalog.WellFormed) (hnames : ∀ n ∈ s.catalog.names, isIdentifier n = true)
    (htype : s.catalog.hasType s.entity = true) :
    ∀ {c : Condition}, c.compile s names = .ok (clause, names') →
      ∀ p ∈ clause.paths s.entity s.aliasName, p.Scoped s.catalog
  | .simple field op value, h => Scope.scoped_of_simple (compile_simple.symm.trans h)
  | .oneOf field values, h => by
    obtain ⟨ref, items, hlist, rfl, rfl⟩ := compile_oneOf_eq_ok h
    exact List.forall_mem_singleton.2 (Scope.scoped_of_list hlist)
  | .noneOf field values, h => by
    obtain ⟨ref, items, hlist, rfl, rfl⟩ := compile_noneOf_eq_ok h
    exact List.forall_mem_singleton.2 (Scope.scoped_of_list hlist)
  | .not c, h => by
    obtain ⟨inner, hinner, rfl⟩ := compile_not_eq_ok h
    rw [Clause.paths]
    exact scoped_of_compile hc hnames htype hinner
  | .group connective first second more, h => by
    obtain ⟨a, b, rest, names₁, names₂, ha, hb, hrest, rfl⟩ := compile_group_eq_ok h
    rw [Clause.paths, Clause.pathsAll, Clause.pathsAll, List.forall_mem_append,
      List.forall_mem_append]
    exact ⟨scoped_of_compile hc hnames htype ha, scoped_of_compile hc hnames htype hb,
      scoped_of_compileAll hc hnames htype hrest⟩
  | .having field sub, h => by
    obtain ⟨hop, restriction, names₁, hhop, -, hsub, rfl, -⟩ := compile_having_eq_ok h
    have hscoped := Scope.scoped_of_hop hc htype hhop
    generalize (names.nextAlias hop.target).1 = inner at hsub ⊢
    rw [Clause.paths, List.forall_mem_cons, List.forall_mem_cons]
    refine ⟨hscoped.scoped_owner hnames htype, Clause.Path.scoped_of_leads (by decide)
      (Catalog.leads_of_attribute? hnames hscoped.hasType_target hscoped.inverse_eq), ?_⟩
    exact @scoped_of_compile (s.inner hop.target inner) _ _ _ hc hnames hscoped.hasType_target _
      hsub
  | .aggregate field function op bound, h =>
    Scope.scoped_of_aggregate hc hnames htype (compile_aggregate.symm.trans h)

theorem scoped_of_compileAll {s : Scope} {names names' : Names} {clauses : List Clause}
    (hc : s.catalog.WellFormed) (hnames : ∀ n ∈ s.catalog.names, isIdentifier n = true)
    (htype : s.catalog.hasType s.entity = true) :
    ∀ {cs : List Condition}, compileAll s cs names = .ok (clauses, names') →
      ∀ p ∈ Clause.pathsAll s.entity s.aliasName clauses, p.Scoped s.catalog
  | [], h => by
    cases compileAll_nil.symm.trans h
    simp [Clause.pathsAll]
  | c :: cs, h => by
    obtain ⟨a, rest, names₁, ha, hrest, rfl⟩ := compileAll_cons_eq_ok h
    rw [Clause.pathsAll, List.forall_mem_append]
    exact ⟨scoped_of_compile hc hnames htype ha, scoped_of_compileAll hc hnames htype hrest⟩

end

end Condition

end FilterQuery
