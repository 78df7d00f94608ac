import FilterQuery.Proofs.Inverses
import FilterQuery.Proofs.Parse
import FilterQuery.Proofs.Scoping
import FilterQuery.Proofs.SessionRun

set_option autoImplicit false

/-! # What subqueries are correlated by

A condition on the members of a collection becomes a subquery: the owner is compared with what the
members point back at, as an entity or by its identifier. That makes sense if the members point back
at entities of the owner's type (`Subquery.Correlates`).

`Catalog.inverse?` finds the attribute that points back in one of two ways. If it has to search, it
looks at where the attribute leads. If the collection names the attribute that holds it, that name
is taken as it stands, and no definition is refused for it. So a subquery correlates exactly if the
name that its collection gives, if it gives one, is that of an association to the owner's type
(`Catalog.pointsBack`). -/

namespace FilterQuery

open FilterQuery.Text

/-! ## Subqueries of a clause -/

/-- What a subquery compares: the owner at the end of one path, and at the end of another one what
the members point back at. -/
structure Subquery where
  /-- The entity type that the path to the owner starts at. -/
  scope : String
  owner : List String
  /-- The entity type of the members. -/
  target : String
  /-- From a member. -/
  back : List String
  /-- Both paths end with the identifier of the owner. -/
  byIdentifier : Bool
  deriving DecidableEq

namespace Clause

mutual

/-- The subqueries of a clause in a scope of the given type, from left to right, each in front of
those inside it. -/
def subqueries (type : String) : Clause → List Subquery
  | .null _ | .notNull _ | .compareText .. | .compare .. | .compareComponent ..
  | .oneOf .. | .noneOf .. => []
  | .not clause => subqueries type clause
  | .group _ clauses => subqueriesAll type clauses
  | .members owner back target restriction =>
    ⟨type, owner.path, target, back.path, false⟩ :: subqueries target restriction
  | .totals owner back target _ _ _ _ => [⟨type, owner.path, target, back.path, true⟩]

def subqueriesAll (type : String) : List Clause → List Subquery
  | [] => []
  | clause :: clauses => subqueries type clause ++ subqueriesAll type clauses

end

variable {type : String} {clause : Clause} {clauses : List Clause}

theorem subqueriesAll_eq_nil (h : ∀ clause ∈ clauses, clause.subqueries type = []) :
    subqueriesAll type clauses = [] := by
  induction clauses with
  | nil => rfl
  | cons clause clauses ih =>
    obtain ⟨hclause, hclauses⟩ := List.forall_mem_cons.1 h
    rw [subqueriesAll, hclause, ih hclauses]
    rfl

theorem subqueries_of_compareRow? {ref : Ref} {op : Operator} {row : List (Component × Nat)}
    (h : compareRow? ref op row = some clause) : clause.subqueries type = [] :=
  compareRow?_induction (fun _ _ _ => rfl) (fun _ _ hclauses => subqueriesAll_eq_nil hclauses) h

end Clause

theorem Scope.subqueries_of_simple {s : Scope} {names names' : Names} {clause : Clause}
    {field type : String} {op : Operator} {value : Option Value}
    (h : s.simple field op value names = .ok (clause, names')) : clause.subqueries type = [] := by
  obtain ⟨ref, -, ⟨-, rfl⟩ | ⟨-, rfl⟩ | ⟨-, -, v, -, hv⟩⟩ := simple_cases h
  · rfl
  · rfl
  · cases hv with
    | row hvalue row hrow => exact Clause.subqueries_of_compareRow? hrow
    | _ => rfl

/-! ## Correlation -/

/-- A subquery compares what can be compared. The members have an association to the type of the
owner, so two entities of that type are compared, or their identifiers, both paths to which lead to
the same attribute. -/
inductive Subquery.Correlates (c : Catalog) (ownerType : String) (q : Subquery) : Prop
  | entities {inverse : Attribute} (hkind : q.byIdentifier = false)
    (hinverse : c.attribute? q.target inverse.name = some inverse)
    (htarget : inverse.target? = some ownerType) (hback : q.back = [inverse.name])
    (howner : c.reach? q.scope q.owner = some ownerType) : Correlates c ownerType q
  | identifiers {inverse attr : Attribute} {before : List String} {id : String}
    (hkind : q.byIdentifier = true)
    (hinverse : c.attribute? q.target inverse.name = some inverse)
    (htarget : inverse.target? = some ownerType) (hback : q.back = [inverse.name, id])
    (howner : q.owner = before ++ [id]) (hreach : c.reach? q.scope before = some ownerType)
    (hid : c.identifier? ownerType = some id)
    (hattr : c.resolveSegments q.scope q.owner = .ok attr)
    (hattr' : c.resolveSegments q.target q.back = .ok attr)
    -- The text of the path has the same segments, unless a name has a dot in it.
    (hresolve : '.' ∉ inverse.name.toList → '.' ∉ id.toList →
      c.resolve q.target (joinSegments q.back) = .ok attr) : Correlates c ownerType q

/-- Of a subquery that correlates, the attribute that points back is an association to the owner's
type. -/
theorem Subquery.Correlates.target?_eq {c : Catalog} {ownerType : String} {q : Subquery}
    {inverse : Attribute} {rest : List String} (h : q.Correlates c ownerType)
    (hback : q.back = inverse.name :: rest)
    (hinverse : c.attribute? q.target inverse.name = some inverse) :
    inverse.target? = some ownerType := by
  -- The name determines the attribute.
  have heq {found : Attribute} {rest' : List String} (hback' : q.back = found.name :: rest')
      (hfound : c.attribute? q.target found.name = some found) : inverse = found := by
    have hname := (List.cons.inj (hback.symm.trans hback')).1
    rw [← hname, hinverse] at hfound
    exact Option.some.inj hfound
  rcases h with ⟨-, hfound, htarget, hback', -⟩ | ⟨-, hfound, htarget, hback'⟩
  · exact heq hback' hfound ▸ htarget
  · exact heq hback' hfound ▸ htarget

/-- The subquery selects from the members of the collection. -/
structure Subquery.Over (c : Catalog) (collection : Attribute) (q : Subquery) : Prop where
  isCollection : collection.isCollection = true
  attribute?_eq : c.attribute? collection.declaringType collection.name = some collection
  target?_eq : collection.target? = some q.target

namespace Catalog

variable {c : Catalog} {collection inverse : Attribute} {target : String}

/-- If the collection names the attribute of the members that holds it, that attribute leads back to
the type that declares the collection. -/
def pointsBack (c : Catalog) (collection : Attribute) : Bool :=
  collection.holder?.all fun holder =>
    (collection.target?.bind fun target => (c.attribute? target holder).bind Attribute.target?) ==
      some collection.declaringType

/-- An attribute that is searched for leads back, and one that is named leads where it leads. -/
theorem target?_inverse_iff (htarget : collection.target? = some target)
    (h : c.inverse? collection.declaringType collection target = some inverse) :
    inverse.target? = some collection.declaringType ↔ c.pointsBack collection = true := by
  cases hholder : collection.holder? with
  | some holder =>
    rw [inverse?_of_holder? hholder] at h
    simp [pointsBack, hholder, htarget, h]
  | none =>
    obtain ⟨-, hfound, -⟩ := inverse?_eq_some_of_search hholder h
    simp [pointsBack, hholder, hfound]

/-- The first collection on a path. -/
def collection? (c : Catalog) (type path : String) : Option Attribute :=
  (c.firstCollection? type (segments path)).map fun found => found.2.1

end Catalog

/-- A subquery over a collection that correlates exactly if the collection allows it. -/
def Subquery.Answers (c : Catalog) (collection : Attribute) (q : Subquery) : Prop :=
  q.Over c collection ∧
    (q.Correlates c collection.declaringType ↔ c.pointsBack collection = true)

namespace Scope

variable {s : Scope} {names names' : Names} {clause : Clause} {field : String} {hop : Hop}

/-- The collection that a step goes over. -/
theorem exists_over_of_hop (hc : s.catalog.WellFormed) (h : s.hop field = .ok hop) :
    ∃ collection, s.catalog.collection? s.entity (s.rename field) = some collection ∧
      collection.declaringType = hop.ownerType ∧
      (∀ q : Subquery, q.target = hop.target → q.Over s.catalog collection) ∧
      (hop.inverse.target? = some hop.ownerType ↔ s.catalog.pointsBack collection = true) := by
  obtain ⟨before, collection, hfound⟩ := exists_found_of_hop h
  obtain ⟨hcollection, -, owner, -, hattr⟩ := Catalog.firstCollection?_eq_some hfound.first
  have hdeclaring := hc.declaringType_eq (Catalog.mem_of_attribute? hattr)
  have hinverse := hfound.inverse
  rw [hfound.ownerType] at hinverse ⊢
  refine ⟨collection, by simp [Catalog.collection?, hfound.first], rfl, fun q hq => ?_,
    Catalog.target?_inverse_iff hfound.target hinverse⟩
  exact ⟨hcollection, by rw [hdeclaring, hattr], hq ▸ hfound.target⟩

theorem Hop.Scoped.correlates_entities_iff (h : hop.Scoped s) :
    Subquery.Correlates s.catalog hop.ownerType
      ⟨s.entity, hop.owner.path, hop.target, [hop.inverse.name], false⟩ ↔
    hop.inverse.target? = some hop.ownerType := by
  constructor
  · intro hcorrelates
    exact hcorrelates.target?_eq rfl h.inverse_eq
  · intro htarget
    exact .entities rfl h.inverse_eq htarget rfl h.reach_eq

theorem Hop.Scoped.correlates_identifiers_iff {ownerId : String} (h : hop.Scoped s)
    (hc : s.catalog.WellFormed) (hid : s.catalog.identifier? hop.ownerType = some ownerId) :
    Subquery.Correlates s.catalog hop.ownerType
      ⟨s.entity, hop.owner.path ++ [ownerId], hop.target, [hop.inverse.name, ownerId], true⟩ ↔
    hop.inverse.target? = some hop.ownerType := by
  constructor
  · intro hcorrelates
    exact hcorrelates.target?_eq rfl h.inverse_eq
  · intro htarget
    obtain ⟨id, attr, hid', hattr⟩ := hc.exists_identifier h.hasType_owner
    cases hid'.symm.trans hid
    have hlast := Catalog.resolveSegments_singleton.2 hattr
    have hback : s.catalog.resolveSegments hop.target [hop.inverse.name, ownerId] = .ok attr :=
      (Catalog.resolveSegments_cons (by simp)).2
        ⟨hop.inverse, hop.ownerType, h.inverse_eq, htarget, hlast⟩
    refine .identifiers rfl h.inverse_eq htarget rfl rfl h.reach_eq hid
      ((Catalog.resolveSegments_append (by simp)).2 ⟨_, h.reach_eq, hlast⟩) hback ?_
    intro hdot hdot'
    have hne : joinSegments [hop.inverse.name, ownerId] ≠ "" := by
      intro hempty
      have htext := congrArg String.toList hempty
      simp [joinSegments, join] at htext
    rw [Catalog.resolve_joinSegments h.hasType_target hne (by simp [hdot, hdot'])]
    exact hback

end Scope

/-! ## Conditions -/

namespace Condition

section

variable (catalog : Catalog) (rename : String → String)

mutual

/-- The collections that the conditions on an entity go over, from left to right, each in front of
those of its members. -/
def collections (entity : String) : Condition → List Attribute
  | .simple .. | .oneOf .. | .noneOf .. => []
  | .not c => collections entity c
  | .group _ first second more =>
    collections entity first ++ (collections entity second ++ collectionsAll entity more)
  | .having field sub =>
    (catalog.collection? entity (rename field)).toList.flatMap fun collection =>
      collection :: collections (collection.target?.getD entity) sub
  | .aggregate field _ _ _ => (catalog.collection? entity (rename field)).toList

def collectionsAll (entity : String) : List Condition → List Attribute
  | [] => []
  | c :: cs => collections entity c ++ collectionsAll entity cs

end

end

mutual

/-- Every condition on members becomes a subquery over its collection. -/
theorem answers_of_compile {s : Scope} {names names' : Names} {clause : Clause}
    (hc : s.catalog.WellFormed) (htype : s.catalog.hasType s.entity = true) :
    ∀ {c : Condition}, c.compile s names = .ok (clause, names') →
      List.Forall₂ (Subquery.Answers s.catalog) (c.collections s.catalog s.rename s.entity)
        (clause.subqueries s.entity)
  | .simple field op value, h => by
    rw [Scope.subqueries_of_simple (compile_simple.symm.trans h)]
    exact .nil
  | .oneOf field values, h => by
    obtain ⟨_, _, -, rfl, rfl⟩ := compile_oneOf_eq_ok h
    exact .nil
  | .noneOf field values, h => by
    obtain ⟨_, _, -, rfl, rfl⟩ := compile_noneOf_eq_ok h
    exact .nil
  | .not c, h => by
    obtain ⟨inner, hinner, rfl⟩ := compile_not_eq_ok h
    rw [collections, Clause.subqueries]
    exact answers_of_compile hc htype hinner
  | .group connective first second more, h => by
    obtain ⟨a, b, rest, names₁, names₂, ha, hb, hrest, rfl⟩ := compile_group_eq_ok h
    exact List.rel_append (answers_of_compile hc htype ha)
      (List.rel_append (answers_of_compile hc htype hb) (answers_of_compileAll hc htype hrest))
  | .having field sub, h => by
    obtain ⟨hop, restriction, names₁, hhop, -, hsub, rfl, -⟩ := compile_having_eq_ok h
    obtain ⟨collection, hcollection, hdeclaring, hover, hback⟩ := Scope.exists_over_of_hop hc hhop
    have hscoped := Scope.scoped_of_hop hc htype hhop
    have htarget := (hover ⟨"", [], hop.target, [], false⟩ rfl).target?_eq
    rw [collections, hcollection]
    simp only [Option.toList_some, List.flatMap_cons, List.flatMap_nil, List.append_nil, htarget,
      Option.getD_some]
    refine .cons ⟨hover _ rfl, ?_⟩ ?_
    · rw [hdeclaring, ← hback]
      exact hscoped.correlates_entities_iff
    · exact @answers_of_compile (s.inner hop.target _) _ _ _ hc hscoped.hasType_target _ hsub
  | .aggregate field function op bound, h => by
    obtain ⟨hop, ownerId, _, _, hhop, -, hid, -, -, rfl, -⟩ :=
      Scope.aggregate_eq_ok (compile_aggregate.symm.trans h)
    obtain ⟨collection, hcollection, hdeclaring, hover, hback⟩ := Scope.exists_over_of_hop hc hhop
    have hscoped := Scope.scoped_of_hop hc htype hhop
    rw [collections, hcollection]
    refine .cons ⟨hover _ rfl, ?_⟩ .nil
    rw [hdeclaring, ← hback]
    exact hscoped.correlates_identifiers_iff hc hid

theorem answers_of_compileAll {s : Scope} {names names' : Names} {clauses : List Clause}
    (hc : s.catalog.WellFormed) (htype : s.catalog.hasType s.entity = true) :
    ∀ {cs : List Condition}, compileAll s cs names = .ok (clauses, names') →
      List.Forall₂ (Subquery.Answers s.catalog) (collectionsAll s.catalog s.rename s.entity cs)
        (Clause.subqueriesAll s.entity clauses)
  | [], h => by
    cases compileAll_nil.symm.trans h
    exact .nil
  | c :: cs, h => by
    obtain ⟨a, rest, names₁, ha, hrest, rfl⟩ := compileAll_cons_eq_ok h
    exact List.rel_append (answers_of_compile hc htype ha) (answers_of_compileAll hc htype hrest)

end

end Condition

/-! ## Sessions -/

namespace Session

/-- **What correlates.** Each condition on members of an accepted filter became a subquery over its
collection, from a catalog that was built from definitions. The members point back at the type that
declares the collection, and the subquery compares entities of that type or their identifiers,
exactly if the attribute that the collection names, if it names one, is an association to that type.
-/
theorem accept_correlates {defs : List EntityDef} {catalog : Catalog} {entity : String}
    {s u : Session} {condition : Condition} (hbuild : Catalog.build defs = .ok catalog)
    (hstart : Session.start catalog entity = .ok s) (steps : List Step)
    (haccept : (s.afterAll steps).accept condition = .ok u) :
    ∃ clause, u.clauses = (s.afterAll steps).clauses ++ [clause] ∧
      List.Forall₂ (fun collection q => Subquery.Over catalog collection q ∧
          (q.Correlates catalog collection.declaringType ↔ catalog.pointsBack collection = true))
        (condition.collections catalog (s.afterAll steps).scope.rename entity)
        (clause.subqueries entity) := by
  obtain ⟨htype, hs⟩ := start_cases hstart
  obtain ⟨hcatalog, hentity⟩ := scope_afterAll s steps
  obtain ⟨clause, names, hcompile, rfl⟩ := accept_eq_ok_iff.1 haccept
  obtain rfl : s.scope.catalog = catalog := by rw [hs]
  obtain rfl : s.scope.entity = entity := by rw [hs]
  rw [← hcatalog] at hbuild htype ⊢
  rw [← hentity] at htype ⊢
  have hc := Catalog.wellFormed_of_build hbuild
  exact ⟨clause, rfl, Condition.answers_of_compile hc htype hcompile⟩

/-- Projects with a member who leads someone and whose department is not too small. -/
def staffedProjects : Condition :=
  .having "members" (.group .and (.having "reports" (.simple "salary" .notNull none))
    (.aggregate "department.employees" .count .gte (.long 2)) [])

/-- The attribute that points back is searched for once and named twice, and one of the collections
leads from employees to employees. -/
theorem accept_staffedProjects : ∃ catalog s u clause,
    Catalog.build Example.company = .ok catalog ∧ Session.start catalog "Project" = .ok s ∧
    s.accept staffedProjects = .ok u ∧ u.clauses = [clause] ∧
    clause.subqueries "Project" = [⟨"Project", [], "Employee", ["projects"], false⟩,
      ⟨"Employee", [], "Employee", ["manager"], false⟩,
      ⟨"Employee", ["department", "id"], "Employee", ["department", "id"], true⟩] ∧
    List.Forall₂ (fun type q => Subquery.Correlates catalog type q)
      ["Project", "Employee", "Department"] (clause.subqueries "Project") := by
  have hrun : ((Catalog.build Example.company).toOption.any fun catalog =>
      (Session.start catalog "Project").toOption.any fun s =>
        (s.accept staffedProjects).toOption.any fun u =>
          (fun collections : List Attribute =>
            decide (collections.map Attribute.declaringType =
                ["Project", "Employee", "Department"] ∧
              Clause.subqueriesAll "Project" u.clauses =
                [⟨"Project", [], "Employee", ["projects"], false⟩,
                  ⟨"Employee", [], "Employee", ["manager"], false⟩,
                  ⟨"Employee", ["department", "id"], "Employee", ["department", "id"], true⟩] ∧
              ∀ collection ∈ collections, catalog.pointsBack collection = true))
            (staffedProjects.collections catalog id "Project")) = true := by decide +kernel
  obtain ⟨catalog, hbuild, hrun⟩ := exists_ok_of_any hrun
  obtain ⟨s, hstart, hrun⟩ := exists_ok_of_any hrun
  obtain ⟨u, haccept, hrun⟩ := exists_ok_of_any hrun
  obtain ⟨htypes, hsubqueries, hback⟩ := of_decide_eq_true hrun
  obtain ⟨clause, hclauses, hforall⟩ := accept_correlates hbuild hstart [] haccept
  obtain ⟨-, hs⟩ := start_cases hstart
  rw [afterAll_nil, hs] at hclauses hforall
  rw [hclauses] at hsubqueries
  refine ⟨catalog, s, u, clause, hbuild, hstart, haccept, hclauses,
    by simpa [Clause.subqueriesAll] using hsubqueries, ?_⟩
  rw [← htypes, List.forall₂_map_left_iff]
  exact ((List.forall₂_and_left _ _).2 ⟨hback, hforall⟩).imp fun collection q h => h.2.2.2 h.1

/-- A collection that names a scalar of its members as the attribute that holds it. -/
def mappedByScalar : List EntityDef := [
  ⟨"A", "id", [Example.scalar "id" .integer,
    Example.association "bs" .oneToMany "B" (some "name")]⟩,
  ⟨"B", "id", [Example.scalar "id" .integer, Example.scalar "name" .string]⟩]

/-- The definitions are accepted, and so is the filter, which compares entities with names. -/
theorem accept_mappedByScalar : ∃ catalog s u condition,
    Catalog.build mappedByScalar = .ok catalog ∧ Session.start catalog "A" = .ok s ∧
    Condition.parse {} "$having:bs(name$null:)" = .ok condition ∧ s.accept condition = .ok u ∧
    u.whereText = "a_0 IN (SELECT b_0.name FROM B b_0 WHERE b_0.name IS NULL)".toList ∧
    ∃ inverse, catalog.attribute? "B" "name" = some inverse ∧ inverse.target? = none := by
  have hrun : ((Catalog.build mappedByScalar).toOption.any fun catalog =>
      (Session.start catalog "A").toOption.any fun s =>
        (Condition.parse {} "$having:bs(name$null:)").toOption.any fun condition =>
          (s.accept condition).toOption.any fun u =>
            decide (u.whereText =
                "a_0 IN (SELECT b_0.name FROM B b_0 WHERE b_0.name IS NULL)".toList ∧
              (catalog.attribute? "B" "name").map Attribute.target? = some none)) = true := by
    decide +kernel
  obtain ⟨catalog, hbuild, hrun⟩ := exists_ok_of_any hrun
  obtain ⟨s, hstart, hrun⟩ := exists_ok_of_any hrun
  obtain ⟨condition, hparse, hrun⟩ := exists_ok_of_any hrun
  obtain ⟨u, haccept, hrun⟩ := exists_ok_of_any hrun
  obtain ⟨htext, htarget⟩ := of_decide_eq_true hrun
  exact ⟨catalog, s, u, condition, hbuild, hstart, hparse, haccept, htext,
    Option.map_eq_some_iff.1 htarget⟩

end Session

end FilterQuery
