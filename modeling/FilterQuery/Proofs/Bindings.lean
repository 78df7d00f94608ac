import FilterQuery.Proofs.CatalogWalk
import FilterQuery.Proofs.FreshNames
import FilterQuery.Proofs.Placeholders

set_option autoImplicit false

/-! # Bindings

A condition whose value has no text form binds it to a parameter. `Condition.bindings` says which
values the conditions of a filter bind, from left to right, by the catalog alone: a boolean as it
is, an instant in the form that the attribute stores, on the clock of the zone in force.
`Binding.named` numbers them for each attribute: the first one for `a` is called `a_0`, the next one
`a_1`. A name says which attribute it has and which number, so no two bindings meet.

One step of the compiler keeps the register in line with that list (`Names.Holds.nextParameter`),
hence so does a whole condition (`Condition.binds_of_compile`) and every run of a session
(`Session.Run.holds`). -/

namespace FilterQuery

open FilterQuery.Text

/-! ## What is bound -/

/-- A comparison whose value is bound to a parameter. -/
structure Binding where
  /-- The path that is compared, behind the alias. -/
  path : List String
  symbol : Symbol
  /-- The name of the attribute at the end of the path. -/
  attr : String
  value : BoundValue
  deriving DecidableEq

/-- What is bound for a value that an attribute is compared with. -/
def Attribute.bound? (attr : Attribute) (zone : Zone) : Value → Option BoundValue
  | .boolean b => if attr.isBoolean then some (.boolean b) else none
  | .instant i =>
    match attr.scalarType?.map fun type => BoundValue.ofInstant i type zone with
    | some (.ok bound) => bound
    | _ => none
  | _ => none

/-- The binding of an attribute at the end of a path. -/
def Attribute.binding? (attr : Attribute) (zone : Zone) (path : String) (op : Operator)
    (value : Value) : Option Binding :=
  match op.symbol?, attr.bound? zone value with
  | some symbol, some bound => some ⟨segments path, symbol, attr.name, bound⟩
  | _, _ => none

/-- The binding of a path that starts at an entity. -/
def Catalog.binding? (c : Catalog) (zone : Zone) (entity path : String) (op : Operator)
    (value : Option Value) : Option Binding :=
  match c.resolve entity path, value with
  | .ok attr, some value => attr.binding? zone path op value
  | _, _ => none

namespace Condition

variable (catalog : Catalog) (rename : String → String) (zone : Zone)

mutual

/-- The bindings of the conditions on an entity, from left to right. -/
def bindings (entity : String) : Condition → List Binding
  | .simple field op value => (catalog.binding? zone entity (rename field) op value).toList
  | .not c => bindings entity c
  | .group _ first second more =>
    bindings entity first ++ (bindings entity second ++ bindingsAll entity more)
  | .having field sub =>
    match catalog.firstCollection? entity (segments (rename field)) with
    | some (_, collection, _) => bindings (collection.target?.getD entity) sub
    | none => []
  | .oneOf .. | .noneOf .. | .aggregate .. => []

def bindingsAll (entity : String) : List Condition → List Binding
  | [] => []
  | c :: cs => bindings entity c ++ bindingsAll entity cs

end

end Condition

/-- The bindings of an accepted filter, on the clock of the zone that was in force. -/
def Session.Acceptance.bindings (a : Session.Acceptance) : List Binding :=
  a.condition.bindings a.scope.catalog a.scope.rename a.scope.options.zone a.scope.entity

/-! ## What it is called -/

namespace Binding

/-- Bindings with their names: a binding is numbered by how many for the same attribute stand in
front of it. -/
def named (earlier : List Binding) : List Binding → List (String × Binding)
  | [] => []
  | b :: rest =>
    (Names.numbered b.attr ((earlier.map attr).count b.attr), b) :: named (earlier ++ [b]) rest

variable {earlier bs cs : List Binding} {a : String} {n : Nat}

theorem named_append (earlier bs cs : List Binding) :
    named earlier (bs ++ cs) = named earlier bs ++ named (earlier ++ bs) cs := by
  induction bs generalizing earlier with
  | nil => simp [named]
  | cons b bs ih => simp [named, ih]

/-- The numbers of an attribute go on where those of earlier bindings end. -/
theorem numbered_mem_named : Names.numbered a n ∈ (named earlier bs).map Prod.fst ↔
    (earlier.map attr).count a ≤ n ∧ n < (earlier.map attr).count a + (bs.map attr).count a := by
  induction bs generalizing earlier with
  | nil => simp [named]
  | cons b bs ih =>
    rw [named, List.map_cons, List.mem_cons, ih, Names.numbered_inj]
    by_cases hb : a = b.attr
    · subst hb
      simp only [List.map_append, List.map_cons, List.map_nil, List.count_append,
        List.count_cons_self, List.count_nil, true_and]
      omega
    · simp [hb, Ne.symm hb]

/-- No two bindings have the same name. -/
theorem nodup_named (earlier bs : List Binding) : ((named earlier bs).map Prod.fst).Nodup := by
  induction bs generalizing earlier with
  | nil => simp [named]
  | cons b bs ih =>
    refine List.nodup_cons.2 ⟨fun hmem => ?_, ih (earlier ++ [b])⟩
    have hle := (numbered_mem_named.1 hmem).1
    simp at hle

/-- The entry that a named binding makes in the register. -/
def entry (named : String × Binding) : String × BoundValue := (named.1, named.2.value)

theorem map_fst_entry (named : List (String × Binding)) :
    (named.map entry).map Prod.fst = named.map Prod.fst := by
  simp [entry, Function.comp_def]

end Binding

namespace Names

variable {names : Names} {earlier : List Binding}

/-- The register holds these bindings and no other ones. -/
def Holds (names : Names) (bs : List Binding) : Prop :=
  names.parameters = (Binding.named [] bs).map Binding.entry

/-- The register gives a new binding the next number of its attribute. -/
theorem Holds.nextParameter (h : names.Holds earlier) (b : Binding) :
    (names.nextParameter b.attr b.value).1 =
      numbered b.attr ((earlier.map Binding.attr).count b.attr) ∧
    (names.nextParameter b.attr b.value).2.Holds (earlier ++ [b]) := by
  have hnames : names.parameters.map Prod.fst = (Binding.named [] earlier).map Prod.fst := by
    rw [h, Binding.map_fst_entry]
  have hfresh : fresh (names.parameters.map Prod.fst) b.attr =
      numbered b.attr ((earlier.map Binding.attr).count b.attr) := by
    rw [hnames]
    apply fresh_eq_numbered
    · simp [Binding.numbered_mem_named]
    · intro m hm
      simpa [Binding.numbered_mem_named] using hm
  refine ⟨hfresh, ?_⟩
  rw [Holds, Binding.named_append, List.map_append, ← h]
  simp [Names.nextParameter, hfresh, Binding.named, Binding.entry]

end Names

/-! ## Clauses -/

/-- A comparison with a parameter. -/
structure BoundComparison where
  /-- The path behind the alias. -/
  path : List String
  symbol : Symbol
  parameter : String
  deriving DecidableEq

/-- How a named binding is written. -/
def Binding.written (named : String × Binding) : BoundComparison :=
  ⟨named.2.path, named.2.symbol, named.1⟩

namespace Clause

mutual

/-- The comparisons of a clause with parameters, from left to right. -/
def boundComparisons : Clause → List BoundComparison
  | .compare ref symbol (.parameter name) => [⟨ref.path, symbol, name⟩]
  | .not clause => boundComparisons clause
  | .group _ clauses => boundComparisonsAll clauses
  | .members _ _ _ restriction => boundComparisons restriction
  | _ => []

def boundComparisonsAll : List Clause → List BoundComparison
  | [] => []
  | clause :: rest => boundComparisons clause ++ boundComparisonsAll rest

end

variable {clause : Clause} {clauses more : List Clause}

theorem parametersAll_append :
    parametersAll (clauses ++ more) = parametersAll clauses ++ parametersAll more := by
  induction clauses with
  | nil => rfl
  | cons clause clauses ih => simp [parametersAll, ih]

theorem boundComparisonsAll_append :
    boundComparisonsAll (clauses ++ more) =
      boundComparisonsAll clauses ++ boundComparisonsAll more := by
  induction clauses with
  | nil => rfl
  | cons clause clauses ih => simp [boundComparisonsAll, ih]

/-- A clause without parameters. -/
def IsClosed (clause : Clause) : Prop := clause.parameters = [] ∧ clause.boundComparisons = []

theorem isClosed_group (connective : Connective) (h : ∀ clause ∈ clauses, clause.IsClosed) :
    (Clause.group connective clauses).IsClosed := by
  unfold IsClosed
  rw [parameters, boundComparisons]
  induction clauses with
  | nil => exact ⟨rfl, rfl⟩
  | cons clause clauses ih =>
    obtain ⟨⟨hparameters, hcomparisons⟩, hrest⟩ := List.forall_mem_cons.1 h
    obtain ⟨ihparameters, ihcomparisons⟩ := ih hrest
    simp [parametersAll, boundComparisonsAll, hparameters, hcomparisons, ihparameters,
      ihcomparisons]

/-- A row of components is compared without parameters. -/
theorem isClosed_of_compareRow? {ref : Ref} {op : Operator} {row : List (Component × Nat)}
    (h : compareRow? ref op row = some clause) : clause.IsClosed :=
  compareRow?_induction (fun _ _ _ => ⟨rfl, rfl⟩)
    (fun connective _ hclauses => isClosed_group connective hclauses) h

end Clause

/-! ## Compilation -/

/-- What binding `bs` behind `earlier` leads to: the register holds both, and the parameters that
were written, with their comparisons, are those of `bs`. -/
structure Names.Binds (earlier bs : List Binding) (names : Names) (parameters : List String)
    (comparisons : List BoundComparison) : Prop where
  holds : names.Holds (earlier ++ bs)
  parameters_eq : parameters = (Binding.named earlier bs).map Prod.fst
  comparisons_eq : comparisons = (Binding.named earlier bs).map Binding.written

namespace Names

variable {names names' : Names} {earlier bs bs' : List Binding}
  {parameters parameters' : List String}
  {comparisons comparisons' : List BoundComparison}

theorem Holds.binds_nil (h : names.Holds earlier) : Binds earlier [] names [] [] :=
  ⟨by simpa using h, rfl, rfl⟩

theorem Holds.binds_closed {clause : Clause} (h : names.Holds earlier) (hclause : clause.IsClosed) :
    Binds earlier [] names clause.parameters clause.boundComparisons := by
  rw [hclause.1, hclause.2]
  exact h.binds_nil

theorem Binds.append (h : Binds earlier bs names parameters comparisons)
    (h' : Binds (earlier ++ bs) bs' names' parameters' comparisons') :
    Binds earlier (bs ++ bs') names' (parameters ++ parameters') (comparisons ++ comparisons') where
  holds := by simpa using h'.holds
  parameters_eq := by
    rw [Binding.named_append, List.map_append, h.parameters_eq, h'.parameters_eq]
  comparisons_eq := by
    rw [Binding.named_append, List.map_append, h.comparisons_eq, h'.comparisons_eq]

/-- One comparison with a new parameter. -/
theorem Holds.binds_nextParameter (h : names.Holds earlier) (aliasName : String) (b : Binding) :
    Binds earlier [b] (names.nextParameter b.attr b.value).2
      (Clause.compare ⟨aliasName, b.path⟩ b.symbol
        (.parameter (names.nextParameter b.attr b.value).1)).parameters
      (Clause.compare ⟨aliasName, b.path⟩ b.symbol
        (.parameter (names.nextParameter b.attr b.value).1)).boundComparisons := by
  obtain ⟨hname, hholds⟩ := h.nextParameter b
  rw [hname]
  exact ⟨hholds, rfl, rfl⟩

end Names

namespace Scope

open Names

variable {s : Scope} {field : String} {op : Operator} {names names' : Names} {clause : Clause}
  {earlier : List Binding}

theorem boundInstant_eq_ok {attr : Attribute} {i : Instant} {bound : BoundValue}
    (h : s.boundInstant field attr i = .ok bound) :
    attr.bound? s.options.zone (.instant i) = some bound := by
  obtain ⟨type, htype, h⟩ := bind_eq_ok_iff.1 h
  obtain ⟨stored, hstored, h⟩ := bind_eq_ok_iff.1 h
  cases hof : BoundValue.ofInstant i type s.options.zone with
  | error f => simp [hof, orStop, stopWith] at hstored
  | ok stored' =>
    rw [hof, orStop] at hstored
    cases hstored
    simpa [Attribute.bound?, orFail_eq_ok.1 htype, hof] using h

/-- A comparison binds its own value, or none. -/
theorem binds_of_comparison {attr : Attribute} {value : Value} {path : String}
    (hn : names.Holds earlier)
    (h : s.comparison field ⟨s.aliasName, segments path⟩ attr op value names =
      .ok (clause, names')) :
    Binds earlier (attr.binding? s.options.zone path op value).toList names' clause.parameters
      clause.boundComparisons := by
  have hunbound : attr.bound? s.options.zone value = none →
      (attr.binding? s.options.zone path op value).toList = [] := by
    intro hnone
    cases hop : op.symbol? <;> simp [Attribute.binding?, hnone, hop]
  cases value with
  | string text =>
    rw [hunbound rfl]
    simp only [comparison] at h
    split at h
    · cases h
      exact hn.binds_nil
    · obtain ⟨symbol, -, h⟩ := bind_eq_ok_iff.1 h
      cases h
      exact hn.binds_nil
  | long _ | double _ =>
    rw [hunbound rfl]
    obtain ⟨symbol, -, h⟩ := bind_eq_ok_iff.1 h
    cases h
    split <;> exact hn.binds_nil
  | boolean b =>
    simp only [comparison] at h
    split at h
    case h_3 => cases h
    all_goals
      rw [pure_bind] at h
      split at h
      · next hboolean =>
        cases h
        simpa [Attribute.binding?, Attribute.bound?, Operator.symbol?, hboolean] using
          hn.binds_nextParameter s.aliasName ⟨segments path, _, attr.name, .boolean b⟩
      · next hboolean =>
        cases h
        rw [hunbound (by simp [Attribute.bound?, hboolean])]
        exact hn.binds_nil
  | monthDay _ | time _ =>
    rw [hunbound rfl]
    obtain ⟨row, hrow, h⟩ := bind_eq_ok_iff.1 h
    cases h
    exact hn.binds_closed (Clause.isClosed_of_compareRow? (orFail_eq_ok.1 hrow))
  | date _ | dateTime _ | year _ =>
    rw [hunbound rfl]
    obtain ⟨symbol, -, h⟩ := bind_eq_ok_iff.1 h
    cases h
    exact hn.binds_nil
  | instant i =>
    obtain ⟨symbol, hsymbol, h⟩ := bind_eq_ok_iff.1 h
    obtain ⟨bound, hbound, h⟩ := bind_eq_ok_iff.1 h
    cases h
    have hbinding : attr.binding? s.options.zone path op (.instant i) =
        some ⟨segments path, symbol, attr.name, bound⟩ := by
      simp [Attribute.binding?, boundInstant_eq_ok hbound, orFail_eq_ok.1 hsymbol]
    rw [hbinding]
    exact hn.binds_nextParameter s.aliasName ⟨segments path, symbol, attr.name, bound⟩

theorem binds_of_simple {value : Option Value} (hn : names.Holds earlier)
    (h : s.simple field op value names = .ok (clause, names')) :
    Binds earlier (s.catalog.binding? s.options.zone s.entity (s.rename field) op value).toList
      names' clause.parameters clause.boundComparisons := by
  obtain ⟨⟨ref, attr⟩, hresolve, h⟩ := bind_eq_ok_iff.1 h
  obtain ⟨found, hfound, heq⟩ := bind_eq_ok_iff.1 hresolve
  cases heq
  have hattr : s.catalog.resolve s.entity (s.rename field) = .ok attr := orRefuse_eq_ok.1 hfound
  have hnone : op.symbol? = none →
      (s.catalog.binding? s.options.zone s.entity (s.rename field) op value).toList = [] := by
    intro hop
    cases value <;> simp [Catalog.binding?, Attribute.binding?, hattr, hop]
  simp only at h
  split at h
  · cases h
    rw [hnone rfl]
    exact hn.binds_nil
  · cases h
    rw [hnone rfl]
    exact hn.binds_nil
  · obtain ⟨v, hv, h⟩ := bind_eq_ok_iff.1 h
    rw [orFail_eq_ok.1 hv]
    simpa [Catalog.binding?, hattr] using binds_of_comparison hn h

/-- The members of a list are written out. -/
theorem parameters_of_list {values : List Value} {ref : Ref} {items : List Operand}
    (h : s.list field values = .ok (ref, items)) : items.filterMap Operand.parameter? = [] := by
  obtain ⟨⟨found, attr⟩, -, h⟩ := bind_eq_ok_iff.1 h
  obtain ⟨written, hitems, h⟩ := bind_eq_ok_iff.1 h
  cases h
  rw [List.filterMap_eq_nil_iff]
  intro item hitem
  obtain ⟨value, -, hvalue⟩ := exists_of_mem_mapM hitems item hitem
  unfold listItem at hvalue
  split at hvalue <;> cases hvalue <;> rfl

theorem binds_of_aggregate {function : Aggregate} {bound : Value} (hn : names.Holds earlier)
    (h : s.aggregate field function op bound names = .ok (clause, names')) :
    Binds earlier [] names' clause.parameters clause.boundComparisons := by
  obtain ⟨hop, ownerId, aggregated, symbol, -, -, -, -, -, rfl, rfl⟩ := aggregate_eq_ok h
  -- A new alias is no parameter.
  exact Holds.binds_nil hn

end Scope

namespace Condition

open Names

mutual

/-- The register and the clause agree with the bindings of the condition. -/
theorem binds_of_compile {s : Scope} {names names' : Names} {clause : Clause}
    {earlier : List Binding} : ∀ {c : Condition}, names.Holds earlier →
      c.compile s names = .ok (clause, names') →
      Binds earlier (c.bindings s.catalog s.rename s.options.zone s.entity) names'
        clause.parameters clause.boundComparisons
  | .simple field op value, hn, h => Scope.binds_of_simple hn (compile_simple.symm.trans h)
  | .oneOf field values, hn, h => by
    obtain ⟨ref, items, hlist, rfl, rfl⟩ := compile_oneOf_eq_ok h
    exact hn.binds_closed ⟨Scope.parameters_of_list hlist, rfl⟩
  | .noneOf field values, hn, h => by
    obtain ⟨ref, items, hlist, rfl, rfl⟩ := compile_noneOf_eq_ok h
    exact hn.binds_closed ⟨Scope.parameters_of_list hlist, rfl⟩
  | .not c, hn, h => by
    obtain ⟨inner, hinner, rfl⟩ := compile_not_eq_ok h
    have hbinds := binds_of_compile hn hinner
    exact hbinds
  | .group connective first second more, hn, h => by
    obtain ⟨a, b, rest, names₁, names₂, ha, hb, hrest, rfl⟩ := compile_group_eq_ok h
    have hfirst := binds_of_compile hn ha
    have hsecond := binds_of_compile hfirst.holds hb
    have hmore := binds_of_compileAll hsecond.holds hrest
    exact hfirst.append (hsecond.append hmore)
  | .having field sub, hn, h => by
    obtain ⟨hop, restriction, names₁, hhop, -, hsub, rfl, rfl⟩ := compile_having_eq_ok h
    obtain ⟨before, collection, hfound⟩ := Scope.exists_found_of_hop hhop
    have hinner : bindings s.catalog s.rename s.options.zone s.entity (.having field sub) =
        bindings s.catalog s.rename s.options.zone hop.target sub := by
      simp [bindings, hfound.first, hfound.target]
    have hn' : (names.nextAlias hop.target).2.enter.Holds earlier := hn
    have hbinds := binds_of_compile hn' hsub
    rw [hinner]
    exact ⟨hbinds.holds, hbinds.parameters_eq, hbinds.comparisons_eq⟩
  | .aggregate field function op bound, hn, h =>
    Scope.binds_of_aggregate hn (compile_aggregate.symm.trans h)

theorem binds_of_compileAll {s : Scope} {names names' : Names} {clauses : List Clause}
    {earlier : List Binding} : ∀ {cs : List Condition}, names.Holds earlier →
      compileAll s cs names = .ok (clauses, names') →
      Binds earlier (bindingsAll s.catalog s.rename s.options.zone s.entity cs) names'
        (Clause.parametersAll clauses) (Clause.boundComparisonsAll clauses)
  | [], hn, h => by
    cases compileAll_nil.symm.trans h
    exact hn.binds_nil
  | c :: cs, hn, h => by
    obtain ⟨a, rest, names₁, ha, hrest, rfl⟩ := compileAll_cons_eq_ok h
    have hfirst := binds_of_compile hn ha
    exact hfirst.append (binds_of_compileAll hfirst.holds hrest)

end

end Condition

/-! ## Sessions -/

namespace Session

variable {catalog : Catalog} {history : List Acceptance} {s : Session} {steps : List Step}

/-- Through every run, the register and the clauses agree with the bindings of the filters that were
accepted. -/
theorem Run.binds (h : Run catalog history s) :
    Names.Binds [] (history.flatMap Acceptance.bindings) s.names
      (Clause.parametersAll s.clauses) (Clause.boundComparisonsAll s.clauses) := by
  induction h with
  | start h =>
    obtain ⟨-, rfl⟩ := start_cases h
    exact ⟨rfl, rfl, rfl⟩
  | withAlias h aliasName ih => exact ⟨ih.holds, ih.parameters_eq, ih.comparisons_eq⟩
  | withRename h rename ih => exact ih
  | withOptions h options ih => exact ih
  | orderBy h sorting ht ih =>
    obtain ⟨ordering, rfl⟩ := orderBy_eq_ok ht
    exact ih
  | accept h condition ht ih =>
    obtain ⟨clause, names, hcompile, rfl⟩ := accept_eq_ok_iff.1 ht
    have hclause := ih.append (Condition.binds_of_compile ih.holds hcompile)
    simpa [Clause.parametersAll_append, Clause.boundComparisonsAll_append, Clause.parametersAll,
      Clause.boundComparisonsAll, Acceptance.bindings] using hclause

/-- Placeholders and parameters correspond, whatever steps a session has taken and whichever of them
failed. The placeholders in the restriction are the names of the parameters, each once, and these
are the bindings of the accepted filters in turn: each comparison has the name that its own value is
bound to, and the bindings of an attribute are numbered in that order. Later steps only add to
them. -/
theorem placeholders_whereText {entity : String} (hstart : Session.start catalog entity = .ok s)
    (hnames : ∀ n ∈ catalog.names, isIdentifier n = true)
    (haliases : ∀ aliasName, .withAlias aliasName ∈ steps → isIdentifier aliasName = true) :
    let t := s.afterAll steps
    let named := Binding.named [] ((s.acceptances steps).flatMap Acceptance.bindings)
    QueryText.placeholders t.whereText = t.names.parameters.map Prod.fst ∧
    (QueryText.placeholders t.whereText).Nodup ∧
    t.names.parameters = named.map Binding.entry ∧
    Clause.boundComparisonsAll t.clauses = named.map Binding.written ∧
    ∀ earlier, earlier <+: steps →
      (s.afterAll earlier).names.parameters <+: t.names.parameters := by
  intro t named
  have hrun : ∀ steps, Run catalog (s.acceptances steps) (s.afterAll steps) := fun steps => by
    simpa using (Run.start hstart).afterAll steps
  have hbinds := (hrun steps).binds
  have hparameters : t.names.parameters = named.map Binding.entry := hbinds.holds
  have haliases' := forall_acceptances_aliasName
    (P := fun name => ∀ m ∈ Clause.separators, m ∉ name.toList)
    (not_mem_aliasName_start hstart hnames) fun aliasName hmem m hm =>
      not_mem_of_isIdentifier (isNameChar_of_mem_separators hm) (haliases aliasName hmem)
  have hplaceholders : QueryText.placeholders t.whereText = named.map Prod.fst := by
    rw [(hrun steps).placeholders_eq hnames haliases', hbinds.parameters_eq]
  refine ⟨?_, ?_, hparameters, hbinds.comparisons_eq, ?_⟩
  · rw [hplaceholders, hparameters, Binding.map_fst_entry]
  · rw [hplaceholders]
    exact Binding.nodup_named _ _
  · rintro earlier ⟨later, rfl⟩
    have hearlier : (s.afterAll earlier).names.parameters =
        (Binding.named [] ((s.acceptances earlier).flatMap Acceptance.bindings)).map
          Binding.entry := (hrun earlier).binds.holds
    rw [hearlier, hparameters]
    simp only [named, acceptances_append, List.flatMap_append, Binding.named_append,
      List.map_append]
    exact List.prefix_append _ _

/-- The last nanosecond of the year 1999. -/
def yearEnd : Instant :=
  ⟨⟨1999, 12, 31, by decide, by decide, by decide, by decide⟩,
    ⟨23, 59, 59, 999999999, by decide, by decide, by decide, by decide⟩⟩

/-- A filter, one that fails behind a condition that binds a value, and a filter on members under
another alias and in another zone. -/
def partTimeSteps : List Step := [
  .accept (.simple "isPartTime" .eq (some (.boolean true))),
  .accept (.group .and (.simple "isPartTime" .eq (some (.boolean false)))
    (.simple "nickname" .null none) []),
  .withAlias "staff",
  .withOptions { zone := Zone.fixed "Europe/Athens" 7200 },
  .accept (.having "reports" (.group .or (.simple "isPartTime" .ne (some (.boolean true)))
    (.simple "lastLoginLocal" .gt (some (.instant yearEnd))) []))]

/-- The filter that fails leaves no binding behind, and the last instant is bound in the year 2000.
-/
theorem placeholders_partTimeSteps : ∃ catalog s,
    Catalog.build Example.company = .ok catalog ∧ Session.start catalog "Employee" = .ok s ∧
    QueryText.placeholders (s.afterAll partTimeSteps).whereText =
      ["isPartTime_0", "isPartTime_1", "lastLoginLocal_0"] ∧
    (s.afterAll partTimeSteps).names.parameters =
      [("isPartTime_0", .boolean true), ("isPartTime_1", .boolean true),
        ("lastLoginLocal_0", .localDateTime (yearEnd.localAt 7200))] ∧
    (QueryText.placeholders (s.afterAll partTimeSteps).whereText).Nodup := by
  have hrun : ((Catalog.build Example.company).toOption.any fun catalog =>
      (Session.start catalog "Employee").toOption.any fun s =>
        decide ((s.afterAll partTimeSteps).names.parameters =
          [("isPartTime_0", .boolean true), ("isPartTime_1", .boolean true),
            ("lastLoginLocal_0", .localDateTime (yearEnd.localAt 7200))])) = true := by
    decide +kernel
  obtain ⟨catalog, hbuild, hrun⟩ := exists_ok_of_any hrun
  obtain ⟨s, hstart, hrun⟩ := exists_ok_of_any hrun
  have hparameters := of_decide_eq_true hrun
  have haliases : ∀ aliasName, .withAlias aliasName ∈ partTimeSteps →
      isIdentifier aliasName = true := by
    intro aliasName hmem
    obtain rfl : aliasName = "staff" := by simpa [partTimeSteps] using hmem
    decide
  obtain ⟨hnames, hnodup, -⟩ :=
    placeholders_whereText hstart (Example.isIdentifier_names hbuild) haliases
  refine ⟨catalog, s, hbuild, hstart, ?_, hparameters, hnodup⟩
  rw [hnames, hparameters]
  rfl

end Session

end FilterQuery
