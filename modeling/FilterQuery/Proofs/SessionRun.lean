import FilterQuery.Example.Company
import FilterQuery.Query.Session
import FilterQuery.Proofs.QueryWords
import Mathlib.Data.List.Forall2

set_option autoImplicit false

/-! # Runs of a session

`Session.Run` is what can happen to a session before it is looked at, with the filters that were
accepted on the way. `Run.gives` says what a whole run leaves behind: the clauses of these filters,
in turn.

`Session.afterAll` is the other view of the same thing: any steps in any order, of which some may
fail and then change nothing. `Run.afterAll` says that they are a run of the steps that do not. -/

namespace FilterQuery

namespace Session

/-- A filter that a session accepted, with the scope and the names that it was compiled with. -/
structure Acceptance where
  scope : Scope
  names : Names
  condition : Condition

/-- The clause that the filter became. -/
def Acceptance.Gives (a : Acceptance) (clause : Clause) : Prop :=
  ∃ names, a.condition.compile a.scope a.names = .ok (clause, names)

/-- The sessions that steps lead to from a start, with the filters accepted on the way. A step that
fails is no step. -/
inductive Run (catalog : Catalog) : List Acceptance → Session → Prop
  | start {entity : String} {s : Session} (h : Session.start catalog entity = .ok s) :
    Run catalog [] s
  | withAlias {history : List Acceptance} {s : Session} (h : Run catalog history s)
    (aliasName : String) : Run catalog history (s.withAlias aliasName)
  | withRename {history : List Acceptance} {s : Session} (h : Run catalog history s)
    (rename : String → String) : Run catalog history (s.withRename rename)
  | withOptions {history : List Acceptance} {s : Session} (h : Run catalog history s)
    (options : CompileOptions) : Run catalog history (s.withOptions options)
  | orderBy {history : List Acceptance} {s t : Session} (h : Run catalog history s)
    (sorting : Sorting) (ht : s.orderBy sorting = .ok t) : Run catalog history t
  | accept {history : List Acceptance} {s t : Session} (h : Run catalog history s)
    (condition : Condition) (ht : s.accept condition = .ok t) :
    Run catalog (history ++ [⟨s.scope, s.names, condition⟩]) t

variable {s t : Session} {catalog : Catalog} {history : List Acceptance} {condition : Condition}

theorem start_eq_ok {entity : String} (h : Session.start catalog entity = .ok s) :
    s.scope.catalog = catalog ∧ s.clauses = [] := by
  unfold Session.start at h
  split at h
  · cases h
    exact ⟨rfl, rfl⟩
  · cases h

/-- What a session is like at its start. -/
theorem start_cases {entity : String} (h : Session.start catalog entity = .ok s) :
    catalog.hasType entity = true ∧
      s = ⟨⟨catalog, id, {}, entity, (Names.empty.nextAlias entity).1⟩,
        (Names.empty.nextAlias entity).2, [], []⟩ := by
  unfold Session.start at h
  split at h
  · next htype =>
    cases h
    exact ⟨htype, rfl⟩
  · cases h

/-- The alias that a session starts with has no separator in it. -/
theorem not_mem_aliasName_start {entity : String} (h : Session.start catalog entity = .ok s)
    (hnames : ∀ n ∈ catalog.names, Text.isIdentifier n = true) :
    ∀ m ∈ Clause.separators, m ∉ s.scope.aliasName.toList := by
  intro m hm
  obtain ⟨htype, rfl⟩ := start_cases h
  have hall : ∀ n ∈ catalog.names, m ∉ n.toList := fun n hn =>
    Text.not_mem_of_isIdentifier (Text.isNameChar_of_mem_separators hm) (hnames n hn)
  exact Clause.not_mem_alias hm hall (Catalog.mem_names_of_hasType htype)
    (Names.empty.isAliasOf_nextAlias entity)

theorem orderBy_eq_ok {sorting : Sorting} (h : s.orderBy sorting = .ok t) :
    ∃ ordering, t = { s with ordering := ordering } := by
  rw [orderBy_eq] at h
  obtain ⟨ordering, -, h⟩ := bind_eq_ok_iff.1 h
  cases h
  exact ⟨ordering, rfl⟩

theorem accept_eq_ok_iff : s.accept condition = .ok t ↔
    ∃ clause names, condition.compile s.scope s.names = .ok (clause, names) ∧
      t = { s with names := names, clauses := s.clauses ++ [clause] } := by
  rw [accept_eq]
  constructor
  · intro h
    obtain ⟨⟨clause, names⟩, hcompile, h⟩ := bind_eq_ok_iff.1 h
    cases h
    exact ⟨clause, names, hcompile, rfl⟩
  · rintro ⟨clause, names, hcompile, rfl⟩
    exact bind_eq_ok_iff.2 ⟨(clause, names), hcompile, rfl⟩

namespace Run

/-- The catalog stays the same through a session. -/
theorem catalog_eq (h : Run catalog history s) :
    s.scope.catalog = catalog ∧ ∀ a ∈ history, a.scope.catalog = catalog := by
  induction h with
  | start h => exact ⟨(start_eq_ok h).1, by simp⟩
  | withAlias h aliasName ih => exact ih
  | withRename h rename ih => exact ih
  | withOptions h options ih => exact ih
  | orderBy h sorting ht ih =>
    obtain ⟨ordering, rfl⟩ := orderBy_eq_ok ht
    exact ih
  | accept h condition ht ih =>
    obtain ⟨clause, names, -, rfl⟩ := accept_eq_ok_iff.1 ht
    refine ⟨ih.1, fun a ha => ?_⟩
    rcases List.mem_append.1 ha with ha | ha
    · exact ih.2 a ha
    · rw [List.mem_singleton.1 ha]
      exact ih.1

/-- The clauses of a session are those of the filters that it accepted, in turn. -/
theorem gives (h : Run catalog history s) : List.Forall₂ Acceptance.Gives history s.clauses := by
  induction h with
  | start h =>
    rw [(start_eq_ok h).2]
    exact .nil
  | withAlias h aliasName ih => exact ih
  | withRename h rename ih => exact ih
  | withOptions h options ih => exact ih
  | orderBy h sorting ht ih =>
    obtain ⟨ordering, rfl⟩ := orderBy_eq_ok ht
    exact ih
  | accept h condition ht ih =>
    obtain ⟨clause, names, hcompile, rfl⟩ := accept_eq_ok_iff.1 ht
    exact List.rel_append ih (.cons ⟨names, hcompile⟩ .nil)

theorem exists_gives (h : Run catalog history s) :
    ∀ clause ∈ s.clauses, ∃ a ∈ history, a.Gives clause := fun _ hclause =>
  exists_of_mem_of_forall₂ h.gives hclause

/-- A mark that is in no name of the catalog, and in no alias that a filter was compiled with, is in
no word of the restriction. -/
theorem avoids (h : Run catalog history s) {m : Char} (hm : m ∈ Clause.marks)
    (hnames : ∀ n ∈ catalog.names, m ∉ n.toList)
    (haliases : ∀ a ∈ history, m ∉ a.scope.aliasName.toList) :
    ∀ clause ∈ s.clauses, Clause.Part.Avoids m clause.parts := by
  intro clause hclause
  obtain ⟨a, ha, names, hcompile⟩ := h.exists_gives clause hclause
  have hcompiled := Condition.compiled_of_compile hcompile
  rw [h.catalog_eq.2 a ha] at hcompiled
  exact hcompiled.avoids hm hnames (haliases a ha)

end Run

/-- A reader of the restriction finds the parts of its clauses. -/
theorem fragments_whereText
    (h : ∀ clause ∈ s.clauses, Clause.Part.Avoids quoteMark clause.parts) :
    QueryText.fragments s.whereText =
      (Clause.partsAll .and s.clauses).flatMap Clause.Part.fragments := by
  have hwords := Clause.avoids_partsAll (by decide) .and h
  rw [whereText, ← Clause.text_partsAll]
  exact Clause.Part.fragments_text (Clause.separated_partsAll .and s.clauses) hwords

/-! ## Steps that may fail -/

/-- What can be asked of a session. -/
inductive Step where
  | withAlias (aliasName : String)
  | withRename (rename : String → String)
  | withOptions (options : CompileOptions)
  | orderBy (sorting : Sorting)
  | accept (condition : Condition)

/-- What a step does to a session. -/
def perform : Step → Stateful CompileError Session Unit
  | .withAlias aliasName => modify (·.withAlias aliasName)
  | .withRename rename => modify (·.withRename rename)
  | .withOptions options => modify (·.withOptions options)
  | .orderBy sorting => order sorting
  | .accept condition => restrict condition

/-- What a step leads to where it does not fail. -/
def attempt (s : Session) (step : Step) : Compile Session :=
  ((perform step).committed s).map Prod.snd

/-- The session that a step leaves, whether it fails or not. -/
def after (s : Session) (step : Step) : Session := ((perform step).outcome s).2

variable {step : Step}

theorem after_of_ok (h : s.attempt step = .ok t) : s.after step = t := by
  simp only [attempt, Stateful.committed] at h
  rw [Session.after]
  generalize (perform step).outcome s = found at h ⊢
  rcases found with ⟨e | ⟨⟩, u⟩ <;> cases h
  rfl

/-- A step that fails leaves the session as it was: filters are translated with a copy of the names,
and what the translation had done to the copy is dropped. -/
theorem after_of_error {e : Failure CompileError} (h : s.attempt step = .error e) :
    s.after step = s := by
  cases step with
  | withAlias aliasName => cases h
  | withRename rename => cases h
  | withOptions options => cases h
  | orderBy sorting =>
    simp only [attempt, perform, Stateful.committed, outcome_order] at h
    simp only [Session.after, perform, outcome_order]
    cases hterms : sorting.criteria.mapM s.scope.orderTerm with
    | ok ordering =>
      rw [hterms] at h
      cases h
    | error e => rfl
  | accept condition =>
    simp only [attempt, perform, Stateful.committed, outcome_restrict] at h
    simp only [Session.after, perform, outcome_restrict]
    rcases hclause : (condition.translate s.scope).outcome s.names with ⟨e | clause, names⟩
    · rfl
    · rw [hclause] at h
      cases h

def afterAll (s : Session) (steps : List Step) : Session := steps.foldl after s

@[simp] theorem afterAll_nil (s : Session) : s.afterAll [] = s := rfl

@[simp] theorem afterAll_cons (s : Session) (step : Step) (steps : List Step) :
    s.afterAll (step :: steps) = (s.after step).afterAll steps := rfl

/-- The filter that a step makes a session accept. -/
def acceptance? (s : Session) (step : Step) : Option Acceptance :=
  match step, s.attempt step with
  | .accept condition, .ok _ => some ⟨s.scope, s.names, condition⟩
  | _, _ => none

/-- The filters that a row of steps makes a session accept. -/
def acceptances (s : Session) : List Step → List Acceptance
  | [] => []
  | step :: rest => (s.acceptance? step).toList ++ acceptances (s.after step) rest

theorem acceptances_append (s : Session) (first second : List Step) :
    s.acceptances (first ++ second) =
      s.acceptances first ++ (s.afterAll first).acceptances second := by
  induction first generalizing s with
  | nil => rfl
  | cons step first ih => simp [acceptances, ih]

theorem Run.after (h : Run catalog history s) (step : Step) :
    Run catalog (history ++ (s.acceptance? step).toList) (s.after step) := by
  cases hattempt : s.attempt step with
  | error e => simpa [acceptance?, after_of_error hattempt, hattempt] using h
  | ok t =>
    rw [after_of_ok hattempt]
    cases step with
    | withAlias aliasName =>
      cases hattempt
      simpa [acceptance?] using h.withAlias aliasName
    | withRename rename =>
      cases hattempt
      simpa [acceptance?] using h.withRename rename
    | withOptions options =>
      cases hattempt
      simpa [acceptance?] using h.withOptions options
    | orderBy sorting => simpa [acceptance?] using h.orderBy sorting hattempt
    | accept condition =>
      simpa [acceptance?, hattempt] using h.accept condition hattempt

/-- Steps in a row are a run of those that do not fail. -/
theorem Run.afterAll (h : Run catalog history s) (steps : List Step) :
    Run catalog (history ++ s.acceptances steps) (s.afterAll steps) := by
  induction steps generalizing s history with
  | nil => simpa [acceptances] using h
  | cons step steps ih => simpa [acceptances] using ih (h.after step)

/-- The catalog and the entity stay the same through all steps. -/
theorem scope_afterAll (s : Session) (steps : List Step) :
    (s.afterAll steps).scope.catalog = s.scope.catalog ∧
      (s.afterAll steps).scope.entity = s.scope.entity := by
  induction steps generalizing s with
  | nil => exact ⟨rfl, rfl⟩
  | cons step steps ih =>
    have hafter : (s.after step).scope.catalog = s.scope.catalog ∧
        (s.after step).scope.entity = s.scope.entity := by
      cases hattempt : s.attempt step with
      | error e => simp [after_of_error hattempt]
      | ok t =>
        rw [after_of_ok hattempt]
        cases step with
        | withAlias aliasName =>
          cases hattempt
          exact ⟨rfl, rfl⟩
        | withRename rename =>
          cases hattempt
          exact ⟨rfl, rfl⟩
        | withOptions options =>
          cases hattempt
          exact ⟨rfl, rfl⟩
        | orderBy sorting =>
          obtain ⟨ordering, rfl⟩ := orderBy_eq_ok hattempt
          exact ⟨rfl, rfl⟩
        | accept condition =>
          obtain ⟨clause, names, -, rfl⟩ := accept_eq_ok_iff.1 hattempt
          exact ⟨rfl, rfl⟩
    obtain ⟨hcatalog, hentity⟩ := ih (s.after step)
    exact ⟨hcatalog.trans hafter.1, hentity.trans hafter.2⟩

/-- A step changes the alias only if it says so. -/
theorem aliasName_after (s : Session) (step : Step) :
    (s.after step).scope.aliasName = s.scope.aliasName ∨
      step = .withAlias (s.after step).scope.aliasName := by
  cases hattempt : s.attempt step with
  | error e => simp [after_of_error hattempt]
  | ok t =>
    rw [after_of_ok hattempt]
    cases step with
    | withAlias aliasName =>
      cases hattempt
      exact .inr rfl
    | withRename rename =>
      cases hattempt
      exact .inl rfl
    | withOptions options =>
      cases hattempt
      exact .inl rfl
    | orderBy sorting =>
      obtain ⟨ordering, rfl⟩ := orderBy_eq_ok hattempt
      exact .inl rfl
    | accept condition =>
      obtain ⟨clause, names, -, rfl⟩ := accept_eq_ok_iff.1 hattempt
      exact .inl rfl

/-- What holds of the alias of a session and of those in its steps holds of the alias afterwards. -/
theorem afterAll_aliasName {P : String → Prop} {steps : List Step} (hs : P s.scope.aliasName)
    (hsteps : ∀ aliasName, .withAlias aliasName ∈ steps → P aliasName) :
    P (s.afterAll steps).scope.aliasName := by
  induction steps generalizing s with
  | nil => exact hs
  | cons step steps ih =>
    refine ih ?_ fun name hname => hsteps name (List.mem_cons_of_mem _ hname)
    rcases aliasName_after s step with h | h
    · exact h ▸ hs
    · exact hsteps _ (h ▸ List.mem_cons_self)

/-- The same holds of all aliases that filters are accepted with. -/
theorem forall_acceptances_aliasName {P : String → Prop} {steps : List Step}
    (hs : P s.scope.aliasName) (hsteps : ∀ aliasName, .withAlias aliasName ∈ steps → P aliasName) :
    ∀ a ∈ s.acceptances steps, P a.scope.aliasName := by
  induction steps generalizing s with
  | nil => simp [acceptances]
  | cons step steps ih =>
    have hafter : P (s.afterAll [step]).scope.aliasName := by
      refine afterAll_aliasName hs fun name hname => hsteps name ?_
      rw [List.mem_singleton.1 hname]
      exact List.mem_cons_self
    intro a ha
    rcases List.mem_append.1 ha with ha | ha
    · have haccept : a.scope = s.scope := by
        unfold acceptance? at ha
        split at ha
        · rw [Option.toList_some, List.mem_singleton] at ha
          rw [ha]
        · cases ha
      exact haccept ▸ hs
    · exact ih hafter (fun name hname => hsteps name (List.mem_cons_of_mem _ hname)) a ha

end Session

/-- No name of the company has a mark in it. -/
theorem Example.isPlain_names {catalog : Catalog} (h : Catalog.build company = .ok catalog) :
    ∀ n ∈ catalog.names, Clause.isPlain n.toList = true := by
  refine Catalog.forall_names_of_build h fun d hd => ?_
  have hdefs : (company.all fun d => Clause.isPlain d.name.toList &&
      d.attributes.all fun a => Clause.isPlain a.name.toList) = true := by decide +kernel
  simpa using List.all_eq_true.1 hdefs d hd

theorem Example.not_mem_names {catalog : Catalog} {m : Char} (hm : m ∈ Clause.marks)
    (h : Catalog.build company = .ok catalog) : ∀ n ∈ catalog.names, m ∉ n.toList :=
  fun n hn => Text.not_mem_of_isPlain hm (isPlain_names h n hn)

/-- The names of the company are identifiers. -/
theorem Example.isIdentifier_names {catalog : Catalog} (h : Catalog.build company = .ok catalog) :
    ∀ n ∈ catalog.names, Text.isIdentifier n = true := by
  refine Catalog.forall_names_of_build h fun d hd => ?_
  have hdefs : (company.all fun d => Text.isIdentifier d.name &&
      d.attributes.all fun a => Text.isIdentifier a.name) = true := by decide +kernel
  simpa using List.all_eq_true.1 hdefs d hd

end FilterQuery
