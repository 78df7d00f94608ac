import FilterQuery.Proofs.SessionRun

set_option autoImplicit false

/-! # Filters that hold together

A session accepts filters one after the other, and the names of each are chosen behind those of the
ones before it. A group joins conditions inside one filter, and the names of its members are chosen
in the same way. So both ways come down to one thing, the row of conditions compiled in turn
(`Condition.compileAll`): `foldlM_accept` says so of filters accepted in turn, and `accept_group` of
a group. The two differ in what becomes of the clauses: they stand side by side, or as one clause in
parentheses.

`whereText_extended` is how the restriction grows, whether there is one already or not. -/

namespace FilterQuery

/-! ## The text of more clauses -/

namespace Clause

theorem text_ne_nil (clause : Clause) : clause.text ≠ [] := by
  cases clause <;> simp [text, call]

variable {connective : Connective} {clauses more : List Clause}

theorem textAll_eq_nil_iff : textAll connective clauses = [] ↔ clauses = [] := by
  cases clauses with
  | nil => simp [textAll]
  | cons clause rest =>
    cases rest with
    | nil => simp [textAll, text_ne_nil]
    | cons next rest => simp [textAll, text_ne_nil]

theorem textAll_append (hclauses : clauses ≠ []) (hmore : more ≠ []) :
    textAll connective (clauses ++ more) =
      textAll connective clauses ++ joint connective ++ textAll connective more := by
  induction clauses with
  | nil => exact absurd rfl hclauses
  | cons clause rest ih =>
    cases rest with
    | nil =>
      obtain ⟨next, more, rfl⟩ := List.exists_cons_of_ne_nil hmore
      simp [textAll]
    | cons next rest =>
      have hrest := ih (by simp)
      simp only [List.cons_append] at hrest
      simp [textAll, hrest]

end Clause

/-! ## Conditions in turn -/

/-- The members of a group are compiled in turn. -/
theorem Condition.compile_group_eq_compileAll (s : Scope) (connective : Connective)
    (first second : Condition) (more : List Condition) (names : Names) :
    compile s (.group connective first second more) names =
      compileAll s (first :: second :: more) names >>= fun found =>
        .ok (.group connective found.1, found.2) := by
  simp only [compile_group, compileAll_cons, bind_assoc]
  rfl

namespace Session

/-- The session with more clauses, and the names after them. -/
def extended (s : Session) (clauses : List Clause) (names : Names) : Session :=
  { s with names := names, clauses := s.clauses ++ clauses }

theorem accept_eq_extended (s : Session) (c : Condition) :
    s.accept c = c.compile s.scope s.names >>= fun found => .ok (s.extended [found.1] found.2) :=
  s.accept_eq c

/-- Filters that are accepted in turn are compiled in turn. -/
theorem foldlM_accept (s : Session) (cs : List Condition) :
    cs.foldlM accept s =
      Condition.compileAll s.scope cs s.names >>= fun found =>
        .ok (s.extended found.1 found.2) := by
  induction cs generalizing s with
  | nil => simp [Condition.compileAll_nil, extended, pure, Except.pure]
  | cons c cs ih =>
    rw [List.foldlM_cons, accept_eq_extended, Condition.compileAll_cons, bind_assoc, bind_assoc]
    refine bind_congr fun found => ?_
    -- The filters behind the first one are compiled with the names that it leaves.
    rw [ok_bind, ih, bind_assoc]
    refine bind_congr fun rest => ?_
    simp [extended, pure, Except.pure]

theorem accept_group (s : Session) (connective : Connective) (first second : Condition)
    (more : List Condition) :
    s.accept (.group connective first second more) =
      Condition.compileAll s.scope (first :: second :: more) s.names >>= fun found =>
        .ok (s.extended [.group connective found.1] found.2) := by
  rw [accept_eq_extended, Condition.compile_group_eq_compileAll, bind_assoc]
  rfl

/-! ## The restriction -/

/-- What one more clause is written behind. -/
def lead (s : Session) : List Char :=
  if s.whereText.isEmpty then [] else s.whereText ++ " AND ".toList

theorem whereText_extended (s : Session) {clauses : List Clause} (names : Names)
    (hne : clauses ≠ []) :
    (s.extended clauses names).whereText = s.lead ++ Clause.textAll .and clauses := by
  by_cases hempty : s.clauses = []
  · simp [whereText, extended, lead, hempty, Clause.textAll]
  · have htext : Clause.textAll .and s.clauses ≠ [] := by
      rwa [ne_eq, Clause.textAll_eq_nil_iff]
    simp [whereText, extended, lead, htext, Clause.textAll_append hempty hne, Clause.joint]

/-- **A conjunction is accepted as its parts are.** To accept two conditions joined by "and" is to
accept one and then the other: both ways succeed, or both fail for the same reason. If they succeed,
they end with the same aliases and parameters, and the clauses that they add behind the same text
are the same up to one pair of parentheses. -/
theorem accept_and (s : Session) (a b : Condition) :
    ((∃ v, s.accept (.group .and a b []) = .ok v) ↔
      ∃ t u, s.accept a = .ok t ∧ t.accept b = .ok u) ∧
    (∀ e, s.accept (.group .and a b []) = .error e ↔
      (s.accept a >>= fun t => t.accept b) = .error e) ∧
    ∀ t u v, s.accept a = .ok t → t.accept b = .ok u → s.accept (.group .and a b []) = .ok v →
      v.names.aliases = u.names.aliases ∧ v.names.parameters = u.names.parameters ∧
      ∃ ca cb : List Char, t.whereText = s.lead ++ ca ∧
        u.whereText = s.lead ++ ca ++ " AND ".toList ++ cb ∧
        v.whereText = s.lead ++ '(' :: ca ++ " AND ".toList ++ cb ++ [')'] := by
  have hturn : (s.accept a >>= fun t => t.accept b) =
      Condition.compileAll s.scope [a, b] s.names >>= fun found =>
        .ok (s.extended found.1 found.2) := by
    rw [← foldlM_accept]
    simp
  have halike : ((∃ v, s.accept (.group .and a b []) = .ok v) ↔
        ∃ u, (s.accept a >>= fun t => t.accept b) = .ok u) ∧
      ∀ e, s.accept (.group .and a b []) = .error e ↔
        (s.accept a >>= fun t => t.accept b) = .error e := by
    rw [hturn, accept_group]
    cases Condition.compileAll s.scope [a, b] s.names with
    | error e => simp
    | ok found => simp
  have hsteps : (∃ u, (s.accept a >>= fun t => t.accept b) = .ok u) ↔
      ∃ t u, s.accept a = .ok t ∧ t.accept b = .ok u := by
    simp only [bind_eq_ok_iff]
    exact exists_comm
  refine ⟨halike.1.trans hsteps, halike.2, ?_⟩
  intro t u v ht hu hv
  obtain ⟨ca, names₁, hca, rfl⟩ := accept_eq_ok_iff.1 ht
  obtain ⟨cb, names₂, hcb, rfl⟩ := accept_eq_ok_iff.1 hu
  have hall : Condition.compileAll s.scope [a, b] s.names = .ok ([ca, cb], names₂) := by
    simp [Condition.compileAll_cons, Condition.compileAll_nil, hca, hcb, pure, Except.pure]
  rw [accept_group, hall] at hv
  cases hv
  have htext := s.whereText_extended names₂ (List.cons_ne_nil ca [cb])
  refine ⟨rfl, rfl, ca.text, cb.text, s.whereText_extended names₁ (List.cons_ne_nil ca []), ?_, ?_⟩
  · simpa [extended, Clause.textAll, Clause.joint] using htext
  · rw [s.whereText_extended names₂ (List.cons_ne_nil _ [])]
    simp [Clause.textAll, Clause.text, Clause.joint]

/-- Departments with an employee who works part time, or with one who does not. -/
def partTimers (isPartTime : Bool) : Condition :=
  .having "employees" (.simple "isPartTime" .eq (some (.boolean isPartTime)))

/-- Both members of the group need an alias and a parameter, behind a filter that has one of each.
-/
theorem accept_and_partTimers : ∃ catalog r s t u v,
    Catalog.build Example.company = .ok catalog ∧ Session.start catalog "Department" = .ok r ∧
    r.accept (partTimers true) = .ok s ∧ s.accept (partTimers true) = .ok t ∧
    t.accept (partTimers false) = .ok u ∧
    s.accept (.group .and (partTimers true) (partTimers false) []) = .ok v ∧
    v.names.aliases = u.names.aliases ∧ v.names.parameters = u.names.parameters ∧
    u.names.parameters.map Prod.fst = ["isPartTime_0", "isPartTime_1", "isPartTime_2"] ∧
    ∃ ca cb : List Char, t.whereText = s.whereText ++ " AND ".toList ++ ca ∧
      u.whereText = s.whereText ++ " AND ".toList ++ ca ++ " AND ".toList ++ cb ∧
      v.whereText =
        s.whereText ++ " AND ".toList ++ '(' :: ca ++ " AND ".toList ++ cb ++ [')'] := by
  have hrun : ((Catalog.build Example.company).toOption.any fun catalog =>
      (Session.start catalog "Department").toOption.any fun r =>
        (r.accept (partTimers true)).toOption.any fun s =>
          (s.accept (partTimers true)).toOption.any fun t =>
            (t.accept (partTimers false)).toOption.any fun u =>
              decide (s.whereText ≠ [] ∧ u.names.parameters.map Prod.fst =
                ["isPartTime_0", "isPartTime_1", "isPartTime_2"])) = true := by decide +kernel
  obtain ⟨catalog, hbuild, hrun⟩ := exists_ok_of_any hrun
  obtain ⟨r, hstart, hrun⟩ := exists_ok_of_any hrun
  obtain ⟨s, hs, hrun⟩ := exists_ok_of_any hrun
  obtain ⟨t, ht, hrun⟩ := exists_ok_of_any hrun
  obtain ⟨u, hu, hrun⟩ := exists_ok_of_any hrun
  obtain ⟨htext, hparameters⟩ := decide_eq_true_iff.1 hrun
  obtain ⟨hsucceeds, -, hagree⟩ := accept_and s (partTimers true) (partTimers false)
  obtain ⟨v, hv⟩ := hsucceeds.2 ⟨t, u, ht, hu⟩
  obtain ⟨haliases, hbound, ca, cb, hca, hcb, hboth⟩ := hagree t u v ht hu hv
  have hlead : s.lead = s.whereText ++ " AND ".toList := by simp [lead, htext]
  rw [hlead] at hca hcb hboth
  exact ⟨catalog, r, s, t, u, v, hbuild, hstart, hs, ht, hu, hv, haliases, hbound, hparameters, ca,
    cb, hca, hcb, hboth⟩

end Session

end FilterQuery
