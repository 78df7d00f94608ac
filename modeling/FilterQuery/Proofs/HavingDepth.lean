import FilterQuery.Proofs.SessionRun

set_option autoImplicit false

/-! # The limit on nested subqueries

A condition on the members of a collection opens a subquery, and the options say how many of them
may stand inside each other. `Condition.havingDepth` is how many do. The limit is checked at each of
them against a counter in the register of names, before anything else is looked at.

Nothing but that check knows the limit. So a condition that compiles under one limit gives the same
under every limit that its depth is within, and under any other the check is what refuses it: that
is what `within` says and `Condition.compile_withLimit` proves. Each function of the compiler needs
one lemma for it, which says that its outcome does not depend on the limit or that it starts with
the check. -/

namespace FilterQuery

/-! ## Depth -/

namespace Condition

mutual

/-- How many conditions on members stand inside each other. A function over members stands for one
more, which has nothing inside. -/
def havingDepth : Condition → Nat
  | .simple .. | .oneOf .. | .noneOf .. => 0
  | .not c => c.havingDepth
  | .group _ first second more =>
    max first.havingDepth (max second.havingDepth (havingDepthAll more))
  | .having _ sub => sub.havingDepth + 1
  | .aggregate .. => 1

/-- The largest depth of several conditions. -/
def havingDepthAll : List Condition → Nat
  | [] => 0
  | c :: cs => max c.havingDepth (havingDepthAll cs)

end

end Condition

/-! ## Limits -/

/-- The result of a computation that goes down to a depth, under a limit. -/
def within {α : Type} (limit depth : Nat) (result : α) : Compile α :=
  if depth ≤ limit then .ok result else refuse (.nestingNotAllowed limit)

section

variable {α β : Type} {limit depth depth' : Nat} {a : α} {b : β} {f : α → Compile β}

theorem within_of_le (h : depth ≤ limit) : within limit depth a = .ok a := if_pos h

theorem within_of_lt (h : limit < depth) :
    within limit depth a = refuse (.nestingNotAllowed limit) := if_neg (Nat.not_le.2 h)

theorem le_of_within_eq_ok {a' : α} (h : within limit depth a = .ok a') : depth ≤ limit := by
  unfold within at h
  split at h
  · next hle => exact hle
  · cases h

/-- Steps in a row go down as far as the deeper of the two. -/
theorem within_bind (h : f a = within limit depth' b) :
    within limit depth a >>= f = within limit (max depth depth') b := by
  by_cases hdepth : depth ≤ limit
  · rw [within_of_le hdepth]
    show f a = _
    rw [h]
    simp [within, hdepth]
  · have hmax : limit < max depth depth' := lt_max_of_lt_left (Nat.not_le.1 hdepth)
    rw [within_of_lt (Nat.not_le.1 hdepth), within_of_lt hmax]
    rfl

theorem within_bind_ok (h : f a = .ok b) :
    within limit depth a >>= f = within limit depth b := by
  rw [within_bind (h.trans (within_of_le (Nat.zero_le limit)).symm), Nat.max_zero]

/-- What starts with the check and succeeds under one limit. -/
theorem eq_within_of_eq_ok {x : Nat → Compile α} {rest : Compile α} {m : Nat}
    (hx : ∀ limit, x limit = within limit depth () >>= fun _ => rest) (h : x m = .ok a)
    (limit : Nat) : x limit = within limit depth a := by
  rw [hx m] at h
  obtain ⟨_, -, hrest⟩ := bind_eq_ok_iff.1 h
  rw [hx limit]
  exact within_bind_ok hrest

end

namespace Scope

variable {s : Scope} {names names' : Names} {clause : Clause} {field : String} {op : Operator}

/-- The scope with another limit. -/
def withLimit (s : Scope) (limit : Nat) : Scope :=
  { s with options := { s.options with maxHavingDepth := limit } }

/-! ### Functions that do not know the limit -/

theorem firstCollection_withLimit (s : Scope) (limit : Nat) (field : String)
    (before segments : List String) :
    (s.withLimit limit).firstCollection field before segments =
      s.firstCollection field before segments := by
  induction segments generalizing before with
  | nil => rfl
  | cons segment rest ih =>
    rw [firstCollection, firstCollection]
    simp only [ih]
    rfl

theorem checkRest_withLimit (s : Scope) (limit : Nat) (field type : String) (rest : List String) :
    (s.withLimit limit).checkRest field type rest = s.checkRest field type rest := by
  induction rest generalizing type with
  | nil => rfl
  | cons segment rest ih =>
    rw [checkRest, checkRest]
    simp only [ih]
    rfl

theorem hop_withLimit (s : Scope) (limit : Nat) (field : String) :
    (s.withLimit limit).hop field = s.hop field := by
  unfold hop
  simp only [firstCollection_withLimit, checkRest_withLimit]
  rfl

/-! ### Functions that start with the check -/

theorem checkDepth_withLimit (s : Scope) (limit : Nat) (names : Names) :
    (s.withLimit limit).checkDepth names = within limit (names.depth + 1) () := by
  unfold checkDepth within
  by_cases h : names.depth + 1 ≤ limit
  · rw [if_pos h]
    exact if_neg (Nat.not_lt.2 h)
  · rw [if_neg h]
    exact if_pos (Nat.not_le.1 h)

/-- The limit that has just room for one more level. -/
theorem checkDepth_withLimit_succ (s : Scope) (names : Names) :
    (s.withLimit (names.depth + 1)).checkDepth names = .ok () := by
  rw [checkDepth_withLimit, within_of_le (Nat.le_refl _)]

theorem havingHop_withLimit (s : Scope) (limit : Nat) (field : String) (names : Names) :
    (s.withLimit limit).havingHop field names = within limit (names.depth + 1) () >>= fun _ =>
      (s.withLimit (names.depth + 1)).havingHop field names := by
  unfold havingHop
  rw [checkDepth_withLimit_succ, checkDepth_withLimit, hop_withLimit, hop_withLimit]
  rfl

theorem aggregate_withLimit (s : Scope) (limit : Nat) (field : String) (function : Aggregate)
    (op : Operator) (bound : Value) (names : Names) :
    (s.withLimit limit).aggregate field function op bound names =
      within limit (names.depth + 1) () >>= fun _ =>
        (s.withLimit (names.depth + 1)).aggregate field function op bound names := by
  unfold aggregate
  rw [checkDepth_withLimit_succ, checkDepth_withLimit, hop_withLimit, hop_withLimit]
  rfl

end Scope

namespace Condition

mutual

/-- A compilation comes back to the level that it started on. -/
theorem depth_of_compile {s : Scope} {names names' : Names} {clause : Clause} :
    ∀ {c : Condition}, c.compile s names = .ok (clause, names') → names'.depth = names.depth
  | .simple field op value, h => by
    obtain ⟨_, rfl⟩ := Scope.names_of_simple (compile_simple.symm.trans h)
    rfl
  | .oneOf field values, h => by
    obtain ⟨_, _, -, rfl, rfl⟩ := compile_oneOf_eq_ok h
    rfl
  | .noneOf field values, h => by
    obtain ⟨_, _, -, rfl, rfl⟩ := compile_noneOf_eq_ok h
    rfl
  | .not c, h => by
    obtain ⟨inner, hinner, rfl⟩ := compile_not_eq_ok h
    exact depth_of_compile hinner
  | .group connective first second more, h => by
    obtain ⟨a, b, rest, names₁, names₂, ha, hb, hrest, rfl⟩ := compile_group_eq_ok h
    exact (depth_of_compileAll hrest).trans ((depth_of_compile hb).trans (depth_of_compile ha))
  | .having field sub, h => by
    obtain ⟨hop, restriction, names₁, -, -, hsub, -, rfl⟩ := compile_having_eq_ok h
    show names₁.depth - 1 = names.depth
    rw [depth_of_compile hsub]
    rfl
  | .aggregate field function op bound, h => by
    obtain ⟨hop, _, _, _, -, -, -, -, -, -, rfl⟩ :=
      Scope.aggregate_eq_ok (compile_aggregate.symm.trans h)
    rfl

theorem depth_of_compileAll {s : Scope} {names names' : Names} {clauses : List Clause} :
    ∀ {cs : List Condition}, compileAll s cs names = .ok (clauses, names') →
      names'.depth = names.depth
  | [], h => by
    cases compileAll_nil.symm.trans h
    rfl
  | c :: cs, h => by
    obtain ⟨a, rest, names₁, ha, hrest, rfl⟩ := compileAll_cons_eq_ok h
    exact (depth_of_compileAll hrest).trans (depth_of_compile ha)

end

/-! ## Conditions under other limits -/

mutual

/-- What a condition that compiles under one limit gives under another. -/
theorem compile_withLimit {s : Scope} {names names' : Names} {m limit : Nat} {clause : Clause} :
    ∀ {c : Condition}, c.compile (s.withLimit m) names = .ok (clause, names') →
      names.depth ≤ limit →
      c.compile (s.withLimit limit) names =
        within limit (names.depth + c.havingDepth) (clause, names')
  | .simple field op value, h, hdepth => by
    rw [compile_simple] at h ⊢
    exact h.trans (within_of_le hdepth).symm
  | .oneOf field values, h, hdepth => by
    rw [compile_oneOf] at h ⊢
    exact h.trans (within_of_le hdepth).symm
  | .noneOf field values, h, hdepth => by
    rw [compile_noneOf] at h ⊢
    exact h.trans (within_of_le hdepth).symm
  | .not c, h, hdepth => by
    obtain ⟨inner, hinner, rfl⟩ := compile_not_eq_ok h
    rw [compile_not, compile_withLimit hinner hdepth]
    exact within_bind_ok rfl
  | .group connective first second more, h, hdepth => by
    obtain ⟨a, b, rest, names₁, names₂, ha, hb, hrest, rfl⟩ := compile_group_eq_ok h
    -- The counter is back where it was, so the depths of all parts are counted from there.
    have hdepth₁ := depth_of_compile ha
    have hdepth₂ := (depth_of_compile hb).trans hdepth₁
    have hsecond := compile_withLimit hb (hdepth₁.trans_le hdepth)
    have hmore := compileAll_withLimit hrest (hdepth₂.trans_le hdepth)
    rw [hdepth₁] at hsecond
    rw [hdepth₂] at hmore
    rw [compile_group, compile_withLimit ha hdepth, havingDepth, ← Nat.add_max_add_left,
      ← Nat.add_max_add_left]
    refine within_bind ?_
    show second.compile _ names₁ >>= _ = _
    rw [hsecond]
    refine within_bind ?_
    show compileAll _ more names₂ >>= _ = _
    rw [hmore]
    exact within_bind_ok rfl
  | .having field sub, h, hdepth => by
    rw [compile_having] at h
    obtain ⟨hop, hhop, h⟩ := bind_eq_ok_iff.1 h
    obtain ⟨⟨restriction, names₁⟩, hsub, h⟩ := bind_eq_ok_iff.1 h
    cases h
    rw [compile_having, eq_within_of_eq_ok (s.havingHop_withLimit · field names) hhop limit,
      havingDepth]
    by_cases hroom : names.depth + 1 ≤ limit
    · have hinner := compile_withLimit (s := s.inner hop.target _) hsub hroom
      have hlevel : names.depth + (sub.havingDepth + 1) = names.depth + 1 + sub.havingDepth := by
        omega
      rw [within_of_le hroom, hlevel]
      show sub.compile ((s.inner hop.target _).withLimit limit) _ >>= _ = _
      rw [hinner]
      exact within_bind_ok rfl
    · -- The check comes first, so the members are not looked at.
      rw [within_of_lt (by omega), within_of_lt (by omega)]
      rfl
  | .aggregate field function op bound, h, hdepth => by
    rw [compile_aggregate] at h ⊢
    exact eq_within_of_eq_ok (s.aggregate_withLimit · field function op bound names) h limit

theorem compileAll_withLimit {s : Scope} {names names' : Names} {m limit : Nat}
    {clauses : List Clause} :
    ∀ {cs : List Condition}, compileAll (s.withLimit m) cs names = .ok (clauses, names') →
      names.depth ≤ limit →
      compileAll (s.withLimit limit) cs names =
        within limit (names.depth + havingDepthAll cs) (clauses, names')
  | [], h, hdepth => by
    rw [compileAll_nil] at h ⊢
    exact h.trans (within_of_le hdepth).symm
  | c :: cs, h, hdepth => by
    obtain ⟨a, rest, names₁, ha, hrest, rfl⟩ := compileAll_cons_eq_ok h
    have hdepth₁ := depth_of_compile ha
    have hmore := compileAll_withLimit hrest (hdepth₁.trans_le hdepth)
    rw [hdepth₁] at hmore
    rw [compileAll_cons, compile_withLimit ha hdepth, havingDepthAll, ← Nat.add_max_add_left]
    refine within_bind ?_
    show compileAll _ cs names₁ >>= _ = _
    rw [hmore]
    exact within_bind_ok rfl

end

end Condition

/-! ## Sessions -/

namespace Session

variable {catalog : Catalog} {s : Session} {condition : Condition}

/-- The session with another limit, and otherwise the same options. -/
def withMaxHavingDepth (s : Session) (limit : Nat) : Session :=
  s.withOptions { s.scope.options with maxHavingDepth := limit }

/-- Between the steps of a session no subquery is open. -/
theorem Run.depth_eq_zero {history : List Acceptance} (h : Run catalog history s) :
    s.names.depth = 0 := by
  induction h with
  | start h =>
    obtain ⟨-, rfl⟩ := start_cases h
    rfl
  | withAlias h aliasName ih => exact ih
  | withRename h rename ih => exact ih
  | withOptions h options ih => exact ih
  | orderBy h sorting ht ih =>
    obtain ⟨ordering, rfl⟩ := orderBy_eq_ok ht
    exact ih
  | accept h condition ht ih =>
    obtain ⟨clause, names, hcompile, rfl⟩ := accept_eq_ok_iff.1 ht
    exact (Condition.depth_of_compile hcompile).trans ih

/-- What a filter that is accepted under one limit gives under another. -/
theorem accept_eq_within {t : Session} {m : Nat} (hzero : s.names.depth = 0)
    (h : (s.withMaxHavingDepth m).accept condition = .ok t) (limit : Nat) :
    (s.withMaxHavingDepth limit).accept condition =
      within limit condition.havingDepth (t.withMaxHavingDepth limit) := by
  obtain ⟨clause, names, hcompile, rfl⟩ := accept_eq_ok_iff.1 h
  replace hcompile : condition.compile (s.scope.withLimit m) s.names = .ok (clause, names) :=
    hcompile
  rw [accept_eq]
  show condition.compile (s.scope.withLimit limit) s.names >>= _ = _
  rw [Condition.compile_withLimit hcompile (hzero.trans_le limit.zero_le), hzero, Nat.zero_add]
  exact within_bind_ok rfl

/-- **The limit is exact.** A filter that is accepted under some limit is no deeper than that. It
gives the same under every limit that it is within, and it is refused for its nesting under every
other. No subquery is left open behind a filter, accepted or not. -/
theorem accept_withMaxHavingDepth {entity : String}
    (hstart : Session.start catalog entity = .ok s) (steps : List Step) (condition : Condition) :
    let t := s.afterAll steps
    (∀ m u, (t.withMaxHavingDepth m).accept condition = .ok u →
      condition.havingDepth ≤ m ∧
      (∀ limit, condition.havingDepth ≤ limit →
        ∃ v, (t.withMaxHavingDepth limit).accept condition = .ok v ∧
          v.whereText = u.whereText ∧ v.names.aliases = u.names.aliases ∧
          v.names.parameters = u.names.parameters) ∧
      ∀ limit < condition.havingDepth, (t.withMaxHavingDepth limit).accept condition =
        refuse (.nestingNotAllowed limit)) ∧
    (t.after (.accept condition)).names.depth = 0 := by
  intro t
  have hrun := (Run.start hstart).afterAll steps
  refine ⟨fun m u hu => ?_, (hrun.after (.accept condition)).depth_eq_zero⟩
  have hwithin := accept_eq_within hrun.depth_eq_zero hu
  refine ⟨le_of_within_eq_ok ((hwithin m).symm.trans hu), fun limit hlimit => ?_,
    fun limit hlimit => ?_⟩
  · exact ⟨u.withMaxHavingDepth limit, by rw [hwithin, within_of_le hlimit], rfl, rfl, rfl⟩
  · rw [hwithin, within_of_lt hlimit]

/-- Departments where someone's report works on two projects, or that pay well. -/
def busyDepartments : Condition :=
  .group .or
    (.having "employees" (.group .and (.simple "isPartTime" .eq (some (.boolean true)))
      (.having "reports" (.aggregate "projects" .count .gte (.long 2))) []))
    (.aggregate "employees.salary" .avg .gt (.long 1000)) []

/-- One of the three levels is that of a function. The filter comes behind one that is accepted and
one that fails in a subquery. -/
theorem accept_busyDepartments : ∃ catalog s u,
    Catalog.build Example.company = .ok catalog ∧ Session.start catalog "Department" = .ok s ∧
    let t := s.afterAll [.accept (.having "employees" (.simple "lastName" .notNull none)),
      .accept (.having "employees" (.simple "nickname" .notNull none))]
    (t.withMaxHavingDepth 5).accept busyDepartments = .ok u ∧ busyDepartments.havingDepth = 3 ∧
      (∃ v, (t.withMaxHavingDepth 3).accept busyDepartments = .ok v ∧
        v.whereText = u.whereText ∧ v.names.aliases = u.names.aliases ∧
        v.names.parameters = u.names.parameters) ∧
      (t.withMaxHavingDepth 2).accept busyDepartments = refuse (.nestingNotAllowed 2) ∧
      (t.after (.accept busyDepartments)).names.depth = 0 := by
  let steps : List Step := [.accept (.having "employees" (.simple "lastName" .notNull none)),
    .accept (.having "employees" (.simple "nickname" .notNull none))]
  have hrun : ((Catalog.build Example.company).toOption.any fun catalog =>
      (Session.start catalog "Department").toOption.any fun s =>
        (((s.afterAll steps).withMaxHavingDepth 5).accept busyDepartments).toOption.any
          fun _ => true) = true := by decide +kernel
  obtain ⟨catalog, hbuild, hrun⟩ := exists_ok_of_any hrun
  obtain ⟨s, hstart, hrun⟩ := exists_ok_of_any hrun
  obtain ⟨u, hu, -⟩ := exists_ok_of_any hrun
  have hdepth : busyDepartments.havingDepth = 3 := by decide
  obtain ⟨hlimits, hzero⟩ := accept_withMaxHavingDepth hstart steps busyDepartments
  obtain ⟨-, hdeep, hflat⟩ := hlimits 5 u hu
  exact ⟨catalog, s, u, hbuild, hstart, hu, hdepth, hdeep 3 hdepth.le, hflat 2 (by decide), hzero⟩

end Session

end FilterQuery
