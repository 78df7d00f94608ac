import FilterQuery.Proofs.LiteralText

set_option autoImplicit false

/-! # The pattern of a text

Under `like` a text is a pattern. Sign by sign (`Sign.pattern`), a plain wildcard would stand for
other characters and everything else for itself. Resolving leaves no more of a run of equal
wildcards than its length, though, with the escaped ones counted twice. So it is the run that is
translated (`runPattern`): a plain wildcard alone is one, and in any other run all wildcards stand
for themselves, two plain ones for one character.

The two agree exactly on the texts in which no plain wildcard stands beside an equal one (`Apart`):
elsewhere a wildcard of the pattern is missing, and counting them tells. -/

namespace FilterQuery

open FilterQuery.Text

variable {zones : Zone.Database}

namespace Escape

/-! ## Sign by sign and run by run -/

/-- The wildcard of a pattern. -/
def patternWildcard (c : Char) : Char := if c = '*' then '%' else '_'

/-- The pattern of a sign by itself. -/
def Sign.pattern : Sign → List Char
  | .escaped c _ => patternChar c
  | .plain c => if isWildcard c then [patternWildcard c] else patternChar c

/-- The pattern of a run of wildcards of the same character. -/
def runPattern (c : Char) (run : List Sign) : List Char :=
  if run = [.plain c] then [patternWildcard c]
  else
    let escaped := run.countP Sign.isEscapedWildcard
    let plain := run.length - escaped
    List.replicate (escaped + (plain + 1) / 2) c

/-- The pattern of a row of signs, with the equal wildcards that stand side by side taken
together. -/
def patternByRuns : List Sign → List Char
  | [] => []
  | s :: rest =>
    if isWildcard s.char then
      runPattern s.char (s :: rest.takeWhile (·.char == s.char)) ++
        patternByRuns (rest.dropWhile (·.char == s.char))
    else patternChar s.char ++ patternByRuns rest
termination_by row => row.length
decreasing_by
  · exact Nat.lt_succ_of_le (List.dropWhile_sublist _).length_le
  · exact Nat.lt_succ_self _

variable {s : Sign} {row rest run : List Sign} {c : Char}

/-- Signs of the same wildcard. -/
def IsRun (c : Char) (run : List Sign) : Prop := isWildcard c = true ∧ ∀ s ∈ run, s.char = c

/-- A row is taken apart into the runs of its wildcards and its other signs. -/
theorem run_induction {P : List Sign → Prop} (nil : P [])
    (run : ∀ c run rest, IsRun c run → run ≠ [] → (∀ t ∈ rest.head?, t.char ≠ c) → P rest →
      P (run ++ rest))
    (other : ∀ s rest, isWildcard s.char = false → P rest → P (s :: rest)) (row : List Sign) :
    P row := by
  fun_induction patternByRuns row with
  | case1 => exact nil
  | case2 s rest hs ih =>
    have hrun : IsRun s.char (s :: rest.takeWhile (·.char == s.char)) := by
      refine ⟨hs, List.forall_mem_cons.2 ⟨rfl, fun t ht => ?_⟩⟩
      simpa using List.all_eq_true.1 List.all_takeWhile t ht
    have hrest : ∀ t ∈ (rest.dropWhile (·.char == s.char)).head?, t.char ≠ s.char := by
      intro t ht
      have hnot := List.head?_dropWhile_not (fun t : Sign => t.char == s.char) rest
      rw [ht] at hnot
      simpa using hnot
    have hrow := run _ _ _ hrun (by simp) hrest ih
    rwa [List.cons_append, List.takeWhile_append_dropWhile] at hrow
  | case3 s rest hs ih => exact other s rest (by simpa using hs) ih

theorem patternByRuns_run_append (h : IsRun c run) (hne : run ≠ [])
    (hrest : ∀ t ∈ rest.head?, t.char ≠ c) :
    patternByRuns (run ++ rest) = runPattern c run ++ patternByRuns rest := by
  obtain ⟨s, run, rfl⟩ := List.exists_cons_of_ne_nil hne
  obtain ⟨hs, hrun⟩ := List.forall_mem_cons.1 h.2
  obtain ⟨htake, hdrop⟩ := @takeWhile_append_eq _ (·.char == c) run rest
    (fun t ht => by simpa using hrun t ht) fun t ht => by simpa using hrest t ht
  rw [List.cons_append, patternByRuns, hs, if_pos h.1, htake, hdrop]

theorem patternByRuns_cons (hs : isWildcard s.char = false) :
    patternByRuns (s :: rest) = patternChar s.char ++ patternByRuns rest := by
  rw [patternByRuns, if_neg (by simp [hs])]

/-- A run is resolved to as many characters as it has signs, and one more for each escaped one. -/
theorem IsRun.flatMap_resolved (h : IsRun c run) :
    run.flatMap Sign.resolved =
      List.replicate (run.length + run.countP Sign.isEscapedWildcard) c := by
  obtain ⟨hc, hrun⟩ := h
  induction run with
  | nil => rfl
  | cons s run ih =>
    have hs := hrun s List.mem_cons_self
    rw [List.flatMap_cons, ih fun t ht => hrun t (List.mem_cons_of_mem _ ht)]
    cases s with
    | plain d =>
      obtain rfl : d = c := hs
      simp [Sign.resolved, Sign.isEscapedWildcard, List.replicate_succ, Nat.add_right_comm]
    | escaped d hd =>
      obtain rfl : d = c := hs
      rw [Sign.resolved_wildcard hc]
      simp [Sign.isEscapedWildcard, hc, List.replicate_succ, Nat.add_right_comm, ← Nat.add_assoc]

theorem head?_flatMap_resolved_ne (h : ∀ s ∈ row.head?, s.char ≠ c) :
    (row.flatMap Sign.resolved).head? ≠ some c := by
  cases row with
  | nil => simp
  | cons s row =>
    have hs := h s rfl
    cases s with
    | plain d => simpa [Sign.resolved, Sign.char] using hs
    | escaped d hd =>
      simp only [List.flatMap_cons, Sign.resolved, resolved]
      split <;> simpa [Sign.char] using hs

end Escape

/-- A row of equal wildcards is read up to its end. -/
theorem likePattern_replicate_append {c : Char} {n : Nat} {rest : List Char}
    (hc : Escape.isWildcard c = true) (hn : n ≠ 0) (h : rest.head? ≠ some c) :
    likePattern (List.replicate n c ++ rest) = patternRow c n ++ likePattern rest := by
  obtain ⟨n, rfl⟩ := Nat.exists_eq_succ_of_ne_zero hn
  obtain ⟨htake, hdrop⟩ := @takeWhile_append_eq _ (· == c) (List.replicate n c) rest
    (by simp) fun d hd => by simpa using fun heq : d = c => h (heq ▸ hd)
  rw [List.replicate_succ, List.cons_append, likePattern, if_pos hc, htake, hdrop,
    List.length_replicate]

namespace Escape

variable {s : Sign} {row rest run : List Sign} {c : Char}

/-- A sign of a run is escaped, or a plain wildcard. -/
theorem IsRun.eq_plain (h : IsRun c run) (hs : s ∈ run) (hplain : s.isEscapedWildcard = false) :
    s = .plain c := by
  have hchar := h.2 s hs
  cases s with
  | plain d => exact congrArg _ hchar
  | escaped d hd =>
    obtain rfl : d = c := hchar
    rw [Sign.isEscapedWildcard, h.1] at hplain
    cases hplain

theorem IsRun.patternRow_eq (h : IsRun c run) (hne : run ≠ []) :
    patternRow c (run.length + run.countP Sign.isEscapedWildcard) = runPattern c run := by
  have hle : run.countP Sign.isEscapedWildcard ≤ run.length := List.countP_le_length
  have hpos : 0 < run.length := List.length_pos_iff.2 hne
  rw [patternRow, runPattern]
  by_cases hone : run = [.plain c]
  · rw [if_pos hone, hone]
    rfl
  · have hlength : run.length + run.countP Sign.isEscapedWildcard ≠ 1 := by
      intro hlength
      obtain ⟨s, rfl⟩ := List.length_eq_one_iff.1 (by omega : run.length = 1)
      have hzero : [s].countP Sign.isEscapedWildcard = 0 := by omega
      have hplain : s.isEscapedWildcard = false := by simpa using hzero
      exact hone (congrArg (fun s => [s]) (h.eq_plain List.mem_cons_self hplain))
    rw [if_neg hlength, if_neg hone]
    congr 1
    omega

/-- The pattern of resolved signs goes by runs. -/
theorem likePattern_flatMap_resolved (row : List Sign) :
    likePattern (row.flatMap Sign.resolved) = patternByRuns row := by
  induction row using run_induction with
  | nil => simp [likePattern, patternByRuns]
  | run c run rest hrun hne hrest ih =>
    have hlength : run.length + run.countP Sign.isEscapedWildcard ≠ 0 := by
      have := List.length_pos_iff.2 hne
      omega
    rw [List.flatMap_append, hrun.flatMap_resolved, patternByRuns_run_append hrun hne hrest, ← ih,
      likePattern_replicate_append hrun.1 hlength (head?_flatMap_resolved_ne hrest),
      hrun.patternRow_eq hne]
  | other s rest hs ih =>
    have hresolved : s.resolved = [s.char] :=
      s.resolved_eq_iff.2 (Bool.eq_false_iff.2 fun h => by simp [s.isWildcard_char h] at hs)
    rw [List.flatMap_cons, hresolved, List.singleton_append, likePattern, if_neg (by simp [hs]), ih,
      patternByRuns_cons hs]

/-! ## Where the two agree -/

/-- Equal wildcards that stand side by side are both escaped. -/
def Apart (row : List Sign) : Prop :=
  row.IsChain fun a b => a.char = b.char → isWildcard a.char = true →
    a.isEscapedWildcard = true ∧ b.isEscapedWildcard = true

instance : DecidablePred Apart := fun row => List.instDecidableIsChainOfDecidableRel row

/-- A run that is a plain wildcard alone, or of which all is escaped. -/
def Uniform (c : Char) (run : List Sign) : Prop :=
  run = [.plain c] ∨ ∀ s ∈ run, s.isEscapedWildcard = true

theorem IsRun.apart_iff (h : IsRun c run) (hne : run ≠ []) : Apart run ↔ Uniform c run := by
  induction run with
  | nil => exact absurd rfl hne
  | cons s run ih =>
    have hs : s ∈ s :: run := List.mem_cons_self
    cases run with
    | nil =>
      refine iff_of_true (List.IsChain.singleton s) ?_
      by_cases hescaped : s.isEscapedWildcard = true
      · exact .inr (by simpa using hescaped)
      · rw [h.eq_plain hs (by simpa using hescaped)]
        exact .inl rfl
    | cons t run =>
      have ht : t ∈ s :: t :: run := List.mem_cons_of_mem _ List.mem_cons_self
      have hrest : IsRun c (t :: run) := ⟨h.1, fun u hu => h.2 u (List.mem_cons_of_mem _ hu)⟩
      rw [Apart, List.isChain_cons_cons]
      constructor
      · rintro ⟨hpair, hchain⟩
        have hchar : s.char = t.char := (h.2 s hs).trans (h.2 t ht).symm
        obtain ⟨hs', ht'⟩ := hpair hchar (by rw [h.2 s hs, h.1])
        rcases (ih hrest (by simp)).1 hchain with hone | hall
        · rw [(List.cons.inj hone).1] at ht'
          cases ht'
        · exact .inr (List.forall_mem_cons.2 ⟨hs', hall⟩)
      · rintro (hone | hall)
        · cases (List.cons.inj hone).2
        · have hall' := List.forall_mem_cons.1 hall
          exact ⟨fun _ _ => ⟨hall'.1, hall'.2 t List.mem_cons_self⟩,
            (ih hrest (by simp)).2 (.inr hall'.2)⟩

theorem patternChar_of_isWildcard (hc : isWildcard c = true) : patternChar c = [c] := by
  rcases List.mem_pair.1 (mem_pair_of_isWildcard hc) with rfl | rfl <;> decide

theorem IsRun.pattern_escaped (h : IsRun c run) (hs : s ∈ run)
    (hescaped : s.isEscapedWildcard = true) : s.pattern = [c] := by
  have hchar := h.2 s hs
  cases s with
  | plain d => cases hescaped
  | escaped d hd =>
    obtain rfl : d = c := hchar
    exact patternChar_of_isWildcard h.1

theorem Uniform.runPattern_eq (hrun : Uniform c run) (h : IsRun c run) :
    runPattern c run = run.flatMap Sign.pattern := by
  rcases hrun with rfl | hall
  · simp [runPattern, Sign.pattern, h.1]
  · have hone : run ≠ [.plain c] := by
      rintro rfl
      exact absurd (hall _ List.mem_cons_self) (by simp [Sign.isEscapedWildcard])
    have hpattern : run.flatMap Sign.pattern = run.map fun _ => c := by
      rw [List.map_eq_flatMap]
      exact List.flatMap_congr fun s hs => h.pattern_escaped hs (hall s hs)
    rw [runPattern, if_neg hone, hpattern, List.countP_eq_length.2 hall, List.map_const']
    simp

/-! Wherever the two differ, the pattern by runs has fewer wildcards. -/

/-- The wildcards of a pattern, and the characters that are escaped because they look like them. -/
def isPatternWildcard (c : Char) : Bool := c == '%' || c == '_'

theorem isPatternWildcard_patternWildcard (c : Char) :
    isPatternWildcard (patternWildcard c) = true := by
  unfold patternWildcard
  split <;> decide

theorem not_isPatternWildcard (hc : isWildcard c = true) : isPatternWildcard c = false := by
  rcases List.mem_pair.1 (mem_pair_of_isWildcard hc) with rfl | rfl <;> decide

theorem IsRun.countP_runPattern_le (h : IsRun c run) :
    (runPattern c run).countP isPatternWildcard ≤
        (run.flatMap Sign.pattern).countP isPatternWildcard ∧
      ((runPattern c run).countP isPatternWildcard =
        (run.flatMap Sign.pattern).countP isPatternWildcard → Uniform c run) := by
  by_cases hrun : Uniform c run
  · rw [hrun.runPattern_eq h]
    exact ⟨Nat.le_refl _, fun _ => hrun⟩
  · -- All characters of the pattern stand for themselves, and there is a plain wildcard.
    obtain ⟨hone, hplain⟩ := not_or.1 hrun
    have hzero : (runPattern c run).countP isPatternWildcard = 0 := by
      rw [runPattern, if_neg hone, List.countP_replicate, not_isPatternWildcard h.1]
      rfl
    obtain ⟨s, hs, hescaped⟩ := by simpa only [not_forall, exists_prop] using hplain
    obtain rfl := h.eq_plain hs (by simpa using hescaped)
    have hpos : 0 < (run.flatMap Sign.pattern).countP isPatternWildcard := by
      refine List.countP_pos_iff.2 ⟨patternWildcard c, List.mem_flatMap.2 ⟨_, hs, ?_⟩, ?_⟩
      · simp [Sign.pattern, h.1]
      · exact isPatternWildcard_patternWildcard c
    omega

theorem apart_run_append (h : IsRun c run) (hrest : ∀ t ∈ rest.head?, t.char ≠ c) :
    Apart (run ++ rest) ↔ Apart run ∧ Apart rest := by
  rw [Apart, List.isChain_append]
  refine and_congr_right fun _ => and_iff_left fun a ha b hb heq => ?_
  rw [h.2 a (List.mem_of_getLast? ha)] at heq
  exact absurd heq.symm (hrest b hb)

theorem apart_cons (hs : isWildcard s.char = false) : Apart (s :: rest) ↔ Apart rest := by
  rw [Apart, List.isChain_cons]
  exact and_iff_right fun t _ _ hwild => absurd hwild (by simp [hs])

theorem Sign.pattern_eq (hs : isWildcard s.char = false) : s.pattern = patternChar s.char := by
  cases s with
  | escaped c h => rfl
  | plain c => exact if_neg (by simpa [Sign.char] using hs)

theorem countP_patternByRuns_le (row : List Sign) :
    (patternByRuns row).countP isPatternWildcard ≤
        (row.flatMap Sign.pattern).countP isPatternWildcard ∧
      ((patternByRuns row).countP isPatternWildcard =
        (row.flatMap Sign.pattern).countP isPatternWildcard → Apart row) := by
  induction row using run_induction with
  | nil => exact ⟨by simp [patternByRuns], fun _ => List.IsChain.nil⟩
  | run c run rest hrun hne hrest ih =>
    obtain ⟨hle, heq⟩ := hrun.countP_runPattern_le
    rw [apart_run_append hrun hrest, patternByRuns_run_append hrun hne hrest, List.flatMap_append,
      List.countP_append, List.countP_append]
    refine ⟨Nat.add_le_add hle ih.1, fun h => ⟨?_, ih.2 (by omega)⟩⟩
    exact (hrun.apart_iff hne).2 (heq (by omega))
  | other s rest hs ih =>
    rw [apart_cons hs, patternByRuns_cons hs, List.flatMap_cons, Sign.pattern_eq hs,
      List.countP_append, List.countP_append]
    exact ⟨Nat.add_le_add_left ih.1 _, fun h => ih.2 (Nat.add_left_cancel h)⟩

/-- The pattern by runs is the pattern sign by sign exactly if no plain wildcard stands beside an
equal one. -/
theorem patternByRuns_eq_iff (row : List Sign) :
    patternByRuns row = row.flatMap Sign.pattern ↔ Apart row := by
  refine ⟨fun h => (countP_patternByRuns_le row).2 (congrArg _ h), fun h => ?_⟩
  induction row using run_induction with
  | nil => simp [patternByRuns]
  | run c run rest hrun hne hrest ih =>
    obtain ⟨hapart, hapart'⟩ := (apart_run_append hrun hrest).1 h
    rw [patternByRuns_run_append hrun hne hrest, List.flatMap_append, ih hapart',
      ((hrun.apart_iff hne).1 hapart).runPattern_eq hrun]
  | other s rest hs ih =>
    rw [patternByRuns_cons hs, List.flatMap_cons, Sign.pattern_eq hs, ih ((apart_cons hs).1 h)]

/-- A wildcard of a text, escaped or not, is still there in the signs that it is resolved to. -/
theorem hasWildcard_flatMap_resolved {cs : List Char} (h : hasWildcard cs = true) :
    hasWildcard ((signs cs).flatMap Sign.resolved) = true := by
  obtain ⟨c, hc, hwild⟩ := List.any_eq_true.1 h
  rw [← flatMap_written_signs cs] at hc
  obtain ⟨s, hs, hmem⟩ := List.mem_flatMap.1 hc
  have hresolved := mem_resolved_of_mem_written hmem (ne_mark_of_isWildcard hwild)
  exact List.any_eq_true.2 ⟨c, List.mem_flatMap.2 ⟨s, hs, hresolved⟩, hwild⟩

end Escape

/-! ## Patterns of the query -/

namespace Session

open Condition

variable {limits : Limits} {source raw text : String} {c : Condition} {row : List Lexeme}
  {s t : Session} {before after : List (Operator × Token)}

/-- **What a pattern means.** Wherever in a filter a field is compared under `like` with a bare text
that holds a wildcard and is read as it is written, the session writes its pattern by runs: a plain
wildcard alone as a wildcard, any other run of equal wildcards as one character for each escaped one
and one for every two plain ones, and all other signs as the characters that they denote. This is
the pattern of the text sign by sign if and only if no plain wildcard stands beside an equal one. -/
theorem writes_patternByRuns (hparse : parse limits source zones = .ok c)
    (hrow : lexemes source.toList = .ok row) (haccept : s.accept c = .ok t)
    (hplace : operands none (row.map Lexeme.token) =
      before ++ (.like, .literal raw false) :: after)
    (htext : Literal.coerce zones (trim raw.toList) false .like = .ok (.string text))
    (hwild : Escape.hasWildcard raw.toList = true) (hread : Escape.ReadAsWritten raw.toList) :
    Writes zones s t before after (Escape.patternByRuns (Escape.signs raw.toList)) ∧
      (Escape.patternByRuns (Escape.signs raw.toList) =
          (Escape.signs raw.toList).flatMap Escape.Sign.pattern ↔
        Escape.Apart (Escape.signs raw.toList)) := by
  refine ⟨?_, Escape.patternByRuns_eq_iff _⟩
  have htrim := trim_of_operands hrow hplace hread.getLast?_ne_space
  have hwrites := writes_bareText hparse hrow haccept hplace htext
  rwa [if_pos rfl, htrim, hread.resolve_eq, Escape.containing,
    if_pos (Escape.hasWildcard_flatMap_resolved hwild), Escape.likePattern_flatMap_resolved]
    at hwrites

/-- A run of both kinds, a wildcard of each kind, a run of escaped ones and the reserved characters,
behind a text of another comparison. -/
theorem writes_mixed_runs : ∃ catalog s c row t,
    let source := "firstName$eq:x$or:$not:lastName$like:a$**?b$?$?*_%"
    Catalog.build Example.company = .ok catalog ∧ Session.start catalog "Employee" = .ok s ∧
    parse {} source = .ok c ∧ lexemes source.toList = .ok row ∧ s.accept c = .ok t ∧
    operands none (row.map Lexeme.token) =
      [(.eq, .literal "x" false), (.like, .literal "a$**?b$?$?*_%" false)] ∧
    Writes Zone.known s t [(.eq, .literal "x" false)] [] "a**_b??%\\_\\%".toList ∧
    ¬ Escape.Apart (Escape.signs "a$**?b$?$?*_%".toList) := by
  have hrun : (Example.accepted? "Employee"
      "firstName$eq:x$or:$not:lastName$like:a$**?b$?$?*_%").isSome = true := by decide +kernel
  have hlexemes : lexemes "firstName$eq:x$or:$not:lastName$like:a$**?b$?$?*_%".toList =
      .ok [⟨.literal "firstName" false, 0, 9⟩, ⟨.operator "$eq:", 9, 13⟩,
        ⟨.literal "x" false, 13, 14⟩, ⟨.operator "$or:", 14, 18⟩, ⟨.operator "$not:", 18, 23⟩,
        ⟨.literal "lastName" false, 23, 31⟩, ⟨.operator "$like:", 31, 37⟩,
        ⟨.literal "a$**?b$?$?*_%" false, 37, 50⟩] := by decide +kernel
  obtain ⟨t, ht⟩ := Option.isSome_iff_exists.1 hrun
  obtain ⟨catalog, s, c, hcatalog, hs, hc, haccept⟩ := Example.exists_of_accepted? ht
  have htext : Literal.coerce Zone.known (trim "a$**?b$?$?*_%".toList) false .like =
      .ok (.string "a***?b????*_%") := by decide +kernel
  have hread : Escape.ReadAsWritten "a$**?b$?$?*_%".toList :=
    ⟨⟨by decide, by decide⟩, by decide⟩
  have hwrites := (@writes_patternByRuns _ _ _ _ _ _ _ _ _ [(.eq, .literal "x" false)] [] hc
    hlexemes haccept rfl htext (by decide) hread).1
  have hpattern : Escape.patternByRuns (Escape.signs "a$**?b$?$?*_%".toList) =
      "a**_b??%\\_\\%".toList := by decide +kernel
  rw [hpattern] at hwrites
  exact ⟨catalog, s, c, _, t, hcatalog, hs, hc, hlexemes, haccept, by decide, hwrites, by decide⟩

/-- Three plain wildcards side by side are written as two characters, and none of them is a
wildcard. -/
theorem writes_three_wildcards_as_two : ∃ catalog s c t,
    Catalog.build Example.company = .ok catalog ∧ Session.start catalog "Employee" = .ok s ∧
    parse {} "lastName$like:a***b" = .ok c ∧ s.accept c = .ok t ∧
    String.ofList t.whereText = "LOWER(em_0.lastName) LIKE LOWER('a**b')" ∧
    (Escape.signs "a***b".toList).flatMap Escape.Sign.pattern = "a%%%b".toList := by
  have hrun : (Example.accepted? "Employee" "lastName$like:a***b").map
      (fun t => String.ofList t.whereText) = some "LOWER(em_0.lastName) LIKE LOWER('a**b')" := by
    decide +kernel
  obtain ⟨t, ht, hwhere⟩ := Option.map_eq_some_iff.1 hrun
  obtain ⟨catalog, s, c, hcatalog, hs, hc, haccept⟩ := Example.exists_of_accepted? ht
  exact ⟨catalog, s, c, t, hcatalog, hs, hc, haccept, hwhere, by decide⟩

end Session

end FilterQuery
