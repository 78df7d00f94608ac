import FilterQuery.Proofs.CompileErrors
import FilterQuery.Proofs.InstantBounds
import FilterQuery.Proofs.PageNumbers

set_option autoImplicit false

/-! # Pages beyond a word

Page and size are words each, and their product is checked by nobody. The index of the first item
and the index behind the last one are numbers of their own, and words only if they are small enough
(`Pagination.offset?_eq_some_iff`, `Pagination.end?_eq_some_iff`). A query takes the first of them.

So a query for a page that was read can stop without a result or an error. This is the only way it
can: everything in front of it answers. Compiling a filter stops only at an instant that a clock
cannot show, and filters that were parsed have none. -/

namespace FilterQuery

/-! ## Computations that answer -/

/-- A computation that ends with a value or an error. -/
def Answers {ε α : Type} (x : Except (Failure ε) α) : Prop := ∀ f, x ≠ stopWith f

namespace Answers

variable {ε α β : Type} {x : Except (Failure ε) α} {k : α → Except (Failure ε) β}

theorem ok (a : α) : Answers (.ok a : Except (Failure ε) α) := nofun

theorem refuse (e : ε) : Answers (FilterQuery.refuse e : Except (Failure ε) α) := nofun

/-- Steps in a row answer if each of them does. -/
theorem bind (hx : Answers x) (hk : ∀ a, Answers (k a)) : Answers (x >>= k) := by
  intro f h
  rcases bind_eq_error_iff.1 h with hstop | ⟨a, -, hstop⟩
  · exact hx f hstop
  · exact hk a f hstop

theorem map (hx : Answers x) (g : α → β) : Answers (x.map g) :=
  fun f h => hx f (map_eq_error_iff.1 h)

theorem mapM {g : α → Except (Failure ε) β} (hg : ∀ a, Answers (g a)) (as : List α) :
    Answers (as.mapM g) := by
  induction as with
  | nil => exact ok []
  | cons a as ih =>
    rw [List.mapM_cons]
    exact (hg a).bind fun b => ih.bind fun bs => ok (b :: bs)

theorem orFail (e : CompileError) (o : Option α) : Answers (FilterQuery.orFail e o) := by
  cases o with
  | none => exact refuse e
  | some a => exact ok a

theorem orRefuse {δ : Type} (g : δ → ε) (y : Except δ α) : Answers (FilterQuery.orRefuse g y) := by
  cases y with
  | error e => exact refuse (g e)
  | ok a => exact ok a

end Answers

/-! ## Compiling -/

namespace Scope

variable {s : Scope}

theorem answers_resolve (field : String) : Answers (s.resolve field) :=
  (Answers.orRefuse _ _).bind fun _ => .ok _

theorem answers_list (field : String) (values : List Value) : Answers (s.list field values) := by
  refine (answers_resolve field).bind fun found => ?_
  refine (Answers.mapM (fun value => ?_) values).bind fun _ => .ok _
  cases value
  case string | long | double => exact .ok _
  all_goals exact .refuse _

theorem answers_checkDepth (names : Names) : Answers (s.checkDepth names) := by
  unfold checkDepth
  split
  · exact .refuse _
  · exact .ok _

theorem answers_hop (field : String) : Answers (s.hop field) := by
  intro f h
  have houtcome := hop_outcome s field
  rw [h] at houtcome
  cases houtcome

theorem answers_havingHop (field : String) (names : Names) : Answers (s.havingHop field names) := by
  refine (answers_checkDepth names).bind fun _ => (answers_hop field).bind fun hop => ?_
  split
  · exact .ok _
  · exact .refuse _

theorem answers_aggregate (field : String) (function : Aggregate) (op : Operator) (bound : Value)
    (names : Names) : Answers (s.aggregate field function op bound names) := by
  refine (answers_checkDepth names).bind fun _ => (answers_hop field).bind fun hop => ?_
  simp only
  split
  · exact .refuse _
  refine (Answers.orFail _ _).bind fun ownerId => ?_
  refine Answers.bind ?_ fun aggregated => (Answers.orFail _ _).bind fun symbol => ?_
  · unfold aggregatedName
    split
    · exact .ok _
    · split
      · exact .orFail _ _
      · exact .refuse _
  · split
    · exact .refuse _
    · exact .ok _

/-- An instant that is near is bound. -/
theorem answers_boundInstant (hzone : s.options.zone.BelowDay) {i : Instant} (hi : i.Near)
    (field : String) (attr : Attribute) : Answers (s.boundInstant field attr i) := by
  refine (Answers.orFail _ _).bind fun type => Answers.bind ?_ fun _ => .orFail _ _
  have hrange := i.inRange_localAt hi hzone i.unixSeconds
  obtain ⟨bound, hbound⟩ : ∃ bound, BoundValue.ofInstant i type s.options.zone = .ok bound := by
    cases type <;> simp [BoundValue.ofInstant, LocalDateTime.representable, hrange, Except.map]
  rw [hbound]
  exact .ok bound

theorem answers_comparison (hzone : s.options.zone.BelowDay) {value : Value}
    (hvalue : ∀ i, value = .instant i → i.Near) (field : String) (ref : Ref) (attr : Attribute)
    (op : Operator) (names : Names) : Answers (s.comparison field ref attr op value names) := by
  cases value
  case string text =>
    simp only [comparison]
    split
    · exact .ok _
    · exact (Answers.orFail _ _).bind fun _ => .ok _
  case boolean b =>
    simp only [comparison]
    split
    case h_3 => exact .refuse _
    all_goals
      rw [pure_bind]
      split <;> exact .ok _
  case instant i =>
    refine (Answers.orFail _ _).bind fun symbol => ?_
    exact (answers_boundInstant hzone (hvalue i rfl) field attr).bind fun _ => .ok _
  all_goals exact (Answers.orFail _ _).bind fun _ => .ok _

theorem answers_simple (hzone : s.options.zone.BelowDay) {field : String} {op : Operator}
    {value : Option Value} (hc : (Condition.simple field op value).ComparesNear) (names : Names) :
    Answers (s.simple field op value names) := by
  refine (answers_resolve field).bind fun found => ?_
  simp only
  split
  · exact .ok _
  · exact .ok _
  · cases value with
    | none => exact .refuse _
    | some v =>
      exact answers_comparison hzone (fun i hv => hc field op i (by rw [hv])) field _ _ _ _

end Scope

namespace Condition

variable {s s' : Scope} {names names' : Names} {c d : Condition}

theorem mem_nodes_self (c : Condition) : c ∈ c.nodes := by
  cases c <;> simp [nodes]

theorem mem_nodesAll {cs : List Condition} (hc : c ∈ cs) (hd : d ∈ c.nodes) : d ∈ nodesAll cs := by
  induction cs with
  | nil => cases hc
  | cons first cs ih =>
    rw [nodesAll, List.mem_append]
    rcases List.mem_cons.1 hc with rfl | hc
    · exact .inl hd
    · exact .inr (ih hc)

/-- The compiler comes to conditions of the filter only, and the options stay. -/
theorem Reaches.mem_nodes (h : Reaches s names c s' names' d) :
    d ∈ c.nodes ∧ s'.options = s.options := by
  induction h with
  | here => exact ⟨mem_nodes_self _, rfl⟩
  | not _ ih => exact ⟨List.mem_cons_of_mem _ ih.1, ih.2⟩
  | first _ ih => exact ⟨by simp [nodes, ih.1], ih.2⟩
  | second _ _ ih => exact ⟨by simp [nodes, ih.1], ih.2⟩
  | @more _ _ _ _ _ _ _ _ _ _ c d before after _ _ _ _ _ _ _ ih =>
    have hmem : d ∈ nodesAll (before ++ c :: after) := mem_nodesAll (by simp) ih.1
    exact ⟨by simp [nodes, hmem], ih.2⟩
  | having _ _ ih => exact ⟨List.mem_cons_of_mem _ ih.1, ih.2⟩

/-- What a condition checks by itself answers, unless it compares with an instant far away. -/
theorem answers_own (hzone : s.options.zone.BelowDay) (hd : d.ComparesNear) :
    Answers (d.own s names) := by
  cases d with
  | simple field op value => exact (Scope.answers_simple hzone hd names).map _
  | oneOf field values => exact (Scope.answers_list field values).map _
  | noneOf field values => exact (Scope.answers_list field values).map _
  | not c => exact .ok ()
  | group join first second more => exact .ok ()
  | having field sub => exact (Scope.answers_havingHop field names).map _
  | aggregate field function op bound =>
    exact (Scope.answers_aggregate field function op bound names).map _

theorem answers_compile (hzone : s.options.zone.BelowDay)
    (hc : ∀ node ∈ c.nodes, node.ComparesNear) : Answers (c.compile s names) := by
  intro f h
  obtain ⟨s', names', d, hreaches, hown⟩ := exists_own_error_of_compile h
  obtain ⟨hmem, hoptions⟩ := hreaches.mem_nodes
  exact answers_own (hoptions ▸ hzone) (hc d hmem) f hown

end Condition

/-! ## Indices of a page -/

namespace Pagination

variable {p : Pagination} {n : Nat}

theorem word?_eq_some_iff {m : Nat} : word? m = some n ↔ n = m ∧ n < wordLimit := by
  unfold word?
  split_ifs with h
  · constructor
    · rintro ⟨⟩
      exact ⟨rfl, h⟩
    · rintro ⟨rfl, -⟩
      rfl
  · constructor
    · rintro ⟨⟩
    · rintro ⟨rfl, hlt⟩
      exact absurd hlt h

theorem offset?_eq_some_iff : p.offset? = some n ↔ n = (p.page - 1) * p.size ∧ n < wordLimit :=
  word?_eq_some_iff

theorem offset?_eq_none_iff : p.offset? = none ↔ wordLimit ≤ (p.page - 1) * p.size := by
  simp [offset?, word?]

/-- The index behind a page is that of the next page. -/
theorem end?_eq_some_iff : p.end? = some n ↔ n = p.page * p.size ∧ n < wordLimit := by
  have hnext : (p.page - 1) * p.size + p.size = p.page * p.size := by
    rw [← Nat.succ_mul, Nat.succ_eq_add_one, Nat.sub_add_cancel p.page_pos]
  simp only [end?, Option.bind_eq_some_iff, offset?_eq_some_iff, word?_eq_some_iff]
  constructor
  · rintro ⟨start, ⟨rfl, -⟩, rfl, hlt⟩
    exact ⟨hnext, hlt⟩
  · rintro ⟨rfl, hlt⟩
    exact ⟨_, ⟨rfl, by omega⟩, hnext.symm, hlt⟩

end Pagination

/-! ## Queries for a page -/

namespace Session

variable {s : Session} {filter : Option Condition} {sorting : Option Sorting} {p : Pagination}

/-- The session once the filter and the sorting of a request have been taken in. -/
def prepared (s : Session) (filter : Option Condition) (sorting : Option Sorting) :
    Compile Session :=
  filter.elim (.ok s) s.accept >>= fun t => sorting.elim (.ok t) t.orderBy

theorem compile_eq : s.compile filter sorting p = s.prepared filter sorting >>= fun t =>
    p.offset?.elim (stopWith .wordOverflow) fun offset =>
      .ok ⟨String.ofList t.queryText, String.ofList t.countText, String.ofList t.whereText,
        t.names.parameters, offset, p.size⟩ := by
  rw [prepared, bind_assoc]
  unfold compile
  cases filter <;> cases sorting <;> cases p.offset? <;> rfl

theorem answers_orderBy (sorting : Sorting) : Answers (s.orderBy sorting) := by
  rw [orderBy_eq]
  refine (Answers.mapM (fun criterion => ?_) sorting.criteria).bind fun _ => .ok _
  unfold Scope.orderTerm
  split
  · split
    · exact .refuse _
    · exact .ok _
  · exact .refuse _

theorem answers_prepared (hzone : s.scope.options.zone.BelowDay)
    (hfilter : ∀ c ∈ filter, ∃ limits source zones, Condition.parse limits source zones = .ok c) :
    Answers (s.prepared filter sorting) := by
  refine Answers.bind ?_ fun t => ?_
  · cases filter with
    | none => exact .ok s
    | some c =>
      obtain ⟨limits, source, zones, hparse⟩ := hfilter c rfl
      show Answers (s.accept c)
      rw [accept_eq]
      exact (Condition.answers_compile hzone (Condition.near_of_parse hparse)).bind fun _ => .ok _
  · cases sorting with
    | none => exact .ok t
    | some sorting => exact answers_orderBy sorting

/-- The first item and the last one of a page that was read have an index exactly if it is a word.
The first one is what a query for the page waits for: it stops without a result or an error if and
only if the filter and the sorting are fine and this index is no word. -/
theorem compile_parsed_page {text : List Char} (hp : Pagination.parse text = .ok p)
    (hzone : s.scope.options.zone.BelowDay)
    (hfilter : ∀ c ∈ filter, ∃ limits source zones, Condition.parse limits source zones = .ok c) :
    ∃ page size, Pagination.LastNumber Pagination.pageKey text Pagination.defaultPage page ∧
      Pagination.LastNumber Pagination.sizeKey text Pagination.defaultSize size ∧
      (∀ n, p.offset? = some n ↔ n = (page - 1) * size ∧ n < wordLimit) ∧
      (∀ n, p.end? = some n ↔ n = page * size ∧ n < wordLimit) ∧
      (∀ f, s.compile filter sorting p = stopWith f ↔ f = .wordOverflow ∧
        wordLimit ≤ (page - 1) * size ∧ ∃ t, s.prepared filter sorting = .ok t) ∧
      ∀ t, s.prepared filter sorting = .ok t → (page - 1) * size < wordLimit →
        s.compile filter sorting p = .ok ⟨String.ofList t.queryText, String.ofList t.countText,
          String.ofList t.whereText, t.names.parameters, (page - 1) * size, size⟩ := by
  obtain ⟨-, -, hpage, hsize⟩ := Pagination.parse_eq_ok_iff.1 hp
  refine ⟨p.page, p.size, hpage, hsize, fun n => Pagination.offset?_eq_some_iff,
    fun n => Pagination.end?_eq_some_iff, fun f => ?_, fun t ht hlt => ?_⟩
  · rw [compile_eq, ← Pagination.offset?_eq_none_iff]
    constructor
    · intro h
      rcases bind_eq_error_iff.1 h with hstop | ⟨t, ht, h⟩
      · exact absurd hstop (answers_prepared hzone hfilter f)
      · cases hoffset : p.offset? with
        | none =>
          rw [hoffset] at h
          cases h
          exact ⟨rfl, rfl, t, ht⟩
        | some offset =>
          rw [hoffset] at h
          cases h
    · rintro ⟨rfl, hoffset, t, ht⟩
      rw [ht, hoffset]
      rfl
  · rw [compile_eq, ht, Pagination.offset?_eq_some_iff.2 ⟨rfl, hlt⟩]
    rfl

/-- A filter with an instant that is bound as a date-time on the clock. -/
def loggedInBefore : String := "lastLoginLocal$lt:2023-03-12T02:30[America/New_York]"

/-- The last page of its size whose first item has an index; the index behind it is no word. -/
theorem compile_largestPage : ∃ catalog s c p q,
    Catalog.build Example.company = .ok catalog ∧ Session.start catalog "Employee" = .ok s ∧
    Condition.parse {} loggedInBefore = .ok c ∧
    Pagination.parse "$page:4294967296$size:4294967296".toList = .ok p ∧
    s.compile (some c) none p = .ok q ∧ q.offset = 18446744069414584320 ∧ p.end? = none := by
  have hrun : ((Catalog.build Example.company).toOption.any fun catalog =>
      (Session.start catalog "Employee").toOption.any fun s =>
        (Condition.parse {} loggedInBefore).toOption.any fun c =>
          (s.prepared (some c) none).toOption.any fun _ =>
            decide s.scope.options.zone.BelowDay) = true := by decide +kernel
  obtain ⟨catalog, hbuild, hrun⟩ := exists_ok_of_any hrun
  obtain ⟨s, hstart, hrun⟩ := exists_ok_of_any hrun
  obtain ⟨c, hparse, hrun⟩ := exists_ok_of_any hrun
  obtain ⟨t, hprepared, hrun⟩ := exists_ok_of_any hrun
  let p : Pagination := ⟨4294967296, 4294967296, by decide, by decide, by decide, by decide⟩
  have hp : Pagination.parse "$page:4294967296$size:4294967296".toList = .ok p := by
    decide +kernel
  have hfilter : ∀ d ∈ some c, ∃ limits source zones,
      Condition.parse limits source zones = .ok d := by
    rintro _ ⟨⟩
    exact ⟨{}, loggedInBefore, _, hparse⟩
  obtain ⟨page, size, -, -, hoffset, -, -, hcompile⟩ :=
    @compile_parsed_page s (some c) none p _ hp (of_decide_eq_true hrun) hfilter
  obtain ⟨heq, hlt⟩ := (hoffset 18446744069414584320).1 (by decide +kernel)
  rw [← heq] at hcompile
  exact ⟨catalog, s, c, p, _, hbuild, hstart, hparse, hp, hcompile t hprepared hlt, rfl,
    by decide +kernel⟩

/-- No query for this page has a result, whatever it is for. -/
theorem compile_overflowingPage : ∃ p,
    Pagination.parse "$page:18446744073709551615$size:2".toList = .ok p ∧
    p.offset? = none ∧ p.end? = none ∧
    ∀ s : Session, s.compile none none p = stopWith .wordOverflow := by
  let p : Pagination := ⟨18446744073709551615, 2, by decide, by decide, by decide, by decide⟩
  have hoffset : p.offset? = none := by decide +kernel
  refine ⟨p, by decide +kernel, hoffset, by decide +kernel, fun s => ?_⟩
  rw [compile_eq, hoffset]
  rfl

end Session

end FilterQuery
