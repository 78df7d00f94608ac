import FilterQuery.Query.Names
import FilterQuery.Proofs.Digits
import Mathlib.Data.List.Dedup
import Mathlib.Data.List.Nodup
import Mathlib.Data.List.Perm.Subperm

set_option autoImplicit false

/-! # Fresh names

A generated name is a stem, an underscore and a number. No digit is an underscore, so the name says
which stem it has and which number (`numbered_inj`), also for stems that end in a number themselves:
`a_0_1` is number 1 of `a_0`. The register looks for the least number whose name is free. There is
one among the first numbers, one more than there are names, so the name that it takes is new
(`fresh_not_mem`). A step of the register adds that name and leaves the others as they are. -/

namespace FilterQuery.Names

open FilterQuery.Text

variable {taken : List String} {stem : String} {m n : Nat}

theorem toList_numbered (stem : String) (n : Nat) :
    (numbered stem n).toList = stem.toList ++ '_' :: natDigits n := by
  simp [numbered]

/-- A name has one stem and one number. -/
theorem numbered_inj {a b : String} : numbered a m = numbered b n ↔ a = b ∧ m = n := by
  constructor
  · intro h
    -- Read backwards, the first underscore stands between the number and the stem.
    have hsplit : ∀ (s : String) (k : Nat), splitFirst '_' (numbered s k).toList.reverse =
        some ((natDigits k).reverse, s.toList.reverse) := by
      intro s k
      have hmark : '_' ∉ (natDigits k).reverse := fun hmem =>
        ne_of_isDigit (isDigit_of_mem_toDigits (List.mem_reverse.1 hmem)) (by decide) rfl
      simpa [toList_numbered] using @splitFirst_append '_' _ s.toList.reverse hmark
    have hparts := (hsplit a m).symm.trans ((congrArg _ (by rw [h])).trans (hsplit b n))
    obtain ⟨hdigits, hstem⟩ := Prod.mk.inj (Option.some.inj hparts)
    refine ⟨String.toList_inj.1 (List.reverse_injective hstem), ?_⟩
    rw [← ofDigits_natDigits m, List.reverse_injective hdigits, ofDigits_natDigits]
  · rintro ⟨rfl, rfl⟩
    rfl

/-- Of the first numbers, one more than there are names, one is free. -/
theorem exists_numbered_not_mem (taken : List String) (stem : String) :
    ∃ n ≤ taken.length, numbered stem n ∉ taken := by
  by_contra hall
  push Not at hall
  have hnodup : ((List.range (taken.length + 1)).map (numbered stem)).Nodup :=
    List.Nodup.map (fun _ _ h => (numbered_inj.1 h).2) List.nodup_range
  have hsub : (List.range (taken.length + 1)).map (numbered stem) ⊆ taken := by
    intro name hname
    obtain ⟨n, hn, rfl⟩ := List.mem_map.1 hname
    exact hall n (Nat.le_of_lt_succ (List.mem_range.1 hn))
  have hle := (hnodup.subperm hsub).length_le
  simp at hle

theorem numbered_mem_of_lt_freshIndex (h : m < freshIndex taken stem) :
    numbered stem m ∈ taken := by
  unfold freshIndex at h
  cases hfind : (List.range taken.length).find? fun n => !taken.contains (numbered stem n) with
  | none =>
    rw [hfind] at h
    simpa using List.find?_eq_none.1 hfind m (List.mem_range.2 h)
  | some k =>
    rw [hfind] at h
    simpa using (List.find?_range_eq_some.1 hfind).2.2 m h

/-- The name that the register takes is new. -/
theorem fresh_not_mem (taken : List String) (stem : String) : fresh taken stem ∉ taken := by
  obtain ⟨k, hk, hfree⟩ := exists_numbered_not_mem taken stem
  unfold fresh freshIndex
  cases hfind : (List.range taken.length).find? fun n => !taken.contains (numbered stem n) with
  | some i => simpa using (List.find?_range_eq_some.1 hfind).1
  | none =>
    -- All smaller numbers are taken, so the free one is the last.
    have hlast : ¬ k < taken.length := fun hlt => by
      have htaken := List.find?_eq_none.1 hfind k (List.mem_range.2 hlt)
      exact hfree (by simpa using htaken)
    rwa [Option.getD_none, show taken.length = k by omega]

/-- All smaller numbers are taken, each by another name, so there are as many names at least. -/
theorem freshIndex_le_length_dedup (taken : List String) (stem : String) :
    freshIndex taken stem ≤ taken.dedup.length := by
  have hnodup : ((List.range (freshIndex taken stem)).map (numbered stem)).Nodup :=
    List.Nodup.map (fun _ _ h => (numbered_inj.1 h).2) List.nodup_range
  have hsub : (List.range (freshIndex taken stem)).map (numbered stem) ⊆ taken.dedup := by
    intro name hname
    obtain ⟨n, hn, rfl⟩ := List.mem_map.1 hname
    exact List.mem_dedup.2 (numbered_mem_of_lt_freshIndex (List.mem_range.1 hn))
  simpa using (hnodup.subperm hsub).length_le

/-- A free name is taken as soon as all names with smaller numbers are. -/
theorem fresh_eq_numbered (hfree : numbered stem n ∉ taken)
    (htaken : ∀ m < n, numbered stem m ∈ taken) : fresh taken stem = numbered stem n := by
  rcases Nat.lt_trichotomy (freshIndex taken stem) n with hlt | heq | hgt
  · exact absurd (htaken _ hlt) (fresh_not_mem taken stem)
  · rw [fresh, heq]
  · exact absurd (numbered_mem_of_lt_freshIndex hgt) hfree

/-! ## Steps of the register -/

/-- The number of a new name: it is free, every smaller one is taken, and it is at most the number
of the names that are taken. -/
structure IsNext (taken : List String) (stem : String) (n : Nat) : Prop where
  free : numbered stem n ∉ taken
  least : ∀ m < n, numbered stem m ∈ taken
  le_count : n ≤ taken.dedup.length

theorem isNext_freshIndex (taken : List String) (stem : String) :
    IsNext taken stem (freshIndex taken stem) :=
  ⟨fresh_not_mem taken stem, fun _ => numbered_mem_of_lt_freshIndex,
    freshIndex_le_length_dedup taken stem⟩

theorem hasAlias_registerAlias (names : Names) (name other : String) :
    (names.registerAlias name).hasAlias other = true ↔
      other = name ∨ names.hasAlias other = true := by
  simp [hasAlias, registerAlias]

/-- The value that a parameter is bound to. -/
def value? (names : Names) (name : String) : Option BoundValue := names.parameters.lookup name

theorem value?_eq_none_iff (names : Names) (name : String) :
    names.value? name = none ↔ name ∉ names.parameters.map Prod.fst := by
  simp only [value?, List.lookup_eq_none_iff, List.mem_map, not_exists, not_and, bne_iff_ne]
  exact ⟨fun h entry hentry heq => h entry hentry heq.symm,
    fun h entry hentry heq => h entry hentry heq.symm⟩

theorem value?_nextParameter (names : Names) (attr : String) (value : BoundValue)
    (other : String) :
    (names.nextParameter attr value).2.value? other =
      if other = (names.nextParameter attr value).1 then some value else names.value? other := by
  have hadded : (names.nextParameter attr value).2.value? other =
      (names.value? other).or ([((names.nextParameter attr value).1, value)].lookup other) :=
    List.lookup_append
  rw [hadded]
  split_ifs with hother
  · have hnew : names.value? other = none := by
      rw [hother, value?_eq_none_iff]
      exact fresh_not_mem _ attr
    rw [hnew, hother, Option.none_or, List.lookup_cons_self]
  · simp [List.lookup_cons, beq_eq_false_iff_ne.2 hother]

/-- **New names are new, and take the least number.** Whatever names are registered, the search for
an alias or a parameter ends with the least number that is free, which is at most the number of the
names that are registered. The name was not registered before and is afterwards, and everything else
in the register is as it was. -/
theorem nextAlias_and_nextParameter (names : Names) (type attr : String) (value : BoundValue) :
    (∃ n, IsNext names.aliases (aliasStem type) n ∧
      (names.nextAlias type).1 = numbered (aliasStem type) n ∧
      names.hasAlias (names.nextAlias type).1 = false ∧
      (∀ other, (names.nextAlias type).2.hasAlias other = true ↔
        other = (names.nextAlias type).1 ∨ names.hasAlias other = true) ∧
      (∀ other, (names.nextAlias type).2.value? other = names.value? other) ∧
      (names.nextAlias type).2.depth = names.depth) ∧
    ∃ n, IsNext (names.parameters.map Prod.fst) attr n ∧
      (names.nextParameter attr value).1 = numbered attr n ∧
      names.value? (names.nextParameter attr value).1 = none ∧
      (∀ other, (names.nextParameter attr value).2.value? other =
        if other = (names.nextParameter attr value).1 then some value else names.value? other) ∧
      (∀ other, (names.nextParameter attr value).2.hasAlias other = names.hasAlias other) ∧
      (names.nextParameter attr value).2.depth = names.depth := by
  constructor
  · have hnext := isNext_freshIndex names.aliases (aliasStem type)
    refine ⟨_, hnext, rfl, ?_, fun other => hasAlias_registerAlias names _ other, fun _ => rfl, rfl⟩
    have hnew : (names.nextAlias type).1 ∉ names.aliases := hnext.free
    simpa [hasAlias] using hnew
  · have hnext := isNext_freshIndex (names.parameters.map Prod.fst) attr
    refine ⟨_, hnext, rfl, ?_, value?_nextParameter names attr value, fun _ => rfl, rfl⟩
    exact (names.value?_eq_none_iff _).2 hnext.free

/-- The first gap in the numbers is taken, in whatever order the names were registered. -/
example :
    let names : Names := ⟨["de_0", "de_3", "de_1", "other"], [("at_0", .boolean true)], 1⟩
    (names.nextAlias "Department").1 = "de_2" ∧
      (names.nextParameter "at" (.boolean false)).1 = "at_1" := by decide +kernel

end FilterQuery.Names
