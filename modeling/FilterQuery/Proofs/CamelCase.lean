import FilterQuery.Naming
import FilterQuery.Proofs.CatalogWalk

set_option autoImplicit false

/-! # Camel case, segment by segment

The conversion is a loop over the characters of a path. It carries what it has written and whether
the next letter is a capital, and decides on a capital by the last character that it wrote.
All it makes use of is whether something of the current segment has been written, so that the loop
is a function of the rest of the path and of two flags, `camelRest`. A dot resets both flags, which
is why segments do not depend on each other.

Within a segment the underscores are the gaps between words: `camelSegment` writes the first word as
it is and every other one with a capital. What is written has no underscore in it, and in a path
without underscores every segment is one word, so a second conversion changes nothing. -/

namespace FilterQuery

open FilterQuery.Text

/-! ## Capitals -/

namespace Text

/-- The marks of a path are capital forms of nothing but themselves. -/
theorem eq_of_mem_upper {c d : Char} (hd : d = '_' ∨ d = '.') (h : d ∈ upper c) : d = c := by
  have hspecial : (upperSpecial.all fun entry =>
      entry.2.all fun n => Char.ofNat n != '_' && Char.ofNat n != '.') = true := by decide
  -- No range of capitals reaches over one of the two code points.
  have hranges : (upperRanges.all fun r => [0x5F, 0x2E].all fun n : Int =>
      decide (r.last + r.delta < n) || decide (n < r.first + r.delta)) = true := by decide
  rcases CaseMap.cases_of_mem_apply h with heq | ⟨entry, hentry, n, hn, hchar⟩ | ⟨r, hr, hc, hchar⟩
  · exact heq
  · have himage := List.all_eq_true.1 (List.all_eq_true.1 hspecial entry hentry) n hn
    rcases hd with rfl | rfl <;> simp [← hchar] at himage
  · have hrange := List.all_eq_true.1 hranges r hr
    simp only [List.all_cons, List.all_nil, Bool.and_true, Bool.and_eq_true, Bool.or_eq_true,
      decide_eq_true_eq] at hrange
    simp only [CaseRange.contains, Bool.and_eq_true, decide_eq_true_eq] at hc
    have hnat : d.toNat = 0x5F ∨ d.toNat = 0x2E := by
      rcases hd with rfl | rfl
      · exact .inl rfl
      · exact .inr rfl
    have himage := toNat_ofNat (c.toNat + r.delta).toNat
    rw [← hchar] at himage
    omega

end Text

/-! ## The loop -/

/-- Something has been written of the current segment. -/
def isStarted (written : List Char) : Bool := written.head?.any (· != '.')

/-- What is written of the rest of a path. -/
def camelRest (started upperNext : Bool) : List Char → List Char
  | [] => []
  | c :: rest =>
    if c = '_' then camelRest started started rest
    else if c = '.' then '.' :: camelRest false false rest
    else (if upperNext then upper c else [c]) ++ camelRest true false rest

theorem isStarted_append {front written : List Char} (hfront : '.' ∉ front)
    (h : front = [] → isStarted written = true) : isStarted (front ++ written) = true := by
  cases front with
  | nil => exact h rfl
  | cons c front =>
    have hc : c ≠ '.' := fun heq => hfront (heq ▸ List.mem_cons_self)
    simpa [isStarted] using hc

/-- The loop writes what the flags say. A capital comes next only in a segment that is started. -/
theorem camelFrom_eq {written : List Char} {upperNext : Bool} (cs : List Char)
    (h : upperNext = true → isStarted written = true) :
    camelFrom written upperNext cs =
      written.reverse ++ camelRest (isStarted written) upperNext cs := by
  induction cs generalizing written upperNext with
  | nil => simp [camelFrom, camelRest]
  | cons c rest ih =>
    rw [camelFrom, camelRest]
    split_ifs with hmark hdot hupper
    · exact ih id
    · rw [ih (by simp)]
      simp [isStarted]
    · have hstarted : isStarted ((upper c).reverse ++ written) = true := by
        refine isStarted_append (fun hmem => hdot ?_) fun _ => h hupper
        exact (eq_of_mem_upper (.inr rfl) (List.mem_reverse.1 hmem)).symm
      rw [ih (by simp), hstarted]
      simp
    · have hstarted : isStarted (c :: written) = true := by simpa [isStarted] using hdot
      rw [ih (by simp), hstarted]
      simp

theorem toList_snakeToCamel (field : String) :
    (snakeToCamel field).toList = camelRest false false field.toList := by
  rw [snakeToCamel, String.toList_ofList, camelFrom_eq _ (by simp)]
  rfl

/-- A segment starts anew behind a dot. -/
theorem camelRest_append_dot (started upperNext : Bool) (before after : List Char) :
    camelRest started upperNext (before ++ '.' :: after) =
      camelRest started upperNext before ++ '.' :: camelRest false false after := by
  induction before generalizing started upperNext with
  | nil => simp [camelRest]
  | cons c before ih =>
    rw [List.cons_append, camelRest, camelRest]
    split_ifs with hmark hdot
    · exact ih started started
    · rw [ih, List.cons_append]
    · rw [ih, List.append_assoc]
    · rw [ih, List.append_assoc]

theorem underscore_not_mem_camelRest (started upperNext : Bool) (cs : List Char) :
    '_' ∉ camelRest started upperNext cs := by
  induction cs generalizing started upperNext with
  | nil => simp [camelRest]
  | cons c rest ih =>
    rw [camelRest]
    split_ifs with hmark hdot hupper
    · exact ih started started
    · simpa using ih false false
    · rw [List.mem_append, not_or]
      exact ⟨fun hmem => hmark (eq_of_mem_upper (.inl rfl) hmem).symm, ih true false⟩
    · simpa [Ne.symm hmark] using ih true false

theorem count_dot_camelRest (started upperNext : Bool) (cs : List Char) :
    (camelRest started upperNext cs).count '.' = cs.count '.' := by
  induction cs generalizing started upperNext with
  | nil => rfl
  | cons c rest ih =>
    rw [camelRest]
    split_ifs with hmark hdot hupper
    · rw [ih, hmark]
      simp
    · rw [hdot, List.count_cons_self, List.count_cons_self, ih]
    · have hupper : '.' ∉ upper c := fun hmem => hdot (eq_of_mem_upper (.inr rfl) hmem).symm
      rw [List.count_append, List.count_eq_zero_of_not_mem hupper, Nat.zero_add, ih,
        List.count_cons_of_ne hdot]
    · rw [List.singleton_append, List.count_cons_of_ne hdot, List.count_cons_of_ne hdot, ih]

/-- Without underscores there are no capitals to write. -/
theorem camelRest_eq_self (started : Bool) {cs : List Char} (h : '_' ∉ cs) :
    camelRest started false cs = cs := by
  induction cs generalizing started with
  | nil => rfl
  | cons c rest ih =>
    rw [List.mem_cons, not_or] at h
    rw [camelRest, if_neg (Ne.symm h.1)]
    by_cases hdot : c = '.'
    · rw [if_pos hdot, ih false h.2, hdot]
    · rw [if_neg hdot, ih true h.2]
      rfl

/-! ## Words -/

/-- A word with a capital in front. -/
def capitalized : List Char → List Char
  | [] => []
  | c :: rest => upper c ++ rest

/-- The words of a segment. Any number of underscores stands between two of them. -/
def wordsOf (segment : List Char) : List (List Char) :=
  (splitAll '_' segment).filter fun word => !word.isEmpty

/-- One segment in camel case. -/
def camelSegment (segment : List Char) : List Char :=
  (wordsOf segment).head?.getD [] ++ (wordsOf segment).tail.flatMap capitalized

theorem wordsOf_underscore (rest : List Char) : wordsOf ('_' :: rest) = wordsOf rest := by
  simp [wordsOf, splitAll]

/-- A character in front belongs to the first part. -/
theorem wordsOf_cons {c : Char} {rest part : List Char} {parts : List (List Char)} (hc : c ≠ '_')
    (h : splitAll '_' rest = part :: parts) :
    wordsOf (c :: rest) = (c :: part) :: parts.filter fun word => !word.isEmpty := by
  simp [wordsOf, splitAll, hc, h]

/-- In a segment that is started, a capital may come next, with the first word or with one of the
words behind the part that stands here. -/
theorem camelRest_started {segment : List Char} (hdot : '.' ∉ segment) :
    camelRest true true segment = (wordsOf segment).flatMap capitalized ∧
      ∀ part parts, splitAll '_' segment = part :: parts → camelRest true false segment =
        part ++ (parts.filter fun word => !word.isEmpty).flatMap capitalized := by
  induction segment with
  | nil =>
    refine ⟨rfl, fun part parts h => ?_⟩
    obtain ⟨rfl, rfl⟩ := List.cons.inj h
    rfl
  | cons c rest ih =>
    rw [List.mem_cons, not_or] at hdot
    obtain ⟨ihwords, ihpart⟩ := ih hdot.2
    by_cases hc : c = '_'
    · subst hc
      refine ⟨by rw [camelRest, if_pos rfl, ihwords, wordsOf_underscore], fun part parts h => ?_⟩
      rw [splitAll, if_pos rfl] at h
      obtain ⟨rfl, rfl⟩ := List.cons.inj h
      rw [camelRest, if_pos rfl, ihwords]
      rfl
    · obtain ⟨part, parts, hparts⟩ := List.exists_cons_of_ne_nil (splitAll_ne_nil '_' rest)
      have hrest := ihpart part parts hparts
      have hsplit : splitAll '_' (c :: rest) = (c :: part) :: parts := by
        simp [splitAll, hc, hparts]
      constructor
      · rw [camelRest, if_neg hc, if_neg (Ne.symm hdot.1), if_pos rfl, hrest,
          wordsOf_cons hc hparts, List.flatMap_cons, capitalized, List.append_assoc]
      · intro part' parts' h
        obtain ⟨rfl, rfl⟩ := List.cons.inj (hsplit.symm.trans h)
        rw [camelRest, if_neg hc, if_neg (Ne.symm hdot.1), hrest]
        rfl

theorem camelRest_eq_camelSegment {segment : List Char} (hdot : '.' ∉ segment) :
    camelRest false false segment = camelSegment segment := by
  induction segment with
  | nil => rfl
  | cons c rest ih =>
    rw [List.mem_cons, not_or] at hdot
    by_cases hc : c = '_'
    · rw [hc, camelRest, if_pos rfl, ih hdot.2, camelSegment, camelSegment, wordsOf_underscore]
    · obtain ⟨part, parts, hparts⟩ := List.exists_cons_of_ne_nil (splitAll_ne_nil '_' rest)
      rw [camelRest, if_neg hc, if_neg (Ne.symm hdot.1), camelSegment, wordsOf_cons hc hparts,
        (camelRest_started hdot.2).2 part parts hparts]
      rfl

theorem camelRest_join {segments : List (List Char)} (h : ∀ segment ∈ segments, '.' ∉ segment) :
    camelRest false false (join ['.'] segments) = join ['.'] (segments.map camelSegment) := by
  induction segments with
  | nil => rfl
  | cons segment rest ih =>
    obtain ⟨hsegment, hrest⟩ := List.forall_mem_cons.1 h
    cases rest with
    | nil => exact camelRest_eq_camelSegment hsegment
    | cons next others =>
      show camelRest false false (segment ++ ['.'] ++ join ['.'] (next :: others)) = _
      rw [List.append_assoc, List.singleton_append, camelRest_append_dot, ih hrest,
        camelRest_eq_camelSegment hsegment]
      simp [join]

/-- **Camel case is a matter of segments.** Each segment of a path is converted by itself, its words
after the first one with a capital. What comes out has no underscore in it and as many dots as the
path, a path without underscores stays as it is, and a second conversion changes nothing. -/
theorem snakeToCamel_segments (a b : String) :
    snakeToCamel (a ++ "." ++ b) = snakeToCamel a ++ "." ++ snakeToCamel b ∧
    (snakeToCamel a).toList = join ['.'] ((splitAll '.' a.toList).map camelSegment) ∧
    '_' ∉ (snakeToCamel a).toList ∧
    (snakeToCamel a).toList.count '.' = a.toList.count '.' ∧
    ('_' ∉ a.toList → snakeToCamel a = a) ∧
    snakeToCamel (snakeToCamel a) = snakeToCamel a := by
  have hplain : ∀ s : String, '_' ∉ s.toList → snakeToCamel s = s := by
    intro s hs
    rw [← String.toList_inj, toList_snakeToCamel, camelRest_eq_self false hs]
  have hmark : '_' ∉ (snakeToCamel a).toList := by
    rw [toList_snakeToCamel]
    exact underscore_not_mem_camelRest false false a.toList
  refine ⟨?_, ?_, hmark, ?_, hplain a, hplain _ hmark⟩
  · rw [← String.toList_inj]
    simp [toList_snakeToCamel, camelRest_append_dot]
  · conv_lhs => rw [toList_snakeToCamel, ← join_splitAll '.' a.toList]
    exact camelRest_join not_mem_splitAll
  · rw [toList_snakeToCamel, count_dot_camelRest]

/-- A path with underscores at the ends of a segment and in a row, and the one it becomes. -/
theorem snakeToCamel_lastLogin :
    snakeToCamel ("team_leads._last__login_" ++ "." ++ "time_zone") =
      "teamLeads.lastLogin" ++ "." ++ "timeZone" ∧
    splitAll '.' "team_leads._last__login_".toList =
      ["team_leads".toList, "_last__login_".toList] ∧
    "teamLeads.lastLogin".toList =
      join ['.'] [camelSegment "team_leads".toList, camelSegment "_last__login_".toList] ∧
    '_' ∉ "teamLeads.lastLogin".toList ∧
    "teamLeads.lastLogin".toList.count '.' = "team_leads._last__login_".toList.count '.' ∧
    snakeToCamel "teamLeads.lastLogin" = "teamLeads.lastLogin" := by
  have hpath : snakeToCamel "team_leads._last__login_" = "teamLeads.lastLogin" := by
    decide +kernel
  have hzone : snakeToCamel "time_zone" = "timeZone" := by decide +kernel
  have hsplit : splitAll '.' "team_leads._last__login_".toList =
      ["team_leads".toList, "_last__login_".toList] := by decide +kernel
  obtain ⟨hdot, hsegments, hmark, hcount, -, -⟩ :=
    snakeToCamel_segments "team_leads._last__login_" "time_zone"
  rw [hpath] at hsegments hmark hcount
  rw [hpath, hzone] at hdot
  rw [hsplit] at hsegments
  exact ⟨hdot, hsplit, hsegments, hmark, hcount,
    (snakeToCamel_segments "teamLeads.lastLogin" "").2.2.2.2.1 hmark⟩

/-- Underscores at the ends of segments, and in rows. -/
example : snakeToCamel "_a__b_.._c_d._" = "aB..cD." := by decide +kernel

end FilterQuery
