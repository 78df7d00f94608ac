import FilterQuery.Proofs.RoundTrip

set_option autoImplicit false

/-! # What the limit of nesting bounds

The parser counts the levels of the text: negations, having conditions and pairs of parentheses.
Terms are joined from the left without any, so the first member of a group may be a group that took
no level, and the tree of a filter can be deeper than the limit.

What the limit does bound is `leastNesting`, where a group is a level only as a term: it is the
least nesting of all rows of tokens that denote the condition (`isLeast_leastNesting`). Compact text
has parentheses around every group, so its levels are those of the tree, and the parser refuses it
as too deep whenever the tree is deeper than the limit (`Context.refuses_of_derives`). -/

namespace FilterQuery.Condition

open FilterQuery.Text

variable {zones : Zone.Database}

/-! ## The least nesting of a condition -/

mutual

/-- The levels that a condition needs as such a phrase: a group needs parentheses as a term only. -/
def leastNesting : Phrase → Condition → Nat
  | _, .simple .. | _, .oneOf .. | _, .noneOf .. => 0
  | _, .not c => leastNesting .term c + 1
  | .expression, .group _ first second more =>
    max (max (leastNesting .expression first) (leastNesting .term second)) (leastNestingAll more)
  | .term, .group _ first second more =>
    max (max (leastNesting .expression first) (leastNesting .term second))
      (leastNestingAll more) + 1
  | _, .having _ sub => leastNesting .expression sub + 1
  | _, .aggregate .. => 1

/-- The levels that the further members of a group need. -/
def leastNestingAll : List Condition → Nat
  | [] => 0
  | c :: cs => max (leastNesting .term c) (leastNestingAll cs)

end

mutual

/-- The groups on one path of a condition that need no parentheses, at most. -/
def openGroups : Phrase → Condition → Nat
  | _, .simple .. | _, .oneOf .. | _, .noneOf .. | _, .aggregate .. => 0
  | _, .not c => openGroups .term c
  | .expression, .group _ first second more =>
    max (max (openGroups .expression first) (openGroups .term second)) (openGroupsAll more) + 1
  | .term, .group _ first second more =>
    max (max (openGroups .expression first) (openGroups .term second)) (openGroupsAll more)
  | _, .having _ sub => openGroups .expression sub

/-- Those of the further members of a group. -/
def openGroupsAll : List Condition → Nat
  | [] => 0
  | c :: cs => max (openGroups .term c) (openGroupsAll cs)

end

theorem leastNesting_expression_le (c : Condition) :
    leastNesting .expression c ≤ leastNesting .term c := by
  cases c <;> simp [leastNesting]

/-- One pair of parentheses makes a term of any condition. -/
theorem leastNesting_term_le (c : Condition) :
    leastNesting .term c ≤ leastNesting .expression c + 1 := by
  cases c <;> simp [leastNesting]

mutual

/-- Every group of the tree is a level of the text or one of the open groups. -/
theorem nesting_le (c : Condition) (phrase : Phrase) :
    c.nesting ≤ leastNesting phrase c + openGroups phrase c := by
  cases c with
  | simple | oneOf | noneOf => simp [nesting]
  | not c =>
    have := nesting_le c .term
    simp only [nesting, leastNesting, openGroups]
    omega
  | group join first second more =>
    have := nesting_le first .expression
    have := nesting_le second .term
    have := nestingAll_le more
    cases phrase <;> simp only [nesting, leastNesting, openGroups] <;> omega
  | having field sub =>
    have := nesting_le sub .expression
    simp only [nesting, leastNesting, openGroups]
    omega
  | aggregate => simp [nesting, leastNesting]

theorem nestingAll_le (cs : List Condition) :
    nestingAll cs ≤ leastNestingAll cs + openGroupsAll cs := by
  cases cs with
  | nil => simp [nestingAll]
  | cons c cs =>
    have := nesting_le c .term
    have := nestingAll_le cs
    simp only [nestingAll, leastNestingAll, openGroupsAll]
    omega

end

/-! ## Derivations -/

variable {phrase : Phrase} {n : Nat} {row : List Token} {c : Condition}

/-- No derivation is nested less. -/
theorem Derives.leastNesting_le (h : Derives zones phrase n row c) : leastNesting phrase c ≤ n := by
  induction h with
  | term _ ih => exact (leastNesting_expression_le _).trans ih
  | join _ _ _ ihleft ihright =>
    simp only [leastNesting, leastNestingAll]
    omega
  | not _ ih | having _ _ _ ih => simpa only [leastNesting] using Nat.succ_le_succ ih
  | parentheses _ ih => exact (leastNesting_term_le _).trans (Nat.succ_le_succ ih)
  | aggregate | nullity | oneOf | noneOf | comparison => simp [leastNesting]

/-- A term that is no group is an expression of the same nesting. -/
theorem Derives.exists_phrase (h : Derives zones .term n row c)
    (hc : ∀ phrase, leastNesting phrase c = n) (phrase : Phrase) :
    ∃ row, Derives zones phrase (leastNesting phrase c) row c := by
  rw [hc phrase]
  cases phrase with
  | expression => exact ⟨row, .term h⟩
  | term => exact ⟨row, h⟩

/-- What has a derivation has one of the least nesting: the parentheses that do not enclose the
group of a term are left out. -/
theorem Derives.exists_leastNesting (h : Derives zones phrase n row c) (phrase' : Phrase) :
    ∃ row, Derives zones phrase' (leastNesting phrase' c) row c := by
  induction h generalizing phrase' with
  | term _ ih | parentheses _ ih => exact ih phrase'
  | @join _ _ _ _ left right join _ _ ihleft ihright =>
    obtain ⟨row, hleft⟩ := ihleft .expression
    obtain ⟨row', hright⟩ := ihright .term
    have hjoin := Derives.join join hleft hright
    cases phrase' with
    | expression => exact ⟨_, by simpa [leastNesting, leastNestingAll] using hjoin⟩
    | term => exact ⟨_, by simpa [leastNesting, leastNestingAll] using hjoin.parentheses⟩
  | not _ ih =>
    obtain ⟨row, hrow⟩ := ih .term
    exact exists_phrase (.not hrow) (by simp [leastNesting]) phrase'
  | having name quoted _ ih =>
    obtain ⟨row, hrow⟩ := ih .expression
    exact exists_phrase (.having name quoted hrow) (by simp [leastNesting]) phrase'
  | aggregate name field quoted quoted' op hname hop hbound =>
    exact exists_phrase (.aggregate name field quoted quoted' op hname hop hbound)
      (by simp [leastNesting]) phrase'
  | nullity field quoted hop =>
    exact exists_phrase (.nullity field quoted hop) (by simp [leastNesting]) phrase'
  | oneOf field quoted h =>
    exact exists_phrase (.oneOf field quoted h) (by simp [leastNesting]) phrase'
  | noneOf field quoted h =>
    exact exists_phrase (.noneOf field quoted h) (by simp [leastNesting]) phrase'
  | comparison field quoted hop h =>
    exact exists_phrase (.comparison field quoted hop h) (by simp [leastNesting]) phrase'

/-- The least nesting of all rows that denote a condition. -/
theorem Derives.isLeast_leastNesting (h : Derives zones phrase n row c) (phrase' : Phrase) :
    IsLeast {m | ∃ row, Derives zones phrase' m row c} (leastNesting phrase' c) :=
  ⟨h.exists_leastNesting phrase', fun _ hm => hm.elim fun _ hrow => hrow.leastNesting_le⟩

/-! ## Too deep -/

namespace Context

variable {ctx : Context} {levels stop : Nat} {tokens rest : List Lexeme}

/-- The parser finds no level left for tokens that start with the row. -/
def Refuses (ctx : Context) (levels : Nat) (row : List Token) : Phrase → Prop
  | .expression => ∀ (stop : Nat) (tokens rest : List Lexeme), tokens.map Lexeme.token = row →
      ∃ position, Context.expression (ctx.term levels) stop (tokens ++ rest) =
        refuse (.tooDeep ctx.maxDepth position)
  | .term => ∀ (stop : Nat) (tokens rest : List Lexeme), tokens.map Lexeme.token = row →
      ∃ position, ctx.term levels stop (tokens ++ rest) = refuse (.tooDeep ctx.maxDepth position)

/-- A row whose derivation is nested deeper than the levels left is refused, and for no other
reason. -/
theorem refuses_of_derives (h : Derives ctx.zones phrase n row c) (levels : Nat)
    (hn : levels < n) :
    Refuses ctx levels row phrase := by
  induction h generalizing levels with
  | term _ ih =>
    intro stop tokens rest htokens
    obtain ⟨position, heq⟩ := ih levels hn stop tokens rest htokens
    exact ⟨position, by rw [Context.expression, heq]; rfl⟩
  | @join n m _ _ _ _ join hleft _ ihleft ihright =>
    intro stop tokens rest htokens
    obtain ⟨left, tail, rfl, hl, htail⟩ := List.map_eq_append_iff.1 htokens
    obtain ⟨lexeme, right, rfl, hlexeme, hr⟩ := List.map_eq_cons_iff.1 htail
    rw [List.append_assoc]
    by_cases hlevels : levels < n
    · exact ihleft levels hlevels stop left _ hl
    · -- The first members are read, and the last one is refused.
      obtain ⟨fuel, hfuel, heq⟩ := accepts_of_derives hleft levels (Nat.not_lt.1 hlevels) stop left
        (lexeme :: right ++ rest) hl
      obtain ⟨position, hright⟩ := ihright levels (by omega) stop right rest hr
      obtain ⟨fuel, rfl⟩ := Nat.exists_eq_succ_of_ne_zero (n := fuel) (by simp at hfuel; omega)
      have hconnective : connective? (lexeme :: right ++ rest) = some (join, right ++ rest) :=
        connective?_eq_some_iff.2 ⟨lexeme, rfl, hlexeme⟩
      refine ⟨position, ?_⟩
      rw [heq, chain, hconnective]
      simp only
      rw [hright]
      rfl
  | not _ ih =>
    intro stop tokens rest htokens
    obtain ⟨⟨_, start, stop'⟩, tail, rfl, rfl, htail⟩ := List.map_eq_cons_iff.1 htokens
    cases levels with
    | zero => exact ⟨_, by rw [List.cons_append, Context.term, termAt, if_pos rfl]; rfl⟩
    | succ levels =>
      obtain ⟨position, heq⟩ := ih levels (by omega) stop tail rest htail
      refine ⟨position, ?_⟩
      rw [List.cons_append, Context.term, termAt, if_pos rfl, enter, ok_bind, heq]
      rfl
  | parentheses _ ih =>
    intro stop tokens rest htokens
    obtain ⟨⟨_, start, stop'⟩, tail, rfl, rfl, htail⟩ := List.map_eq_cons_iff.1 htokens
    obtain ⟨inside, last, rfl, hinside, -⟩ := List.map_eq_append_iff.1 htail
    cases levels with
    | zero => exact ⟨_, by rw [List.cons_append, Context.term, termAt]; rfl⟩
    | succ levels =>
      obtain ⟨position, heq⟩ := ih levels (by omega) stop inside (last ++ rest) hinside
      refine ⟨position, ?_⟩
      rw [List.cons_append, List.append_assoc, Context.term, termAt, enter, ok_bind, heq]
      rfl
  | having name quoted hrow ih =>
    intro stop tokens rest htokens
    obtain ⟨⟨_, start, stop'⟩, tail, rfl, rfl, htail⟩ := List.map_eq_cons_iff.1 htokens
    obtain ⟨subject, tail, rfl, hsubject, htail⟩ := List.map_eq_cons_iff.1 htail
    obtain ⟨opening, tail, rfl, hopening, htail⟩ := List.map_eq_cons_iff.1 htail
    obtain ⟨inside, last, rfl, hinside, hlast⟩ := List.map_eq_append_iff.1 htail
    obtain ⟨closing, rfl, hclosing⟩ := List.map_eq_singleton_iff.1 hlast
    cases levels with
    | zero => exact ⟨_, by rw [List.cons_append, Context.term, termAt]; rfl⟩
    | succ levels =>
      obtain ⟨position, heq⟩ := ih levels (by omega) closing.start inside [] hinside
      refine ⟨position, ?_⟩
      rw [List.append_nil] at heq
      simp only [List.cons_append, List.append_assoc, List.nil_append]
      rw [Context.term, termAt, enter, ok_bind, having_eq_havingFilter hsubject hrow hinside,
        havingFilter, expect_eq_ok_iff.2 ⟨opening, rfl, hopening⟩, ok_bind,
        closing?_eq_some hclosing hinside hrow]
      simp only
      rw [Context.filter, heq]
      rfl
  | aggregate =>
    intro stop tokens rest htokens
    obtain ⟨⟨_, start, stop'⟩, tail, rfl, rfl, htail⟩ := List.map_eq_cons_iff.1 htokens
    obtain rfl := Nat.lt_one_iff.1 hn
    exact ⟨_, by rw [List.cons_append, Context.term, termAt]; rfl⟩
  | nullity | oneOf | noneOf | comparison => exact absurd hn (Nat.not_lt_zero _)

end Context

/-- Compact text is as deep as the tree, and refused if that is too deep. -/
theorem Printable.parse_eq_tooDeep {limits : Limits} (h : Printable c)
    (hlength : byteSize c.compactText ≤ limits.maxLength) (hdepth : limits.maxDepth < c.nesting) :
    ∃ position, parse limits (String.ofList c.compactText) zones =
      refuse (.tooDeep limits.maxDepth position) := by
  obtain ⟨found, hlexemes, hderives⟩ := h.exists_lexemes
  rw [parse_eq_filter (by rwa [String.toList_ofList]) hlexemes]
  obtain ⟨position, heq⟩ := Context.refuses_of_derives hderives _ hdepth _ found [] rfl
  rw [List.append_nil] at heq
  exact ⟨position, by rw [Context.filter, heq]; rfl⟩

/-- **What the limit of nesting bounds.** The condition of a filter is within the limit if groups
are counted as terms only: `leastNesting` is the least nesting of the rows that denote it. Its tree
is deeper than the limit by its open groups at most. Whether its compact text, with parentheses
around every group, is within some limits is decided by the tree. -/
theorem nesting_of_parse {limits : Limits} {source : String}
    (h : parse limits source zones = .ok c) :
    leastNesting .expression c ≤ limits.maxDepth ∧
      IsLeast {n | ∃ row, Derives zones .expression n row c} (leastNesting .expression c) ∧
      c.nesting ≤ limits.maxDepth + openGroups .expression c ∧
      (Printable c → ∀ (limits' : Limits) (zones' : Zone.Database),
        byteSize c.compactText ≤ limits'.maxLength →
        (c.nesting ≤ limits'.maxDepth →
          parse limits' (String.ofList c.compactText) zones' = .ok c.shown) ∧
        (limits'.maxDepth < c.nesting → ∃ position,
          parse limits' (String.ofList c.compactText) zones' =
            refuse (.tooDeep limits'.maxDepth position))) := by
  obtain ⟨_, n, -, hn, hderives⟩ := exists_derives_of_parse h
  have hleast := hderives.leastNesting_le.trans hn
  have htree := nesting_le c .expression
  refine ⟨hleast, hderives.isLeast_leastNesting _, by omega, fun hc limits' zones' hlength => ?_⟩
  exact ⟨hc.parse_eq_shown hlength, hc.parse_eq_tooDeep hlength⟩

/-- Two levels of the text and two open groups make a tree of four levels. -/
theorem nesting_not_and_and :
    let isNull (field : String) : Condition := .simple field .null none
    let c : Condition := .group .and (.group .and (.not (.group .or (isNull "a") (isNull "b") []))
      (isNull "c") []) (isNull "d") []
    parse ⟨4096, 2⟩ "$not:(a$null:$or:b$null:)$and:c$null:$and:d$null:" = .ok c ∧
      leastNesting .expression c ≤ 2 ∧ c.nesting ≤ 2 + openGroups .expression c ∧ c.nesting = 4 ∧
      Printable c ∧ parse ⟨4096, 4⟩ (String.ofList c.compactText) = .ok c.shown ∧
      ∃ position, parse ⟨4096, 3⟩ (String.ofList c.compactText) = refuse (.tooDeep 3 position) := by
  intro isNull c
  have hlexemes : lexemes "$not:(a$null:$or:b$null:)$and:c$null:$and:d$null:".toList =
      .ok [⟨.operator "$not:", 0, 5⟩, ⟨.openParen, 5, 6⟩, ⟨.literal "a" false, 6, 7⟩,
        ⟨.operator "$null:", 7, 13⟩, ⟨.operator "$or:", 13, 17⟩, ⟨.literal "b" false, 17, 18⟩,
        ⟨.operator "$null:", 18, 24⟩, ⟨.closeParen, 24, 25⟩, ⟨.operator "$and:", 25, 30⟩,
        ⟨.literal "c" false, 30, 31⟩, ⟨.operator "$null:", 31, 37⟩, ⟨.operator "$and:", 37, 42⟩,
        ⟨.literal "d" false, 42, 43⟩, ⟨.operator "$null:", 43, 49⟩] := by decide +kernel
  have hparse : parse ⟨4096, 2⟩ "$not:(a$null:$or:b$null:)$and:c$null:$and:d$null:" = .ok c := by
    rw [parse_eq_filter (by decide) hlexemes]
    rfl
  have hc : Printable c :=
    .group .and (.group .and (.not (.group .or
      (.nullity ⟨by decide, by decide, by decide +kernel⟩ rfl)
      (.nullity ⟨by decide, by decide, by decide +kernel⟩ rfl)))
      (.nullity ⟨by decide, by decide, by decide +kernel⟩ rfl))
      (.nullity ⟨by decide, by decide, by decide +kernel⟩ rfl)
  have hlength : byteSize c.compactText ≤ 4096 := by decide +kernel
  obtain ⟨hleast, -, htree, hcompact⟩ := nesting_of_parse hparse
  exact ⟨hparse, hleast, htree, by decide, hc, (hcompact hc ⟨4096, 4⟩ _ hlength).1 (by decide),
    (hcompact hc ⟨4096, 3⟩ _ hlength).2 (by decide)⟩

/-- Three terms make a tree of two levels out of a text of none, and the compact text of it is
refused under the limit that the text was accepted with. -/
theorem nesting_and_and_gt_maxDepth :
    let isNull (field : String) : Condition := .simple field .null none
    let c : Condition := .group .and (.group .and (isNull "a") (isNull "b") []) (isNull "c") []
    parse ⟨4096, 1⟩ "a$null:$and:b$null:$and:c$null:" = .ok c ∧ ¬ c.nesting ≤ 1 ∧
      String.ofList c.compactText = "((a$null:$and:b$null:)$and:c$null:)" ∧
      ∃ position, parse ⟨4096, 1⟩ (String.ofList c.compactText) = refuse (.tooDeep 1 position) := by
  intro isNull c
  have hlexemes : lexemes "a$null:$and:b$null:$and:c$null:".toList =
      .ok [⟨.literal "a" false, 0, 1⟩, ⟨.operator "$null:", 1, 7⟩, ⟨.operator "$and:", 7, 12⟩,
        ⟨.literal "b" false, 12, 13⟩, ⟨.operator "$null:", 13, 19⟩, ⟨.operator "$and:", 19, 24⟩,
        ⟨.literal "c" false, 24, 25⟩, ⟨.operator "$null:", 25, 31⟩] := by decide +kernel
  have hc : Printable c :=
    .group .and (.group .and (.nullity ⟨by decide, by decide, by decide +kernel⟩ rfl)
      (.nullity ⟨by decide, by decide, by decide +kernel⟩ rfl))
      (.nullity ⟨by decide, by decide, by decide +kernel⟩ rfl)
  refine ⟨?_, by decide, by decide +kernel, hc.parse_eq_tooDeep (by decide +kernel) (by decide)⟩
  rw [parse_eq_filter (by decide) hlexemes]
  rfl

end FilterQuery.Condition
