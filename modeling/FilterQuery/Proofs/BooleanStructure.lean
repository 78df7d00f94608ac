import FilterQuery.Proofs.Reading
import FilterQuery.Proofs.SessionRun

set_option autoImplicit false

/-! # The restriction of a query has the structure of its filters

The text of a restriction, read by a reader who knows nothing of filters, is the conjunction of the
filters that were accepted: groups read as conjunctions and disjunctions of their members, negations
as negations, and every other condition as its own clause reads when it stands alone.

What carries it is that every clause is one unit for a reader (`Clause.Compiled.isWhole`). A
negation needs no brackets because it ends where its unit ends, a group and the comparison of a date
or time by its components bring theirs, and in all else `AND` and `OR` are inside of brackets. -/

namespace FilterQuery

open QueryText QueryText.Formula

/-! ## Clauses as rows of tokens -/

namespace Clause

variable {c : Catalog} {a : String} {ref : Ref}

theorem matched_word (cs : List Char) : Matched (wordToken cs) := by
  unfold wordToken
  split
  · exact .nil
  · exact .token rfl .nil

theorem flat_word {cs : List Char} (hand : cs ≠ "AND".toList) (hor : cs ≠ "OR".toList) :
    Flat (wordToken cs) := by
  unfold wordToken
  split
  · exact .nil
  · exact .token rfl (by simpa using hand) (by simpa using hor) .nil

theorem matched_brackets {ts : List QueryText.Token} (h : Matched ts) :
    Matched (brackets ts) := by
  simpa using Matched.nested h .nil

theorem flat_brackets {ts : List QueryText.Token} (h : Matched ts) :
    Flat (brackets ts) := by
  simpa using Flat.nested h .nil

theorem tokens_phrase (words : List String) :
    (phrase words).flatMap partTokens = words.flatMap fun w => wordToken w.toList := by
  simp [phrase, List.flatMap_assoc, partTokens, delimiterTokens]

theorem tokens_callParts (function : String) (ps : List Part) :
    (callParts function ps).flatMap partTokens =
      wordToken function.toList ++ brackets (ps.flatMap partTokens) := by
  simp [callParts, partTokens, delimiterTokens, brackets]

theorem tokens_subqueryParts (owner back : Ref) (target : String) (rest : List Part) :
    (subqueryParts owner back target rest).flatMap partTokens =
      wordToken owner.text ++ ((phrase ["IN"]).flatMap partTokens ++
        brackets (wordToken "SELECT".toList ++ (wordToken back.text ++
          ((phrase ["FROM", target, back.aliasName]).flatMap partTokens ++
            rest.flatMap partTokens)))) := by
  simp [-String.reduceToList, subqueryParts, partTokens, delimiterTokens, brackets]

theorem tokens_list (words : List String) (items : List Operand) :
    (phrase words ++ Part.mark .space :: .mark .opening ::
      (itemsParts items ++ [.mark .closing])).flatMap partTokens =
      (phrase words).flatMap partTokens ++ brackets ((itemsParts items).flatMap partTokens) := by
  simp [partTokens, delimiterTokens, brackets]

theorem tokens_partsAll (connective : Connective) (clauses : List Clause) :
    (partsAll connective clauses).flatMap partTokens =
      joinTokens connective (clauses.map clauseTokens) := by
  have hjoint : wordToken (jointWord connective).toList =
      [.word (jointWord connective).toList] := by cases connective <;> rfl
  induction clauses with
  | nil => rfl
  | cons clause rest ih =>
    cases rest with
    | nil => rfl
    | cons next rest =>
      rw [List.map_cons] at ih
      simp [-String.reduceToList, partsAll, joinTokens, ih, partTokens, delimiterTokens, hjoint,
        clauseTokens]

theorem tokens_group (connective : Connective) (clauses : List Clause) :
    clauseTokens (.group connective clauses) =
      brackets (joinTokens connective (clauses.map clauseTokens)) := by
  rw [← tokens_partsAll]
  simp [clauseTokens, parts, partTokens, delimiterTokens, brackets]

/-! ### Brackets match -/

theorem matched_phrase (words : List String) :
    Matched ((phrase words).flatMap partTokens) := by
  rw [tokens_phrase]
  induction words with
  | nil => exact .nil
  | cons w words ih => exact (matched_word w.toList).append ih

theorem flat_castParts (cs : List Char) (type : String) :
    Flat ((castParts cs type).flatMap partTokens) := by
  rw [castParts, tokens_callParts]
  refine (flat_word (by decide) (by decide)).append (flat_brackets ?_)
  exact .token rfl (matched_phrase ["AS", type])

theorem matched_operandParts (operand : Operand) :
    Matched ((operandParts operand).flatMap partTokens) := by
  cases operand with
  | quoted cs => exact .token rfl .nil
  | numeral cs => simpa [operandParts, partTokens] using matched_word cs
  | parameter name => simpa [operandParts, partTokens] using matched_word (':' :: name.toList)
  | date d => exact (flat_castParts d.text "DATE").matched
  | timestamp dt => exact (flat_castParts dt.text "TIMESTAMP").matched

theorem matched_itemsParts (items : List Operand) :
    Matched ((itemsParts items).flatMap partTokens) := by
  have hitem : ∀ item, Matched ((itemParts item).flatMap partTokens) := by
    intro item
    cases item with
    | quoted cs => exact .token rfl .nil
    | _ => simpa only [itemParts] using matched_operandParts _
  fun_induction itemsParts items with
  | case1 => exact .nil
  | case2 item => exact hitem item
  | case3 item rest hrest ih =>
    rw [List.flatMap_append]
    exact (hitem item).append (.token rfl ih)

theorem matched_joinTokens (connective : Connective) {tss : List (List QueryText.Token)}
    (h : ∀ ts ∈ tss, Matched ts) : Matched (joinTokens connective tss) := by
  fun_induction joinTokens connective tss with
  | case1 => exact .nil
  | case2 ts => exact h ts List.mem_cons_self
  | case3 ts rest hrest ih =>
    obtain ⟨hfirst, hrest⟩ := List.forall_mem_cons.1 h
    exact hfirst.append (.token rfl (ih hrest))

/-! ### Comparisons are flat -/

theorem flat_symbol (symbol : Symbol) : Flat (wordToken symbol.text) := by
  cases symbol <;> exact flat_word (by decide) (by decide)

/-- No numeral joins clauses. -/
theorem flat_numeral {cs : List Char} (h : ∀ d ∈ cs, Text.isDigit d = true ∨ d ∈ numeralLetters) :
    Flat (wordToken cs) := by
  refine flat_word ?_ ?_
  · rintro rfl
    exact absurd (h 'D' (by decide)) (by decide)
  · rintro rfl
    exact absurd (h 'R' (by decide)) (by decide)

theorem flat_operandParts {operand : Operand} (h : operand.Compiled c) :
    Flat ((operandParts operand).flatMap partTokens) := by
  cases h with
  | quoted cs => exact .token rfl (by simp) (by simp) .nil
  | numeral hv =>
    simpa [operandParts, partTokens] using
      flat_numeral fun d hd => Value.mem_text_of_isNumeric hv hd
  | parameter hattr n =>
    simpa [operandParts, partTokens] using flat_word (by simp) (by simp)
  | date d => exact flat_castParts d.text "DATE"
  | timestamp dt => exact flat_castParts dt.text "TIMESTAMP"

/-! ### Every clause is a unit -/

/-- A row that is one unit for a reader, and in which brackets match. -/
structure IsWhole (ts : List QueryText.Token) : Prop where
  matched : Matched ts
  exists_readsAs : ∃ r, ReadsAs ts r

theorem isWhole_of_flat {ts : List QueryText.Token} (cs : List Char) (h : Flat ts)
    (hne : ∃ t ∈ ts, t ≠ .word "NOT".toList) : IsWhole (wordToken cs ++ ts) :=
  ⟨(matched_word cs).append h.matched, h.exists_readsAs_word hne cs⟩

/-- A word and keywords behind it that join nothing, and not negations only. -/
theorem isWhole_phrase (cs : List Char) (words : List String) {ts : List QueryText.Token}
    (h : Flat ts)
    (hjoin : (words.all fun w => w.toList != "AND".toList && w.toList != "OR".toList) = true)
    (hne : (words.any fun w => w.toList != [] && w.toList != "NOT".toList) = true) :
    IsWhole (wordToken cs ++ ((phrase words).flatMap partTokens ++ ts)) := by
  rw [tokens_phrase]
  refine isWhole_of_flat cs (.append ?_ h) ?_
  · clear hne
    induction words with
    | nil => exact .nil
    | cons w words ih =>
      obtain ⟨hw, hwords⟩ : (w.toList ≠ "AND".toList ∧ w.toList ≠ "OR".toList) ∧ _ := by
        simpa [-String.reduceToList] using hjoin
      exact (flat_word hw.1 hw.2).append (ih (by simpa using hwords))
  · obtain ⟨w, hw, hplain⟩ := List.any_eq_true.1 hne
    obtain ⟨hempty, hnot⟩ : w.toList ≠ [] ∧ w.toList ≠ "NOT".toList := by
      simpa [-String.reduceToList] using hplain
    have hmem : .word w.toList ∈ words.flatMap fun w => wordToken w.toList :=
      List.mem_flatMap.2 ⟨w, hw, by simpa [wordToken] using hempty⟩
    exact ⟨.word w.toList, List.mem_append_left _ hmem, by simpa [-String.reduceToList] using hnot⟩

theorem isWhole_subquery (owner back : Ref) (target : String) {rest : List Part}
    (h : Matched (rest.flatMap partTokens)) :
    IsWhole ((subqueryParts owner back target rest).flatMap partTokens) := by
  have hselect := (matched_word "SELECT".toList).append ((matched_word back.text).append
    ((matched_phrase ["FROM", target, back.aliasName]).append h))
  rw [tokens_subqueryParts]
  exact isWhole_phrase owner.text ["IN"] (flat_brackets hselect) (by decide) (by decide)

theorem isWhole_totals (owner back : Ref) (target : String) (function : Aggregate)
    (aggregated : Ref) (symbol : Symbol) (bound : List Char) :
    IsWhole (clauseTokens (.totals owner back target function aggregated symbol bound)) := by
  refine isWhole_subquery owner back target ?_
  have hcall : Matched ((callParts function.name [.word aggregated.text]).flatMap partTokens) := by
    rw [tokens_callParts]
    refine (matched_word function.name.toList).append (matched_brackets ?_)
    simpa [partTokens] using matched_word aggregated.text
  have hhaving := hcall.append ((matched_word symbol.text).append (matched_word bound))
  have hgroup := (matched_phrase ["GROUP", "BY"]).append ((matched_word back.text).append
    ((matched_word "HAVING".toList).append hhaving))
  simpa [-String.reduceToList, tokens_phrase, partTokens, delimiterTokens] using hgroup

theorem isWhole_list (ref : Ref) (words : List String) (items : List Operand)
    (hjoin : (words.all fun w => w.toList != "AND".toList && w.toList != "OR".toList) = true)
    (hne : (words.any fun w => w.toList != [] && w.toList != "NOT".toList) = true) :
    IsWhole ((Part.word ref.text :: (phrase words ++ .mark .space :: .mark .opening ::
      (itemsParts items ++ [.mark .closing]))).flatMap partTokens) := by
  rw [List.flatMap_cons, tokens_list]
  exact isWhole_phrase ref.text words (flat_brackets (matched_itemsParts items)) hjoin hne

theorem isWhole_compareText (ref : Ref) (symbol : TextSymbol) (literal : List Char) :
    IsWhole (clauseTokens (.compareText ref symbol literal)) := by
  have htokens : clauseTokens (.compareText ref symbol literal) = wordToken "LOWER".toList ++
      (brackets (wordToken ref.text) ++ (wordToken symbol.text ++ (wordToken "LOWER".toList ++
        brackets [.literal literal]))) := by
    simp [-String.reduceToList, clauseTokens, parts, tokens_callParts, partTokens, delimiterTokens]
  have hsymbol : Flat (wordToken symbol.text) := by
    cases symbol with
    | symbol symbol => exact flat_symbol symbol
    | like => exact flat_word (by decide) (by decide)
  have hliteral : Flat (brackets [.literal literal]) := flat_brackets (.token rfl .nil)
  have hlower : Flat (wordToken "LOWER".toList) := flat_word (by decide) (by decide)
  rw [htokens]
  exact isWhole_of_flat _ ((flat_brackets (matched_word ref.text)).append
    (hsymbol.append (hlower.append hliteral))) ⟨.opening, by simp [brackets], by decide⟩

theorem isWhole_compare (ref : Ref) (symbol : Symbol) {operand : Operand}
    (h : operand.Compiled c) : IsWhole (clauseTokens (.compare ref symbol operand)) := by
  have htokens : clauseTokens (.compare ref symbol operand) = wordToken ref.text ++
      (wordToken symbol.text ++ (operandParts operand).flatMap partTokens) := by
    simp [clauseTokens, parts, partTokens, delimiterTokens]
  have hne : ∃ t ∈ wordToken symbol.text ++ (operandParts operand).flatMap partTokens,
      t ≠ .word "NOT".toList := by
    refine ⟨.word symbol.text, List.mem_append_left _ ?_, ?_⟩
    · cases symbol <;> simp [wordToken, Symbol.text]
    · cases symbol <;> decide
  rw [htokens]
  exact isWhole_of_flat _ ((flat_symbol symbol).append (flat_operandParts h)) hne

theorem isWhole_compareComponent (component : Component) (ref : Ref) (symbol : Symbol) (n : Int) :
    IsWhole (clauseTokens (.compareComponent component ref symbol n)) := by
  have htokens : clauseTokens (.compareComponent component ref symbol n) =
      wordToken component.name.toList ++ (brackets (wordToken ref.text) ++
        (wordToken symbol.text ++ wordToken (intText n))) := by
    simp [clauseTokens, parts, tokens_callParts, partTokens, delimiterTokens]
  have hright := (flat_symbol symbol).append (flat_numeral fun d hd => @mem_intText n d hd)
  rw [htokens]
  exact isWhole_of_flat _ ((flat_brackets (matched_word ref.text)).append hright)
    ⟨.opening, by simp [brackets], by decide⟩

theorem isWhole_not {clause : Clause} (h : IsWhole (clauseTokens clause)) :
    IsWhole (clauseTokens (.not clause)) := by
  obtain ⟨r, hr⟩ := h.exists_readsAs
  exact ⟨.token rfl h.matched, .not r, hr.not⟩

theorem exists_forall₂_readsAs {clauses : List Clause}
    (h : ∀ clause ∈ clauses, IsWhole (clauseTokens clause)) :
    ∃ rs, List.Forall₂ ReadsAs (clauses.map clauseTokens) rs := by
  refine exists_forall₂_of_forall fun tokens htokens => ?_
  obtain ⟨clause, hclause, rfl⟩ := List.mem_map.1 htokens
  exact (h clause hclause).exists_readsAs

theorem isWhole_group (connective : Connective) {clauses : List Clause}
    (h : ∀ clause ∈ clauses, IsWhole (clauseTokens clause)) :
    IsWhole (clauseTokens (.group connective clauses)) := by
  rw [tokens_group]
  constructor
  · refine matched_brackets (matched_joinTokens connective fun ts hts => ?_)
    obtain ⟨clause, hclause, rfl⟩ := List.mem_map.1 hts
    exact (h clause hclause).matched
  · cases clauses with
    -- No filter has an empty group, but one would do no harm.
    | nil => exact ⟨_, readsAs_nested (.refl .empty) rfl⟩
    | cons clause rest =>
      obtain ⟨rs, hrs⟩ := exists_forall₂_readsAs h
      exact ⟨_, readsAs_group hrs (by simp)⟩

/-- What a condition is compiled to is one unit for a reader. -/
theorem Compiled.isWhole {clause : Clause} (h : Compiled c a clause) :
    IsWhole (clauseTokens clause) := by
  induction h with
  | @null a ref href =>
    have hphrase := isWhole_phrase ref.text ["IS", "NULL"] .nil (by decide) (by decide)
    rwa [List.append_nil] at hphrase
  | @notNull a ref href =>
    have hphrase := isWhole_phrase ref.text ["IS", "NOT", "NULL"] .nil (by decide) (by decide)
    rwa [List.append_nil] at hphrase
  | compareText href symbol literal => exact isWhole_compareText _ symbol literal
  | compare href symbol ho => exact isWhole_compare _ symbol ho
  | compareComponent component href symbol n => exact isWhole_compareComponent component _ symbol n
  | @oneOf a ref items href hitems =>
    exact isWhole_list ref ["IN"] items (by decide) (by decide)
  | @noneOf a ref items href hitems =>
    exact isWhole_list ref ["NOT", "IN"] items (by decide) (by decide)
  | not hclause ih => exact isWhole_not ih
  | group connective hclauses ih => exact isWhole_group connective ih
  | members howner htarget halias hback hrestriction ih =>
    -- The members' restriction stays inside of brackets, so only its own brackets matter.
    exact isWhole_subquery _ _ _ (.token rfl ih.matched)
  | @totals a b target owner back aggregated bound howner htarget halias hback haggregated function
      symbol hbound =>
    exact isWhole_totals owner back target function aggregated symbol bound.text

/-- The reader's tokens are those of the clause. -/
theorem Compiled.tokens_eq {clause : Clause} (h : Compiled c a clause)
    (hnames : ∀ n ∈ c.names, isPlain n.toList = true) (halias : isPlain a.toList = true) :
    tokens clause.text = clauseTokens clause := by
  rw [← text_parts]
  refine tokens_text (separated_parts clause) fun m hm => h.avoids hm ?_ ?_
  · exact fun n hn => Text.not_mem_of_isPlain hm (hnames n hn)
  · exact Text.not_mem_of_isPlain hm halias

end Clause

/-! ## What a filter reads as -/

namespace Condition

/-- What the clause of a condition reads as when it stands alone. -/
def readingAlone (s : Scope) (c : Condition) (names : Names) : Option (Formula × Names) := do
  let (clause, names) ← (c.compile s names).toOption
  let r ← QueryText.read clause.text
  return (r, names)

mutual

/-- What a condition reads as: a negation and a group by what their members read as, and every
other condition as its clause does when it stands alone. -/
def reading (s : Scope) : Condition → Names → Option (Formula × Names)
  | .not c, names => do
    let (r, names) ← reading s c names
    return (.not r, names)
  | .group join first second more, names => do
    let (a, names) ← reading s first names
    let (b, names) ← reading s second names
    let (rest, names) ← readingAll s more names
    return (joined join (a :: b :: rest), names)
  | c, names => readingAlone s c names

/-- What all conditions read as, in turn. -/
def readingAll (s : Scope) : List Condition → Names → Option (List Formula × Names)
  | [], names => return ([], names)
  | c :: cs, names => do
    let (r, names) ← reading s c names
    let (rest, names) ← readingAll s cs names
    return (r :: rest, names)

end

variable {s : Scope}

theorem exists_readingAlone (hnames : ∀ n ∈ s.catalog.names, Clause.isPlain n.toList = true)
    (halias : Clause.isPlain s.aliasName.toList = true) {c : Condition} {names names' : Names}
    {clause : Clause} (h : c.compile s names = .ok (clause, names')) :
    ∃ r, c.readingAlone s names = some (r, names') ∧ ReadsAs (clauseTokens clause) r := by
  -- What it reads as alone is what it reads as anywhere, since its clause is one unit.
  have hcompiled := compiled_of_compile h
  obtain ⟨r, hr⟩ := hcompiled.isWhole.exists_readsAs
  have hread : QueryText.read clause.text = some r := by
    rw [QueryText.read, hcompiled.tokens_eq hnames halias]
    exact hr.run_eq
  exact ⟨r, by simp [readingAlone, h, Except.toOption, hread], hr⟩

mutual

/-- A condition reads as one unit, whatever stands around its clause. -/
theorem exists_reading (hnames : ∀ n ∈ s.catalog.names, Clause.isPlain n.toList = true)
    (halias : Clause.isPlain s.aliasName.toList = true) {names names' : Names} {clause : Clause} :
    ∀ {c : Condition}, c.compile s names = .ok (clause, names') →
      ∃ r, c.reading s names = some (r, names') ∧ ReadsAs (clauseTokens clause) r
  | .simple field op value, h => exists_readingAlone hnames halias h
  | .oneOf field values, h => exists_readingAlone hnames halias h
  | .noneOf field values, h => exists_readingAlone hnames halias h
  | .having field sub, h => exists_readingAlone hnames halias h
  | .aggregate field function op bound, h => exists_readingAlone hnames halias h
  | .not c, h => by
    obtain ⟨inner, hinner, rfl⟩ := compile_not_eq_ok h
    obtain ⟨r, hr, hunit⟩ := exists_reading hnames halias hinner
    exact ⟨.not r, by simp [reading, hr], hunit.not⟩
  | .group connective first second more, h => by
    -- The names go from member to member, so the readings do as well.
    obtain ⟨a, b, rest, names₁, names₂, ha, hb, hrest, rfl⟩ := compile_group_eq_ok h
    obtain ⟨r₁, hr₁, hunit₁⟩ := exists_reading hnames halias ha
    obtain ⟨r₂, hr₂, hunit₂⟩ := exists_reading hnames halias hb
    obtain ⟨rs, hrs, hunits⟩ := exists_readingAll hnames halias hrest
    refine ⟨joined connective (r₁ :: r₂ :: rs), by simp [reading, hr₁, hr₂, hrs], ?_⟩
    rw [Clause.tokens_group]
    exact readsAs_group (.cons hunit₁ (.cons hunit₂ hunits)) (by simp)

theorem exists_readingAll (hnames : ∀ n ∈ s.catalog.names, Clause.isPlain n.toList = true)
    (halias : Clause.isPlain s.aliasName.toList = true) {names names' : Names}
    {clauses : List Clause} :
    ∀ {cs : List Condition}, compileAll s cs names = .ok (clauses, names') →
      ∃ rs, readingAll s cs names = some (rs, names') ∧
        List.Forall₂ ReadsAs (clauses.map clauseTokens) rs
  | [], h => by
    cases compileAll_nil.symm.trans h
    exact ⟨[], rfl, .nil⟩
  | c :: cs, h => by
    obtain ⟨a, rest, names₁, ha, hrest, rfl⟩ := compileAll_cons_eq_ok h
    obtain ⟨r, hr, hunit⟩ := exists_reading hnames halias ha
    obtain ⟨rs, hrs, hunits⟩ := exists_readingAll hnames halias hrest
    exact ⟨r :: rs, by simp [readingAll, hr, hrs], .cons hunit hunits⟩

end

end Condition

/-! ## Sessions -/

namespace Session

/-- What an accepted filter reads as. -/
def Acceptance.reading (a : Acceptance) : Option Formula :=
  (a.condition.reading a.scope a.names).map Prod.fst

variable {catalog : Catalog} {history : List Acceptance} {s : Session}

theorem exists_mapM_reading {clauses : List Clause}
    (h : List.Forall₂ Acceptance.Gives history clauses)
    (hplain : ∀ a ∈ history, (∀ n ∈ a.scope.catalog.names, Clause.isPlain n.toList = true) ∧
      Clause.isPlain a.scope.aliasName.toList = true) :
    ∃ rs, history.mapM Acceptance.reading = some rs ∧
      List.Forall₂ ReadsAs (clauses.map clauseTokens) rs := by
  induction h with
  | nil => exact ⟨[], rfl, .nil⟩
  | @cons a clause history clauses hgives hrest ih =>
    obtain ⟨⟨hnames, halias⟩, hplain⟩ := List.forall_mem_cons.1 hplain
    obtain ⟨names', hcompile⟩ := hgives
    obtain ⟨r, hr, hunit⟩ := Condition.exists_reading hnames halias hcompile
    obtain ⟨rs, hrs, hunits⟩ := ih hplain
    exact ⟨r :: rs, by simp [Acceptance.reading, hr, hrs], .cons hunit hunits⟩

/-- The restriction of a query reads as the conjunction of the filters that were accepted, in turn:
whatever they hold, no two of them run into each other, and none needs brackets of its own. -/
theorem read_whereText (hrun : Run catalog history s)
    (hnames : ∀ n ∈ catalog.names, Clause.isPlain n.toList = true)
    (haliases : ∀ a ∈ history, Clause.isPlain a.scope.aliasName.toList = true) :
    ∃ rs, history.mapM Acceptance.reading = some rs ∧
      QueryText.read s.whereText = some (joined .and rs) := by
  have hplain : ∀ a ∈ history, (∀ n ∈ a.scope.catalog.names, Clause.isPlain n.toList = true) ∧
      Clause.isPlain a.scope.aliasName.toList = true := by
    intro a ha
    rw [hrun.catalog_eq.2 a ha]
    exact ⟨hnames, haliases a ha⟩
  obtain ⟨rs, hrs, hunits⟩ := exists_mapM_reading hrun.gives hplain
  refine ⟨rs, hrs, ?_⟩
  have havoids : ∀ m ∈ Clause.marks, Clause.Part.Avoids m (Clause.partsAll .and s.clauses) := by
    intro m hm
    refine Clause.avoids_partsAll hm .and (hrun.avoids hm ?_ ?_)
    · exact fun n hn => Text.not_mem_of_isPlain hm (hnames n hn)
    · exact fun a ha => Text.not_mem_of_isPlain hm (haliases a ha)
  rw [QueryText.read, whereText, ← Clause.text_partsAll,
    tokens_text (Clause.separated_partsAll .and s.clauses) havoids, Clause.tokens_partsAll]
  -- A session that accepted nothing has an empty restriction, which is no unit.
  by_cases hclauses : s.clauses = []
  · rw [hclauses] at hunits ⊢
    cases hunits
    rfl
  · exact run_joinTokens hunits (by simpa using hclauses)

/-- Not after half past nine: a negation whose member is compared hour by minute by second. -/
def notLate : Condition :=
  .not (.simple "startTime" .gt
    (some (.time ⟨9, 30, 0, 0, by decide, by decide, by decide, by decide⟩)))

/-- A text that looks like a disjunction, or someone to lead who has one in their restriction. -/
def namedOrLeading : Condition :=
  .group .or (.simple "lastName" .eq (some (.string "') OR ('")))
    (.having "reports" (.group .or (.simple "email" .null none)
      (.simple "salary" .lt (some (.long 5))) [])) []

theorem read_notLate_namedOrLeading : ∃ catalog s t u a b,
    Catalog.build Example.company = .ok catalog ∧ Session.start catalog "Employee" = .ok s ∧
    s.accept notLate = .ok t ∧ t.accept namedOrLeading = .ok u ∧
    (⟨s.scope, s.names, notLate⟩ : Acceptance).reading = some a ∧
    (⟨t.scope, t.names, namedOrLeading⟩ : Acceptance).reading = some b ∧
    QueryText.read u.whereText = some (.all [a, b]) := by
  have hrun : ((Catalog.build Example.company).toOption.any fun catalog =>
      (Session.start catalog "Employee").toOption.any fun s =>
        (s.accept notLate).toOption.any fun t =>
          (t.accept namedOrLeading).toOption.any fun _ =>
            Clause.isPlain s.scope.aliasName.toList &&
              Clause.isPlain t.scope.aliasName.toList) = true := by decide +kernel
  obtain ⟨catalog, hbuild, hrun⟩ := exists_ok_of_any hrun
  obtain ⟨s, hstart, hrun⟩ := exists_ok_of_any hrun
  obtain ⟨t, ht, hrun⟩ := exists_ok_of_any hrun
  obtain ⟨u, hu, hrun⟩ := exists_ok_of_any hrun
  obtain ⟨hs, halias⟩ := Bool.and_eq_true_iff.1 hrun
  obtain ⟨rs, hrs, hread⟩ := read_whereText (((Run.start hstart).accept _ ht).accept _ hu)
    (Example.isPlain_names hbuild) (by simpa using ⟨hs, halias⟩)
  simp only [List.nil_append, List.cons_append, List.mapM_cons, List.mapM_nil] at hrs
  obtain ⟨a, ha, hrs⟩ := Option.bind_eq_some_iff.1 hrs
  obtain ⟨bs, hbs, hrs⟩ := Option.bind_eq_some_iff.1 hrs
  obtain ⟨b, hb, hbs⟩ := Option.bind_eq_some_iff.1 hbs
  cases hbs
  cases hrs
  exact ⟨catalog, s, t, u, a, b, hbuild, hstart, ht, hu, ha, hb, hread⟩

end Session

end FilterQuery
