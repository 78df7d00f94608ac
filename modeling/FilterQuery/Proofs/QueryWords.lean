import FilterQuery.Proofs.Compiled
import FilterQuery.Proofs.Digits
import FilterQuery.Proofs.QueryText

set_option autoImplicit false

/-! # Words of a query

A reader of a query goes by spaces, brackets, commas and quotes. What a compilation writes between
them are keywords, numerals, and names: those of the catalog, the alias of the scope, and generated
ones, which are made of names of the catalog, small letters and digits. So a mark that is in no name
of the catalog and not in the alias is in no word either (`Clause.Compiled.avoids`). -/

namespace FilterQuery

open FilterQuery.Text

/-! ## Marks -/

/-- The characters that a reader of a query goes by. -/
def Clause.marks : List Char := [' ', '(', ')', ',', quoteMark]

/-- The marks, and the colon that stands in front of a parameter. -/
def Clause.separators : List Char := ':' :: marks

theorem Clause.mem_separators {m : Char} (h : m ∈ marks) : m ∈ separators :=
  List.mem_cons_of_mem _ h

/-- No character of the text is a mark. -/
def Clause.isPlain (cs : List Char) : Bool := cs.all fun c => !marks.contains c

namespace Text

/-! ### Identifiers -/

/-- A letter, a digit or an underscore; whatever is beyond ASCII counts as a letter. -/
def isNameChar (c : Char) : Bool := isLetter c || isDigit c || c == '_' || decide (0x80 ≤ c.toNat)

/-- A name that has characters, and name characters only. -/
def isIdentifier (name : String) : Bool := !name.toList.isEmpty && name.toList.all isNameChar

variable {c d m : Char} {cs : List Char}

theorem all_isNameChar_of_isIdentifier {name : String} (h : isIdentifier name = true) :
    name.toList.all isNameChar = true := (Bool.and_eq_true_iff.1 h).2

theorem ne_empty_of_isIdentifier {name : String} (h : isIdentifier name = true) : name ≠ "" := by
  rintro rfl
  exact absurd h (by decide)

theorem not_mem_of_isIdentifier {name : String} (hm : isNameChar m = false)
    (h : isIdentifier name = true) : m ∉ name.toList := by
  intro hmem
  have hname := List.all_eq_true.1 (all_isNameChar_of_isIdentifier h) m hmem
  rw [hm] at hname
  cases hname

theorem isNameChar_of_mem_separators (hm : m ∈ Clause.separators) : isNameChar m = false := by
  have hall : (Clause.separators.all fun d => !isNameChar d) = true := by decide
  simpa using List.all_eq_true.1 hall m hm

theorem all_isNameChar_numbered {stem : String} (h : stem.toList.all isNameChar = true) (n : Nat) :
    (Names.numbered stem n).toList.all isNameChar = true := by
  have hdigits : (natDigits n).all isNameChar = true := List.all_eq_true.2 fun c hc => by
    simp [isNameChar, isDigit_of_mem_toDigits hc]
  simpa [Names.numbered, hdigits, show isNameChar '_' = true by decide] using h

/-! ### Marks in words -/

theorem not_mem_of_isPlain (hm : m ∈ Clause.marks) (h : Clause.isPlain cs = true) : m ∉ cs := by
  intro hmem
  have hplain := List.all_eq_true.1 h m hmem
  simp [hm] at hplain

theorem not_mem_join {separator : List Char} {parts : List (List Char)} (hseparator : m ∉ separator)
    (h : ∀ part ∈ parts, m ∉ part) : m ∉ join separator parts := by
  fun_induction join separator parts with
  | case1 => simp
  | case2 part => exact h part List.mem_cons_self
  | case3 part parts hparts ih =>
    obtain ⟨hpart, hrest⟩ := List.forall_mem_cons.1 h
    simp [hpart, hseparator, ih hrest]

/-- A small letter is no mark: it stands behind all of them. -/
theorem toNat_of_mem_lower (h : d ∈ lower c) : d = c ∨ d.toNat = 0 ∨ 0x61 ≤ d.toNat := by
  have hspecial : (lowerSpecial.all fun entry => entry.2.all fun n => 0x61 ≤ (Char.ofNat n).toNat)
      = true := by decide
  have hranges : (lowerRanges.all fun r => decide (0x61 ≤ (r.first : Int) + r.delta)) = true := by
    decide
  rcases CaseMap.cases_of_mem_apply h with heq | ⟨entry, hentry, n, hn, rfl⟩ | ⟨r, hr, hc, rfl⟩
  · exact .inl heq
  · have himage := List.all_eq_true.1 hspecial entry hentry
    exact .inr (.inr (by simpa using List.all_eq_true.1 himage n hn))
  · have hfirst : r.first ≤ c.toNat := by
      simp only [CaseRange.contains, Bool.and_eq_true, decide_eq_true_eq] at hc
      exact hc.1.1
    have hdelta : 0x61 ≤ (r.first : Int) + r.delta := by
      simpa using List.all_eq_true.1 hranges r hr
    rcases toNat_ofNat (c.toNat + r.delta).toNat with hn | hn
    · exact .inr (.inr (by omega))
    · exact .inr (.inl hn)

/-- No character but itself has a separator in its small form. -/
theorem eq_of_mem_lower (hm : m ∈ Clause.separators) (h : m ∈ lower c) : m = c := by
  have hrange : 0 < m.toNat ∧ m.toNat < 0x61 := by
    have hall : (Clause.separators.all fun d => decide (0 < d.toNat ∧ d.toNat < 0x61)) = true := by
      decide
    simpa using List.all_eq_true.1 hall m hm
  rcases toNat_of_mem_lower h with heq | hzero | hlarge
  · exact heq
  · omega
  · omega

end Text

/-! ## Generated names -/

namespace Names

variable {m : Char}

theorem not_mem_numbered {stem : String} (hm : m ∈ Clause.separators) (h : m ∉ stem.toList)
    (n : Nat) : m ∉ (numbered stem n).toList := by
  have hmark : m ≠ '_' := by
    rintro rfl
    exact absurd hm (by decide)
  have hdigit : isDigit m = false := by
    have hall : (Clause.separators.all fun d => !isDigit d) = true := by decide
    simpa using List.all_eq_true.1 hall m hm
  have hdigits : m ∉ natDigits n :=
    not_mem_of_isDigit (fun c hc => isDigit_of_mem_toDigits hc) hdigit
  simp [numbered, h, hmark, hdigits]

theorem not_mem_aliasStem {type : String} (hm : m ∈ Clause.separators) (h : m ∉ type.toList) :
    m ∉ (aliasStem type).toList := by
  intro hmem
  obtain ⟨c, hc, hlower⟩ := List.mem_flatMap.1 (by simpa [aliasStem] using hmem)
  rw [eq_of_mem_lower hm hlower] at h
  exact h (List.mem_of_mem_take hc)

end Names

/-! ## Words of a clause -/

namespace Clause

variable {c : Catalog} {m : Char} {a : String} {ref : Ref}

theorem not_mem_numeral (hm : m ∈ separators) {cs : List Char}
    (h : ∀ d ∈ cs, isDigit d = true ∨ d ∈ numeralLetters) : m ∉ cs := by
  have hall : (separators.all fun d => !isDigit d && !numeralLetters.contains d) = true := by decide
  intro hmem
  have hplain := List.all_eq_true.1 hall m hm
  rcases h m hmem with hdigit | hletter
  · simp [hdigit] at hplain
  · simp [hletter] at hplain

theorem not_mem_ref (hm : m ∈ separators) (hc : ∀ n ∈ c.names, m ∉ n.toList) (ha : m ∉ a.toList)
    (h : c.IsPath a ref) : m ∉ ref.text := by
  have hdot : m ∉ ['.'] := by
    have hall : (separators.all fun d => ! List.contains ['.'] d) = true := by decide
    simpa using List.all_eq_true.1 hall m hm
  refine not_mem_join hdot fun part hpart => ?_
  obtain ⟨name, hname, rfl⟩ := List.mem_map.1 hpart
  rcases List.mem_cons.1 hname with rfl | hname
  · exact h.alias_eq ▸ ha
  · exact hc name (h.mem_names name hname)

theorem not_mem_alias (hm : m ∈ separators) (hc : ∀ n ∈ c.names, m ∉ n.toList) {target : String}
    (htarget : target ∈ c.names) (h : Names.IsAliasOf target a) : m ∉ a.toList := by
  obtain ⟨n, rfl⟩ := h
  exact Names.not_mem_numbered hm (Names.not_mem_aliasStem hm (hc target htarget)) n

@[simp] theorem avoids_phrase {words : List String} :
    Part.Avoids m (phrase words) ↔ ∀ w ∈ words, m ∉ w.toList := by
  induction words with
  | nil => simp [phrase]
  | cons w words ih => simpa [phrase] using fun _ => ih

@[simp] theorem avoids_callParts {function : String} {ps : List Part} :
    Part.Avoids m (callParts function ps) ↔ m ∉ function.toList ∧ Part.Avoids m ps := by
  simp [callParts]

@[simp] theorem avoids_subqueryParts (hm : m ∈ marks) {owner back : Ref} {target : String}
    {rest : List Part} : Part.Avoids m (subqueryParts owner back target rest) ↔
      m ∉ owner.text ∧ m ∉ back.text ∧ m ∉ target.toList ∧ m ∉ back.aliasName.toList ∧
        Part.Avoids m rest := by
  have hword := fun (w : String) h => @not_mem_of_isPlain m w.toList hm h
  simp (disch := decide) [-String.reduceToList, subqueryParts, hword, and_assoc]

theorem avoids_operandParts (hm : m ∈ marks) (hc : ∀ n ∈ c.names, m ∉ n.toList) {operand : Operand}
    (h : operand.Compiled c) : Part.Avoids m (operandParts operand) := by
  have hword := fun (w : String) h => @not_mem_of_isPlain m w.toList hm h
  cases h with
  | quoted cs => simp [operandParts]
  | numeral hv =>
    have hnumber := not_mem_numeral (mem_separators hm) fun d hd =>
      Value.mem_text_of_isNumeric hv hd
    simpa [operandParts] using hnumber
  | parameter hattr n =>
    have hmark : m ∉ [':'] := not_mem_of_isPlain hm (by decide)
    have hname := Names.not_mem_numbered (mem_separators hm) (hc _ hattr) n
    simpa [operandParts, hname] using hmark
  | date d => simp (disch := decide) [-String.reduceToList, operandParts, castParts, hword]
  | timestamp dt => simp (disch := decide) [-String.reduceToList, operandParts, castParts, hword]

theorem avoids_itemsParts (hm : m ∈ marks) (hc : ∀ n ∈ c.names, m ∉ n.toList)
    {items : List Operand} (h : ∀ item ∈ items, item.Compiled c) :
    Part.Avoids m (itemsParts items) := by
  have hitem : ∀ item, item.Compiled c → Part.Avoids m (itemParts item) := by
    intro item hcompiled
    cases item with
    | quoted cs => simp [itemParts]
    | _ => exact avoids_operandParts hm hc hcompiled
  fun_induction itemsParts items with
  | case1 => exact Part.avoids_nil
  | case2 item => exact hitem item (h item List.mem_cons_self)
  | case3 item rest hrest ih =>
    obtain ⟨hfirst, hrest⟩ := List.forall_mem_cons.1 h
    simpa using ⟨hitem item hfirst, ih hrest⟩

theorem avoids_partsAll (hm : m ∈ marks) (connective : Connective) {clauses : List Clause}
    (h : ∀ clause ∈ clauses, Part.Avoids m clause.parts) :
    Part.Avoids m (partsAll connective clauses) := by
  induction clauses with
  | nil => simp [partsAll]
  | cons clause rest ih =>
    obtain ⟨hclause, hrest⟩ := List.forall_mem_cons.1 h
    cases rest with
    | nil => simpa [partsAll] using hclause
    | cons next rest =>
      have hjoint : m ∉ (jointWord connective).toList :=
        not_mem_of_isPlain hm (by cases connective <;> decide)
      simpa [-String.reduceToList, partsAll, hclause, hjoint] using ih hrest

/-- A mark that is in no name of the catalog and not in the alias is in no word of a clause. -/
theorem Compiled.avoids {clause : Clause} (hm : m ∈ marks) (hc : ∀ n ∈ c.names, m ∉ n.toList)
    (ha : m ∉ a.toList) (h : Compiled c a clause) : Part.Avoids m clause.parts := by
  have hword := fun (w : String) h => @not_mem_of_isPlain m w.toList hm h
  have hs := mem_separators hm
  have hsymbol : ∀ symbol : Symbol, m ∉ symbol.text := fun symbol =>
    not_mem_of_isPlain hm (by cases symbol <;> decide)
  induction h with
  | null href =>
    simp (disch := decide) [-String.reduceToList, parts, hword, not_mem_ref hs hc ha href]
  | notNull href =>
    simp (disch := decide) [-String.reduceToList, parts, hword, not_mem_ref hs hc ha href]
  | compareText href symbol literal =>
    have htext : m ∉ symbol.text := by
      cases symbol with
      | symbol symbol => exact hsymbol symbol
      | like => exact hword "LIKE" (by decide)
    simp (disch := decide) [-String.reduceToList, parts, hword, not_mem_ref hs hc ha href, htext]
  | compare href symbol ho =>
    simp [parts, not_mem_ref hs hc ha href, hsymbol, avoids_operandParts hm hc ho]
  | compareComponent component href symbol n =>
    have hname : m ∉ component.name.toList := hword _ (by cases component <;> decide)
    have hnumber : m ∉ intText n := not_mem_numeral hs fun d hd => mem_intText hd
    simp [parts, hname, hnumber, not_mem_ref hs hc ha href, hsymbol]
  | oneOf href hitems =>
    simp (disch := decide) [-String.reduceToList, parts, hword, not_mem_ref hs hc ha href,
      avoids_itemsParts hm hc hitems]
  | noneOf href hitems =>
    simp (disch := decide) [-String.reduceToList, parts, hword, not_mem_ref hs hc ha href,
      avoids_itemsParts hm hc hitems]
  | not hclause ih => simp (disch := decide) [-String.reduceToList, parts, hword, ih ha]
  | group connective hclauses ih =>
    simpa [parts] using avoids_partsAll hm connective fun clause hmem => ih clause hmem ha
  | members howner htarget halias hback hrestriction ih =>
    have hinner := not_mem_alias hs hc htarget halias
    simp (disch := decide) [-String.reduceToList, parts, avoids_subqueryParts hm, hword,
      not_mem_ref hs hc ha howner, not_mem_ref hs hc hinner hback, hc _ htarget, hback.alias_eq,
      hinner, ih hinner]
  | totals howner htarget halias hback haggregated function symbol hbound =>
    have hinner := not_mem_alias hs hc htarget halias
    have hname : m ∉ function.name.toList := hword _ (by cases function <;> decide)
    have hnumber := not_mem_numeral hs fun d hd => Value.mem_text_of_isNumeric hbound hd
    simp (disch := decide) [-String.reduceToList, parts, avoids_subqueryParts hm, hword,
      not_mem_ref hs hc ha howner, not_mem_ref hs hc hinner hback, hc _ htarget, hback.alias_eq,
      hinner, not_mem_ref hs hc hinner haggregated, hname, hnumber, hsymbol]

end Clause

end FilterQuery
