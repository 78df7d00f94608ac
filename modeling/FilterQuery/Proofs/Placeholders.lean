import FilterQuery.Proofs.SessionRun

set_option autoImplicit false

/-! # Placeholders

A placeholder of a query is a colon with a name behind it that stands outside of all literals.
`QueryText.placeholders` reads them off the text, character by character. `Clause.parameters` are
the parameters that a clause was written with, from left to right. In a catalog of identifiers the
two are the same (`Session.Run.placeholders_eq`): a colon outside of literals stands in front of a
parameter only, and the name of the parameter ends where the reader takes it to end. -/

namespace FilterQuery

open FilterQuery.Text

/-! ## The reader -/

namespace QueryText

/-- The name that a text goes on with. -/
def nameRun : List Fragment → List Char
  | .char c :: rest => if isNameChar c then c :: nameRun rest else []
  | _ => []

/-- The names behind colons. -/
def placeholdersOf : List Fragment → List String
  | [] => []
  | .char c :: rest =>
    if c = ':' then String.ofList (nameRun rest) :: placeholdersOf rest else placeholdersOf rest
  | _ :: rest => placeholdersOf rest

/-- The placeholders of a query text, from left to right. -/
def placeholders (cs : List Char) : List String := placeholdersOf (fragments cs)

variable {cs : List Char} {rest : List Fragment}

theorem placeholdersOf_chars (h : ':' ∉ cs) (rest : List Fragment) :
    placeholdersOf (cs.map .char ++ rest) = placeholdersOf rest := by
  induction cs with
  | nil => rfl
  | cons c cs ih =>
    obtain ⟨hc, hcs⟩ : ':' ≠ c ∧ ':' ∉ cs := by simpa using h
    simp [placeholdersOf, Ne.symm hc, ih hcs]

theorem nameRun_chars (h : cs.all isNameChar = true) (hrest : nameRun rest = []) :
    nameRun (cs.map .char ++ rest) = cs := by
  induction cs with
  | nil => exact hrest
  | cons c cs ih =>
    obtain ⟨hc, hcs⟩ : isNameChar c = true ∧ cs.all isNameChar = true := by simpa using h
    simp [nameRun, hc, ih hcs]

/-- A colon and a name are one placeholder, if the name ends where the text goes on. -/
theorem placeholdersOf_placeholder {name : String} (h : name.toList.all isNameChar = true)
    (hrest : nameRun rest = []) :
    placeholdersOf ((':' :: name.toList).map .char ++ rest) = name :: placeholdersOf rest := by
  have hcolon : ':' ∉ name.toList := fun hmem =>
    absurd (List.all_eq_true.1 h ':' hmem) (by decide)
  have hname := nameRun_chars h hrest
  have hothers := placeholdersOf_chars hcolon rest
  simp [placeholdersOf, hname, hothers]

end QueryText

/-! ## The writer -/

namespace Clause

open QueryText

namespace Part

/-- The parts of a text that has the given placeholders: each is a word of its own, and no other
word has a colon in it. -/
inductive Spells : List Part → List String → Prop
  | nil : Spells [] []
  | word {cs : List Char} {ps : List Part} {names : List String} (h : ':' ∉ cs)
    (hps : Spells ps names) : Spells (.word cs :: ps) names
  | placeholder {name : String} {ps : List Part} {names : List String}
    (h : name.toList.all isNameChar = true) (hps : Spells ps names) :
    Spells (.word (':' :: name.toList) :: ps) (name :: names)
  | mark {ps : List Part} {names : List String} (d : Delimiter) (hps : Spells ps names) :
    Spells (.mark d :: ps) names
  | literal {ps : List Part} {names : List String} (cs : List Char) (hps : Spells ps names) :
    Spells (.literal cs :: ps) names
  | payload {ps : List Part} {names : List String} (cs : List Char) (hps : Spells ps names) :
    Spells (.payload cs :: ps) names

variable {ps qs : List Part} {names others : List String}

theorem Spells.append (h : Spells ps names) (h' : Spells qs others) :
    Spells (ps ++ qs) (names ++ others) := by
  induction h with
  | nil => exact h'
  | word hcs hps ih => exact .word hcs ih
  | placeholder hname hps ih => exact .placeholder hname ih
  | mark d hps ih => exact .mark d ih
  | literal cs hps ih => exact .literal cs ih
  | payload cs hps ih => exact .payload cs ih

/-- A delimiter behind the other parts adds no placeholder. -/
theorem Spells.append_mark (h : Spells ps names) (d : Delimiter) :
    Spells (ps ++ [.mark d]) names := by
  simpa using h.append (.mark d .nil)

theorem spells_phrase {words : List String} (h : ∀ w ∈ words, ':' ∉ w.toList) :
    Spells (phrase words) [] := by
  induction words with
  | nil => exact .nil
  | cons w words ih =>
    obtain ⟨hw, hwords⟩ := List.forall_mem_cons.1 h
    exact .mark _ (.word hw (ih hwords))

theorem Spells.callParts {function : String} (hfunction : ':' ∉ function.toList)
    (h : Spells ps names) : Spells (callParts function ps) names :=
  .word hfunction (.mark _ (h.append_mark _))

/-- Behind a word stands a delimiter, which ends a name. -/
theorem nameRun_fragments {cs : List Char} (h : Separated (.word cs :: ps)) :
    nameRun (ps.flatMap fragments) = [] := by
  cases ps with
  | nil => rfl
  | cons p ps =>
    have hp : p.isMark = true := by simpa [isMark] using (List.isChain_cons_cons.1 h).1
    cases p with
    | mark d => cases d <;> simp [fragments, nameRun, isNameChar, isLetter, isDigit]
    | _ => cases hp

/-- The reader finds the placeholders again. -/
theorem Spells.placeholdersOf_eq (h : Spells ps names) (hsep : Separated ps) :
    placeholdersOf (ps.flatMap fragments) = names := by
  induction h with
  | nil => rfl
  | word hcs hps ih => rw [List.flatMap_cons, fragments, placeholdersOf_chars hcs, ih hsep.tail]
  | placeholder hname hps ih =>
    rw [List.flatMap_cons, fragments, placeholdersOf_placeholder hname (nameRun_fragments hsep),
      ih hsep.tail]
  | mark d hps ih =>
    cases d <;> simpa [fragments, placeholdersOf] using ih hsep.tail
  | literal cs hps ih => simpa [fragments, placeholdersOf] using ih hsep.tail
  | payload cs hps ih => simpa [fragments, placeholdersOf] using ih hsep.tail

end Part

end Clause

/-! ## Clauses -/

/-- The parameter that an operand is. -/
def Operand.parameter? : Operand → Option String
  | .parameter name => some name
  | _ => none

namespace Clause

open FilterQuery.Clause.Part

mutual

/-- The parameters of a clause, from left to right. -/
def parameters : Clause → List String
  | .compare _ _ operand => operand.parameter?.toList
  | .oneOf _ items | .noneOf _ items => items.filterMap Operand.parameter?
  | .not clause => parameters clause
  | .group _ clauses => parametersAll clauses
  | .members _ _ _ restriction => parameters restriction
  | .null _ | .notNull _ | .compareText .. | .compareComponent .. | .totals .. => []

def parametersAll : List Clause → List String
  | [] => []
  | clause :: rest => parameters clause ++ parametersAll rest

end

variable {c : Catalog} {a : String} {ref : Ref} {clause : Clause}

theorem colon_mem_separators : ':' ∈ separators := List.mem_cons_self

theorem spells_operandParts (hc : ∀ n ∈ c.names, isIdentifier n = true) {operand : Operand}
    (h : operand.Compiled c) : Spells (operandParts operand) operand.parameter?.toList := by
  have hcast : ∀ cs type, ':' ∉ String.toList type → Spells (castParts cs type) [] := by
    intro cs type htype
    refine Spells.callParts (by decide) (.literal cs (spells_phrase fun w hw => ?_))
    rcases List.mem_cons.1 hw with rfl | hw
    · decide
    · rw [List.mem_singleton.1 hw]
      exact htype
  cases h with
  | quoted cs => exact .literal cs .nil
  | numeral hv =>
    have hnumber := not_mem_numeral colon_mem_separators fun d hd =>
      Value.mem_text_of_isNumeric hv hd
    exact .word hnumber .nil
  | parameter hattr n =>
    have hname := all_isNameChar_of_isIdentifier (hc _ hattr)
    exact .placeholder (all_isNameChar_numbered hname n) .nil
  | date d => exact hcast _ _ (by decide)
  | timestamp dt => exact hcast _ _ (by decide)

theorem spells_itemsParts (hc : ∀ n ∈ c.names, isIdentifier n = true) {items : List Operand}
    (h : ∀ item ∈ items, item.Compiled c) :
    Spells (itemsParts items) (items.filterMap Operand.parameter?) := by
  have hitem : ∀ item, item.Compiled c → Spells (itemParts item) item.parameter?.toList := by
    intro item hcompiled
    cases item with
    | quoted cs => exact .payload cs .nil
    | _ => exact spells_operandParts hc hcompiled
  fun_induction itemsParts items with
  | case1 => exact .nil
  | case2 item =>
    have hnames : [item].filterMap Operand.parameter? = item.parameter?.toList := by
      cases hp : item.parameter? <;> simp [hp]
    exact hnames ▸ hitem item (h item List.mem_cons_self)
  | case3 item rest hrest ih =>
    obtain ⟨hfirst, hrest⟩ := List.forall_mem_cons.1 h
    have hnames : (item :: rest).filterMap Operand.parameter? =
        item.parameter?.toList ++ rest.filterMap Operand.parameter? := by
      cases hp : item.parameter? <;> simp [hp]
    exact hnames ▸ (hitem item hfirst).append (.mark _ (.mark _ (ih hrest)))

theorem spells_partsAll (connective : Connective) {clauses : List Clause}
    (h : ∀ clause ∈ clauses, Spells clause.parts clause.parameters) :
    Spells (partsAll connective clauses) (parametersAll clauses) := by
  induction clauses with
  | nil => exact .nil
  | cons clause rest ih =>
    obtain ⟨hclause, hrest⟩ := List.forall_mem_cons.1 h
    cases rest with
    | nil => simpa [partsAll, parametersAll] using hclause
    | cons next rest =>
      have hjoint : ':' ∉ (jointWord connective).toList := by cases connective <;> decide
      exact hclause.append (.mark _ (.word hjoint (.mark _ (ih hrest))))

theorem spells_subqueryParts {owner back : Ref} {target : String} {rest : List Part}
    {names : List String} (howner : ':' ∉ owner.text) (hback : ':' ∉ back.text)
    (htarget : ':' ∉ target.toList) (halias : ':' ∉ back.aliasName.toList)
    (h : Spells rest names) : Spells (subqueryParts owner back target rest) names := by
  have hin : Spells (phrase ["IN"]) [] := spells_phrase (by decide)
  have hfrom : Spells (phrase ["FROM", target, back.aliasName]) [] :=
    spells_phrase (by simp [htarget, halias])
  have htail := hfrom.append (.mark .space (h.append_mark .closing))
  exact .word howner (hin.append (.mark _ (.mark _ (.word (by decide) (.mark _
    (.word hback htail))))))

/-- The placeholders of a compiled clause are its parameters. -/
theorem Compiled.spells (hc : ∀ n ∈ c.names, isIdentifier n = true) (ha : ':' ∉ a.toList)
    (h : Compiled c a clause) : Spells clause.parts clause.parameters := by
  have hs := colon_mem_separators
  have hnames : ∀ n ∈ c.names, ':' ∉ n.toList := fun n hn =>
    not_mem_of_isIdentifier (by decide) (hc n hn)
  have hsymbol : ∀ symbol : Symbol, ':' ∉ symbol.text := fun symbol => by cases symbol <;> decide
  induction h with
  | null href => exact .word (not_mem_ref hs hnames ha href) (spells_phrase (by decide))
  | notNull href => exact .word (not_mem_ref hs hnames ha href) (spells_phrase (by decide))
  | compareText href symbol literal =>
    have href := Spells.word (not_mem_ref hs hnames ha href) .nil
    have htext : ':' ∉ symbol.text := by
      cases symbol with
      | symbol symbol => exact hsymbol symbol
      | like => decide
    have hliteral : Spells (callParts "LOWER" [.payload literal]) [] :=
      Spells.callParts (by decide) (.payload literal .nil)
    exact (href.callParts (by decide)).append (.mark _ (.word htext (.mark _ hliteral)))
  | compare href symbol ho =>
    exact .word (not_mem_ref hs hnames ha href) (.mark _ (.word (hsymbol symbol) (.mark _
      (spells_operandParts hc ho))))
  | compareComponent component href symbol n =>
    have href := Spells.word (not_mem_ref hs hnames ha href) .nil
    have hname : ':' ∉ component.name.toList := by cases component <;> decide
    have hnumber : ':' ∉ intText n := not_mem_numeral hs fun d hd => mem_intText hd
    exact (href.callParts hname).append (.mark _ (.word (hsymbol symbol) (.mark _
      (.word hnumber .nil))))
  | oneOf href hitems =>
    have hlist := (spells_itemsParts hc hitems).append_mark .closing
    have hin : Spells (phrase ["IN"]) [] := spells_phrase (by decide)
    exact .word (not_mem_ref hs hnames ha href) (hin.append (.mark _ (.mark _ hlist)))
  | noneOf href hitems =>
    have hlist := (spells_itemsParts hc hitems).append_mark .closing
    have hin : Spells (phrase ["NOT", "IN"]) [] := spells_phrase (by decide)
    exact .word (not_mem_ref hs hnames ha href) (hin.append (.mark _ (.mark _ hlist)))
  | not hclause ih => exact .word (by decide) (.mark _ (ih ha))
  | group connective hclauses ih =>
    have hall := spells_partsAll connective fun clause hmem => ih clause hmem ha
    exact .mark _ (hall.append_mark _)
  | members howner htarget halias hback hrestriction ih =>
    have hinner := not_mem_alias hs hnames htarget halias
    exact spells_subqueryParts (not_mem_ref hs hnames ha howner)
      (not_mem_ref hs hnames hinner hback) (hnames _ htarget) (hback.alias_eq ▸ hinner)
      (.word (by decide) (.mark _ (ih hinner)))
  | totals howner htarget halias hback haggregated function symbol hbound =>
    have hinner := not_mem_alias hs hnames htarget halias
    have hback' := not_mem_ref hs hnames hinner hback
    have hname : ':' ∉ function.name.toList := by cases function <;> decide
    have hnumber := not_mem_numeral hs fun d hd => Value.mem_text_of_isNumeric hbound hd
    have hcall := (Spells.word (not_mem_ref hs hnames hinner haggregated) .nil).callParts hname
    have htail := hcall.append (.mark .space (.word (hsymbol symbol) (.mark .space
      (.word hnumber .nil))))
    refine spells_subqueryParts (not_mem_ref hs hnames ha howner) hback' (hnames _ htarget)
      (hback.alias_eq ▸ hinner) ?_
    exact .word (by decide) (.mark _ (.word (by decide) (.mark _ (.word hback' (.mark _
      (.word (by decide) (.mark _ htail)))))))

end Clause

/-! ## Sessions -/

/-- A reader of the restriction of a session finds the parameters of its clauses, and no other
placeholders. -/
theorem Session.Run.placeholders_eq {catalog : Catalog} {history : List Session.Acceptance}
    {s : Session} (h : Session.Run catalog history s)
    (hnames : ∀ n ∈ catalog.names, isIdentifier n = true)
    (haliases : ∀ a ∈ history, ∀ m ∈ Clause.separators, m ∉ a.scope.aliasName.toList) :
    QueryText.placeholders s.whereText = Clause.parametersAll s.clauses := by
  have hspells : ∀ clause ∈ s.clauses, Clause.Part.Spells clause.parts clause.parameters := by
    intro clause hclause
    obtain ⟨a, ha, names, hcompile⟩ := h.exists_gives clause hclause
    have hcompiled := Condition.compiled_of_compile hcompile
    rw [h.catalog_eq.2 a ha] at hcompiled
    exact hcompiled.spells hnames (haliases a ha ':' (by decide))
  have havoids := h.avoids (show quoteMark ∈ Clause.marks by decide)
    (fun n hn => not_mem_of_isIdentifier (by decide) (hnames n hn))
    (fun a ha => haliases a ha quoteMark (by decide))
  rw [QueryText.placeholders, Session.fragments_whereText havoids]
  exact (Clause.spells_partsAll .and hspells).placeholdersOf_eq
    (Clause.separated_partsAll .and s.clauses)

end FilterQuery
