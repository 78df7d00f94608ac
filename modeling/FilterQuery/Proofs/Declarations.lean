import FilterQuery.Proofs.BooleanStructure
import FilterQuery.Proofs.Correlation
import FilterQuery.Proofs.FreshNames

set_option autoImplicit false

/-! # Declarations of aliases

A subquery declares an alias behind `FROM`, for the entity type in front of it.
`QueryText.declarations` reads them off the text of a restriction, and `Clause.declared` are those
that a clause was written with. The compiler takes a new alias for each subquery, and one register
serves all filters of a session, so no two declarations meet, nor does any meet the alias of the
entity itself (`Session.WellScoped`). -/

namespace FilterQuery

open FilterQuery.Text

/-! ## The reader -/

namespace QueryText

/-- The entity types and aliases behind `FROM`. Two words have to follow: where `FROM` is itself an
alias, something else does. -/
def declarationsOf : List Token → List (String × String)
  | [] => []
  | .word a :: .word b :: .word c :: rest =>
    if a = "FROM".toList then (String.ofList b, String.ofList c) :: declarationsOf rest
    else declarationsOf (.word b :: .word c :: rest)
  | _ :: rest => declarationsOf rest

/-- The entity types that the subqueries of a text select from, each with its alias. -/
def declarations (cs : List Char) : List (String × String) := declarationsOf (tokens cs)

variable {cs : List Char}

theorem declarationsOf_cons_of_ne {t : Token} (h : t ≠ .word "FROM".toList) (rest : List Token) :
    declarationsOf (t :: rest) = declarationsOf rest := by
  rw [declarationsOf.eq_def]
  split
  · next heq => cases heq
  · next a b c rest' heq =>
    cases heq
    rw [if_neg fun hfrom => h (by rw [hfrom])]
  · next heq => cases heq; rfl

theorem declarationsOf_word (h : cs ≠ "FROM".toList) (rest : List Token) :
    declarationsOf (wordToken cs ++ rest) = declarationsOf rest := by
  unfold wordToken
  split
  · rfl
  · exact declarationsOf_cons_of_ne (fun heq => h (Token.word.inj heq)) rest

/-- Any word may stand in front of `IN` and a bracket. -/
theorem declarationsOf_owner (cs : List Char) (rest : List Token) :
    declarationsOf (wordToken cs ++ .word "IN".toList :: .opening :: rest) =
      declarationsOf rest := by
  have hrest : declarationsOf (.word "IN".toList :: .opening :: rest) = declarationsOf rest := by
    rw [declarationsOf_cons_of_ne (by decide), declarationsOf_cons_of_ne (by decide)]
  by_cases hfrom : cs = "FROM".toList
  · subst hfrom
    exact hrest
  · rw [declarationsOf_word hfrom, hrest]

end QueryText

/-! ## The writer -/

namespace Clause

open QueryText

namespace Part

/-- The parts of a text with the given declarations. No other word is `FROM`, unless `IN` and a
bracket stand behind it. -/
inductive Declares : List Part → List (String × String) → Prop
  | nil : Declares [] []
  | word {cs : List Char} {ps : List Part} {ds : List (String × String)}
    (h : cs ≠ "FROM".toList) (hps : Declares ps ds) : Declares (.word cs :: ps) ds
  | owner {ps : List Part} {ds : List (String × String)} (cs : List Char) (hps : Declares ps ds) :
    Declares (.word cs :: .mark .space :: .word "IN".toList :: .mark .space :: .mark .opening :: ps)
      ds
  | source {target aliasName : String} {ps : List Part} {ds : List (String × String)}
    (htarget : target ≠ "") (halias : aliasName ≠ "") (hps : Declares ps ds) :
    Declares (.word "FROM".toList :: .mark .space :: .word target.toList :: .mark .space ::
      .word aliasName.toList :: ps) ((target, aliasName) :: ds)
  | mark {ps : List Part} {ds : List (String × String)} (d : Delimiter) (hps : Declares ps ds) :
    Declares (.mark d :: ps) ds
  | literal {ps : List Part} {ds : List (String × String)} (cs : List Char)
    (hps : Declares ps ds) : Declares (.literal cs :: ps) ds
  | payload {ps : List Part} {ds : List (String × String)} (cs : List Char)
    (hps : Declares ps ds) : Declares (.payload cs :: ps) ds

variable {ps qs : List Part} {ds es : List (String × String)}

theorem Declares.append (h : Declares ps ds) (h' : Declares qs es) :
    Declares (ps ++ qs) (ds ++ es) := by
  induction h with
  | nil => exact h'
  | word hcs hps ih => exact .word hcs ih
  | owner cs hps ih => exact .owner cs ih
  | source htarget halias hps ih => exact .source htarget halias ih
  | mark d hps ih => exact .mark d ih
  | literal cs hps ih => exact .literal cs ih
  | payload cs hps ih => exact .payload cs ih

theorem Declares.append_mark (h : Declares ps ds) (d : Delimiter) :
    Declares (ps ++ [.mark d]) ds := by
  simpa using h.append (.mark d .nil)

theorem declares_phrase {words : List String} (h : ∀ w ∈ words, w.toList ≠ "FROM".toList) :
    Declares (phrase words) [] := by
  induction words with
  | nil => exact .nil
  | cons w words ih =>
    obtain ⟨hw, hwords⟩ := List.forall_mem_cons.1 h
    exact .mark _ (.word hw (ih hwords))

theorem Declares.callParts {function : String} (hfunction : function.toList ≠ "FROM".toList)
    (h : Declares ps ds) : Declares (callParts function ps) ds :=
  .word hfunction (.mark _ (h.append_mark _))

/-- The reader finds the declarations again. -/
theorem Declares.declarationsOf_eq (h : Declares ps ds) :
    declarationsOf (ps.flatMap partTokens) = ds := by
  induction h with
  | nil => rfl
  | word hcs hps ih => rw [List.flatMap_cons, partTokens, declarationsOf_word hcs, ih]
  | @owner ps ds cs hps ih =>
    rw [← ih]
    exact declarationsOf_owner cs _
  | @source target aliasName ps ds htarget halias hps ih =>
    have htarget' : wordToken target.toList = [.word target.toList] := by simp [wordToken, htarget]
    have halias' : wordToken aliasName.toList = [.word aliasName.toList] := by
      simp [wordToken, halias]
    have htokens : (Part.word "FROM".toList :: .mark .space :: .word target.toList ::
        .mark .space :: .word aliasName.toList :: ps).flatMap partTokens =
        .word "FROM".toList :: .word target.toList :: .word aliasName.toList ::
          ps.flatMap partTokens := by
      simp only [List.flatMap_cons, partTokens, delimiterTokens, htarget', halias']
      rfl
    rw [htokens, declarationsOf, if_pos rfl, ih, String.ofList_toList, String.ofList_toList]
  | mark d hps ih =>
    rw [List.flatMap_cons, ← ih]
    cases d with
    | space => rfl
    | _ => exact declarationsOf_cons_of_ne (by simp) _
  | literal cs hps ih =>
    rw [List.flatMap_cons, ← ih]
    exact declarationsOf_cons_of_ne (by simp) _
  | payload cs hps ih =>
    rw [List.flatMap_cons, ← ih]
    exact declarationsOf_cons_of_ne (by simp) _

end Part

/-! ## Clauses -/

mutual

/-- The entity types that the subqueries of a clause select from, each with its alias. -/
def declared : Clause → List (String × String)
  | .not clause => declared clause
  | .group _ clauses => declaredAll clauses
  | .members _ back target restriction => (target, back.aliasName) :: declared restriction
  | .totals _ back target _ _ _ _ => [(target, back.aliasName)]
  | _ => []

def declaredAll : List Clause → List (String × String)
  | [] => []
  | clause :: rest => declared clause ++ declaredAll rest

end

open FilterQuery.Clause.Part

variable {c : Catalog} {type a : String} {ref : Ref} {clause : Clause}

theorem declaredAll_append {clauses more : List Clause} :
    declaredAll (clauses ++ more) = declaredAll clauses ++ declaredAll more := by
  induction clauses with
  | nil => rfl
  | cons clause clauses ih => simp [declaredAll, ih]

mutual

/-- A path stands in the scope of its clause, or in one that the clause declares. -/
theorem scope_mem_of_mem_paths {p : Path} {type a : String} : ∀ {clause : Clause},
    p ∈ clause.paths type a → (p.type, p.aliasName) ∈ (type, a) :: clause.declared
  | .null _, h | .notNull _, h | .compareText .., h | .compare .., h | .compareComponent .., h
  | .oneOf .., h | .noneOf .., h => by
    rw [List.mem_singleton.1 h]
    exact List.mem_cons_self
  | .not clause, h => by
    rw [declared]
    exact scope_mem_of_mem_paths h
  | .group _ clauses, h => by
    rw [declared]
    exact scope_mem_of_mem_pathsAll h
  | .members owner back target restriction, h => by
    rw [declared]
    rcases List.mem_cons.1 h with rfl | h
    · exact List.mem_cons_self
    · refine List.mem_cons_of_mem _ ?_
      rcases List.mem_cons.1 h with rfl | h
      · exact List.mem_cons_self
      · exact scope_mem_of_mem_paths h
  | .totals owner back target _ _ _ _, h => by
    simp only [paths, List.mem_cons, List.not_mem_nil, or_false] at h
    rcases h with rfl | rfl | rfl <;> simp [declared]

theorem scope_mem_of_mem_pathsAll {p : Path} {type a : String} : ∀ {clauses : List Clause},
    p ∈ pathsAll type a clauses → (p.type, p.aliasName) ∈ (type, a) :: declaredAll clauses
  | [], h => by cases h
  | clause :: rest, h => by
    rw [declaredAll, ← List.cons_append]
    rcases List.mem_append.1 h with h | h
    · exact List.mem_append_left _ (scope_mem_of_mem_paths h)
    · rcases List.mem_cons.1 (scope_mem_of_mem_pathsAll h) with heq | h
      · exact heq ▸ List.mem_cons_self
      · exact List.mem_append_right _ h

end

/-- A path with a segment has a dot in it. -/
theorem Ref.text_ne_from (h : ref.path ≠ []) : ref.text ≠ "FROM".toList := by
  intro heq
  have hdot : '.' ∈ ref.text := by
    obtain ⟨name, path, hpath⟩ := List.exists_cons_of_ne_nil h
    simp [Ref.text, hpath, join]
  rw [heq] at hdot
  exact absurd hdot (by decide)

/-- No numeral is a word. -/
theorem numeral_ne_from {cs : List Char}
    (h : ∀ d ∈ cs, isDigit d = true ∨ d ∈ numeralLetters) : cs ≠ "FROM".toList := by
  rintro rfl
  exact absurd (h 'F' (by decide)) (by decide)

theorem declares_operandParts {operand : Operand} (h : operand.Compiled c) :
    Declares (operandParts operand) [] := by
  cases h with
  | quoted cs => exact .literal cs .nil
  | numeral hv =>
    exact .word (numeral_ne_from fun d hd => Value.mem_text_of_isNumeric hv hd) .nil
  | parameter hattr n => exact .word (by simp) .nil
  | date d => exact (Declares.literal _ (declares_phrase (by decide))).callParts (by decide)
  | timestamp dt => exact (Declares.literal _ (declares_phrase (by decide))).callParts (by decide)

theorem declares_itemsParts {items : List Operand} (h : ∀ item ∈ items, item.Compiled c) :
    Declares (itemsParts items) [] := by
  have hitem : ∀ item, item.Compiled c → Declares (itemParts item) [] := by
    intro item hcompiled
    cases item with
    | quoted cs => exact .payload cs .nil
    | _ => exact declares_operandParts hcompiled
  fun_induction itemsParts items with
  | case1 => exact .nil
  | case2 item => exact hitem item (h item List.mem_cons_self)
  | case3 item rest hrest ih =>
    obtain ⟨hfirst, hrest⟩ := List.forall_mem_cons.1 h
    exact (hitem item hfirst).append (.mark _ (.mark _ (ih hrest)))

theorem declares_partsAll (connective : Connective) {clauses : List Clause}
    (h : ∀ clause ∈ clauses, Declares clause.parts clause.declared) :
    Declares (partsAll connective clauses) (declaredAll clauses) := by
  induction clauses with
  | nil => exact .nil
  | cons clause rest ih =>
    obtain ⟨hclause, hrest⟩ := List.forall_mem_cons.1 h
    cases rest with
    | nil => simpa [partsAll, declaredAll] using hclause
    | cons next rest =>
      have hjoint : (jointWord connective).toList ≠ "FROM".toList := by
        cases connective <;> decide
      exact hclause.append (.mark _ (.word hjoint (.mark _ (ih hrest))))

theorem declares_subqueryParts {owner back : Ref} {target : String} {rest : List Part}
    {ds : List (String × String)} (hback : back.path ≠ []) (htarget : target ≠ "")
    (halias : back.aliasName ≠ "") (h : Declares rest ds) :
    Declares (subqueryParts owner back target rest) ((target, back.aliasName) :: ds) := by
  have hselect : Declares (.word "SELECT".toList :: .mark .space :: .word back.text ::
      .mark .space :: .word "FROM".toList :: .mark .space :: .word target.toList :: .mark .space ::
        .word back.aliasName.toList :: .mark .space :: (rest ++ [.mark .closing]))
      ((target, back.aliasName) :: ds) :=
    .word (by decide) (.mark _ (.word (Ref.text_ne_from hback) (.mark _
      (.source htarget halias (.mark _ (h.append_mark _))))))
  exact .owner owner.text hselect

theorem ne_empty_of_isAliasOf {target : String} (h : Names.IsAliasOf target a) : a ≠ "" := by
  obtain ⟨n, rfl⟩ := h
  intro hempty
  have htext := congrArg String.toList hempty
  simp [Names.toList_numbered] at htext

/-- The declarations in the text of a compiled clause are those that it was written with. -/
theorem Compiled.declares (hc : ∀ n ∈ c.names, isIdentifier n = true) (h : Compiled c a clause) :
    ∀ {type : String}, (∀ p ∈ clause.paths type a, p.role ≠ .owner → p.ref.path ≠ []) →
      Declares clause.parts clause.declared := by
  have hsymbol : ∀ symbol : Symbol, symbol.text ≠ "FROM".toList := fun symbol => by
    cases symbol <;> decide
  have hleaf : ∀ {type a : String} {ref : Ref},
      (∀ p ∈ [(⟨.compared, type, a, ref⟩ : Path)], p.role ≠ .owner → p.ref.path ≠ []) →
      ref.text ≠ "FROM".toList := fun hpaths =>
    Ref.text_ne_from (hpaths _ List.mem_cons_self nofun)
  induction h with
  | null href =>
    intro type hpaths
    exact .word (hleaf hpaths) (declares_phrase (by decide))
  | notNull href =>
    intro type hpaths
    exact .word (hleaf hpaths) (declares_phrase (by decide))
  | compareText href symbol literal =>
    intro type hpaths
    have hpath := Declares.word (hleaf hpaths) .nil
    have htext : symbol.text ≠ "FROM".toList := by
      cases symbol with
      | symbol symbol => exact hsymbol symbol
      | like => decide
    have hliteral : Declares (callParts "LOWER" [.payload literal]) [] :=
      Declares.callParts (by decide) (.payload literal .nil)
    exact (hpath.callParts (by decide)).append (.mark _ (.word htext (.mark _ hliteral)))
  | compare href symbol ho =>
    intro type hpaths
    exact .word (hleaf hpaths) (.mark _ (.word (hsymbol symbol) (.mark _
      (declares_operandParts ho))))
  | compareComponent component href symbol n =>
    intro type hpaths
    have hpath := Declares.word (hleaf hpaths) .nil
    have hname : component.name.toList ≠ "FROM".toList := by cases component <;> decide
    have hnumber : intText n ≠ "FROM".toList := numeral_ne_from fun d hd => mem_intText hd
    exact (hpath.callParts hname).append (.mark _ (.word (hsymbol symbol) (.mark _
      (.word hnumber .nil))))
  | oneOf href hitems =>
    intro type hpaths
    have hlist := (declares_itemsParts hitems).append_mark .closing
    have hin : Declares (phrase ["IN"]) [] := declares_phrase (by decide)
    exact .word (hleaf hpaths) (hin.append (.mark _ (.mark _ hlist)))
  | noneOf href hitems =>
    intro type hpaths
    have hlist := (declares_itemsParts hitems).append_mark .closing
    have hin : Declares (phrase ["NOT", "IN"]) [] := declares_phrase (by decide)
    exact .word (hleaf hpaths) (hin.append (.mark _ (.mark _ hlist)))
  | not hclause ih =>
    intro type hpaths
    exact .word (by decide) (.mark _ (ih hpaths))
  | group connective hclauses ih =>
    intro type hpaths
    have hall := declares_partsAll connective fun clause hmem =>
      ih clause hmem fun p hp => hpaths p (mem_pathsAll_iff.2 ⟨clause, hmem, hp⟩)
    exact .mark _ (hall.append_mark _)
  | members howner htarget halias hback hrestriction ih =>
    intro type hpaths
    obtain rfl := hback.alias_eq
    simp only [paths, List.forall_mem_cons] at hpaths
    obtain ⟨-, hback', hpaths⟩ := hpaths
    exact declares_subqueryParts (hback' (by decide)) (ne_empty_of_isIdentifier (hc _ htarget))
      (ne_empty_of_isAliasOf halias) (.word (by decide) (.mark _ (ih hpaths)))
  | totals howner htarget halias hback haggregated function symbol hbound =>
    intro type hpaths
    have hname : function.name.toList ≠ "FROM".toList := by cases function <;> decide
    have hnumber := numeral_ne_from fun d hd => Value.mem_text_of_isNumeric hbound hd
    simp only [paths, List.forall_mem_cons] at hpaths
    obtain ⟨-, hback', haggregated', -⟩ := hpaths
    have hpath := Declares.word (Ref.text_ne_from (haggregated' (by decide))) .nil
    have htail := (hpath.callParts hname).append (.mark .space (.word (hsymbol symbol)
      (.mark .space (.word hnumber .nil))))
    refine declares_subqueryParts (hback' (by decide)) (ne_empty_of_isIdentifier (hc _ htarget))
      (hback.alias_eq ▸ ne_empty_of_isAliasOf halias) ?_
    exact .word (by decide) (.mark _ (.word (by decide) (.mark _
      (.word (Ref.text_ne_from (hback' (by decide))) (.mark _ (.word (by decide)
        (.mark _ htail)))))))

end Clause

/-! ## The register of aliases -/

/-- The register has taken in aliases that are new to it, and no two of them the same. -/
structure Names.Adds (names : Names) (added : List String) (names' : Names) : Prop where
  nodup : added.Nodup
  not_mem : ∀ a ∈ added, a ∉ names.aliases
  mem_iff : ∀ a, a ∈ names'.aliases ↔ a ∈ names.aliases ∨ a ∈ added

namespace Names

variable {names names₁ names₂ : Names} {added more : List String}

theorem adds_nil (h : names₁.aliases = names.aliases) : names.Adds [] names₁ :=
  ⟨.nil, by simp, by simp [h]⟩

theorem adds_nextAlias (names : Names) (type : String) :
    names.Adds [(names.nextAlias type).1] (names.nextAlias type).2 where
  nodup := List.nodup_singleton _
  not_mem := by simpa [nextAlias] using fresh_not_mem names.aliases (aliasStem type)
  mem_iff := by simp [nextAlias, registerAlias, or_comm]

theorem Adds.trans (h : names.Adds added names₁) (h' : names₁.Adds more names₂) :
    names.Adds (added ++ more) names₂ where
  nodup := by
    refine List.nodup_append'.2 ⟨h.nodup, h'.nodup, fun a ha hmore => ?_⟩
    exact h'.not_mem a hmore ((h.mem_iff a).2 (.inr ha))
  not_mem := by
    intro a ha hmem
    rcases List.mem_append.1 ha with ha | ha
    · exact h.not_mem a ha hmem
    · exact h'.not_mem a ha ((h.mem_iff a).2 (.inl hmem))
  mem_iff := by
    intro a
    rw [h'.mem_iff, h.mem_iff, List.mem_append, or_assoc]

end Names

namespace Scope

variable {s : Scope} {field : String} {op : Operator} {names names' : Names} {clause : Clause}

theorem declared_of_compares {c : Catalog} {ref : Ref} {value : Value}
    (h : Compares c ref op value clause) : clause.declared = [] := by
  cases h with
  | row hvalue row hrow =>
    refine Clause.compareRow?_induction (P := fun clause => clause.declared = [])
      (fun _ _ _ => rfl) ?_ hrow
    intro connective clauses hclauses
    rw [Clause.declared]
    induction clauses with
    | nil => rfl
    | cons clause clauses ih =>
      obtain ⟨hclause, hclauses⟩ := List.forall_mem_cons.1 hclauses
      rw [Clause.declaredAll, hclause, ih hclauses, List.nil_append]
  | _ => rfl

theorem adds_of_simple {value : Option Value}
    (h : s.simple field op value names = .ok (clause, names')) :
    names.Adds (clause.declared.map Prod.snd) names' := by
  have hdeclared : clause.declared = [] := by
    obtain ⟨ref, -, ⟨-, rfl⟩ | ⟨-, rfl⟩ | ⟨-, -, v, -, hv⟩⟩ := simple_cases h
    · rfl
    · rfl
    · exact declared_of_compares hv
  obtain ⟨parameters, rfl⟩ := names_of_simple h
  rw [hdeclared]
  exact Names.adds_nil rfl

theorem adds_of_aggregate {function : Aggregate} {bound : Value}
    (h : s.aggregate field function op bound names = .ok (clause, names')) :
    names.Adds (clause.declared.map Prod.snd) names' := by
  obtain ⟨hop, ownerId, aggregated, symbol, -, -, -, -, -, rfl, rfl⟩ := aggregate_eq_ok h
  exact names.adds_nextAlias hop.target

end Scope

namespace Condition

mutual

/-- A condition declares aliases that are new, and the register knows them afterwards. -/
theorem adds_of_compile {s : Scope} {names names' : Names} {clause : Clause} :
    ∀ {c : Condition}, c.compile s names = .ok (clause, names') →
      names.Adds (clause.declared.map Prod.snd) names'
  | .simple field op value, h => Scope.adds_of_simple (compile_simple.symm.trans h)
  | .oneOf field values, h => by
    obtain ⟨ref, items, -, rfl, rfl⟩ := compile_oneOf_eq_ok h
    exact Names.adds_nil rfl
  | .noneOf field values, h => by
    obtain ⟨ref, items, -, rfl, rfl⟩ := compile_noneOf_eq_ok h
    exact Names.adds_nil rfl
  | .not c, h => by
    obtain ⟨inner, hinner, rfl⟩ := compile_not_eq_ok h
    have hadds := adds_of_compile hinner
    exact hadds
  | .group connective first second more, h => by
    obtain ⟨a, b, rest, names₁, names₂, ha, hb, hrest, rfl⟩ := compile_group_eq_ok h
    have hadds := (adds_of_compile ha).trans ((adds_of_compile hb).trans (adds_of_compileAll hrest))
    simpa [Clause.declared, Clause.declaredAll] using hadds
  | .having field sub, h => by
    obtain ⟨hop, restriction, names₁, -, -, hsub, rfl, rfl⟩ := compile_having_eq_ok h
    -- Entering and leaving a level touches no alias.
    have hnext := names.adds_nextAlias hop.target
    generalize names.nextAlias hop.target = next at hsub hnext ⊢
    have hinner := adds_of_compile hsub
    have hadds := hnext.trans ⟨hinner.nodup, hinner.not_mem, hinner.mem_iff⟩
    exact ⟨hadds.nodup, hadds.not_mem, hadds.mem_iff⟩
  | .aggregate field function op bound, h =>
    Scope.adds_of_aggregate (compile_aggregate.symm.trans h)

theorem adds_of_compileAll {s : Scope} {names names' : Names} {clauses : List Clause} :
    ∀ {cs : List Condition}, compileAll s cs names = .ok (clauses, names') →
      names.Adds ((Clause.declaredAll clauses).map Prod.snd) names'
  | [], h => by
    cases compileAll_nil.symm.trans h
    exact Names.adds_nil rfl
  | c :: cs, h => by
    obtain ⟨a, rest, names₁, ha, hrest, rfl⟩ := compileAll_cons_eq_ok h
    have hadds := (adds_of_compile ha).trans (adds_of_compileAll hrest)
    simpa [Clause.declaredAll] using hadds

end

end Condition

/-! ## Sessions -/

namespace Session

/-- A step that says how filters and orderings are to be compiled. -/
def Step.isSetting : Step → Bool
  | .withAlias _ | .withRename _ | .withOptions _ => true
  | .orderBy _ | .accept _ => false

def Step.isAlias : Step → Bool
  | .withAlias _ => true
  | _ => false

/-- A session whose paths keep to their scopes and whose register knows the alias of the entity and
those of all subqueries, no two of them the same. -/
structure WellScoped (catalog : Catalog) (entity : String) (s : Session) : Prop where
  catalog_eq : s.scope.catalog = catalog
  entity_eq : s.scope.entity = entity
  nodup : (s.scope.aliasName :: (Clause.declaredAll s.clauses).map Prod.snd).Nodup
  mem_aliases : ∀ a, a ∈ s.names.aliases ↔
    a ∈ s.scope.aliasName :: (Clause.declaredAll s.clauses).map Prod.snd
  compiled : ∀ clause ∈ s.clauses, clause.Compiled catalog s.scope.aliasName
  inScope : ∀ p ∈ Clause.pathsAll entity s.scope.aliasName s.clauses, p.Scoped catalog
  ordered : ∀ term ∈ s.ordering, ∃ attr type,
    catalog.Leads entity s.scope.aliasName term.ref attr ∧ attr.scalarType? = some type

variable {catalog : Catalog} {entity : String} {s t : Session} {step : Step} {steps : List Step}

theorem wellScoped_start (h : Session.start catalog entity = .ok s) :
    s.WellScoped catalog entity ∧ s.clauses = [] ∧ s.ordering = [] := by
  obtain ⟨-, rfl⟩ := start_cases h
  refine ⟨⟨rfl, rfl, ?_, ?_, ?_, ?_, ?_⟩, rfl, rfl⟩
  · simp [Clause.declaredAll]
  · simp [Clause.declaredAll, Names.nextAlias, Names.registerAlias, Names.empty]
  · simp
  · simp [Clause.pathsAll]
  · simp

/-- As long as nothing was written, the alias of the entity can change: the register forgets the old
one. -/
theorem WellScoped.withAlias (h : s.WellScoped catalog entity) (hclauses : s.clauses = [])
    (hordering : s.ordering = []) (aliasName : String) :
    (s.withAlias aliasName).WellScoped catalog entity where
  catalog_eq := h.catalog_eq
  entity_eq := h.entity_eq
  nodup := by simp [Session.withAlias, hclauses, Clause.declaredAll]
  mem_aliases := by
    intro a
    have hmem := h.mem_aliases a
    simp only [hclauses, Clause.declaredAll, List.map_nil, List.mem_singleton] at hmem
    simp only [Session.withAlias, Names.registerAlias, Names.releaseAlias, hclauses,
      Clause.declaredAll, List.map_nil, List.mem_singleton, List.mem_insert_iff, List.mem_filter,
      hmem, bne_iff_ne]
    constructor
    · rintro (heq | ⟨heq, hne⟩)
      · exact heq
      · exact absurd heq hne
    · exact .inl
  compiled := by simp [Session.withAlias, hclauses]
  inScope := by simp [Session.withAlias, hclauses, Clause.pathsAll]
  ordered := by simp [Session.withAlias, hordering]

theorem WellScoped.orderBy {sorting : Sorting} (h : s.WellScoped catalog entity)
    (ht : s.orderBy sorting = .ok t) : t.WellScoped catalog entity := by
  rw [orderBy_eq] at ht
  obtain ⟨ordering, hterms, heq⟩ := bind_eq_ok_iff.1 ht
  cases heq
  refine ⟨h.catalog_eq, h.entity_eq, h.nodup, h.mem_aliases, h.compiled, h.inScope, ?_⟩
  intro term hterm
  obtain ⟨criterion, -, hcriterion⟩ := exists_of_mem_mapM hterms term hterm
  unfold Scope.orderTerm at hcriterion
  split at hcriterion
  · next ref attr hresolve =>
    have hleads := Scope.leads_of_resolve hresolve
    rw [h.catalog_eq, h.entity_eq] at hleads
    split at hcriterion
    · cases hcriterion
    · next hassociation =>
      cases hcriterion
      cases hkind : attr.kind with
      | scalar type => exact ⟨attr, type, hleads, by simp [Attribute.scalarType?, hkind]⟩
      | association kind target mappedBy => simp [Attribute.isAssociation, hkind] at hassociation
  · cases hcriterion

theorem WellScoped.accept {condition : Condition} (hc : catalog.WellFormed)
    (hnames : ∀ n ∈ catalog.names, isIdentifier n = true) (htype : catalog.hasType entity = true)
    (h : s.WellScoped catalog entity) (ht : s.accept condition = .ok t) :
    t.WellScoped catalog entity := by
  obtain ⟨hcatalog, hentity, hnodup, hmem, hcompiled, hscoped, hordered⟩ := h
  subst hcatalog hentity
  obtain ⟨clause, names, hcompile, rfl⟩ := accept_eq_ok_iff.1 ht
  have hadds := Condition.adds_of_compile hcompile
  have hdeclared : (Clause.declaredAll (s.clauses ++ [clause])).map Prod.snd =
      (Clause.declaredAll s.clauses).map Prod.snd ++ clause.declared.map Prod.snd := by
    simp [Clause.declaredAll_append, Clause.declaredAll]
  refine ⟨rfl, rfl, ?_, ?_, ?_, ?_, hordered⟩
  · rw [hdeclared, ← List.cons_append]
    refine List.nodup_append'.2 ⟨hnodup, hadds.nodup, fun a ha hnew => ?_⟩
    exact hadds.not_mem a hnew ((hmem a).2 ha)
  · intro a
    rw [hdeclared, ← List.cons_append, List.mem_append, ← hmem]
    exact hadds.mem_iff a
  · intro clause' hclause
    rcases List.mem_append.1 hclause with hclause | hclause
    · exact hcompiled clause' hclause
    · rw [List.mem_singleton.1 hclause]
      exact Condition.compiled_of_compile hcompile
  · intro p hp
    obtain ⟨clause', hclause, hp⟩ := Clause.mem_pathsAll_iff.1 hp
    rcases List.mem_append.1 hclause with hclause | hclause
    · exact hscoped p (Clause.mem_pathsAll_iff.2 ⟨clause', hclause, hp⟩)
    · rw [List.mem_singleton.1 hclause] at hp
      exact Condition.scoped_of_compile hc hnames htype hcompile p hp

/-- Settings leave a session that has written nothing well-scoped. -/
theorem WellScoped.after_settings (h : s.WellScoped catalog entity) (hclauses : s.clauses = [])
    (hordering : s.ordering = []) (hsteps : ∀ step ∈ steps, step.isSetting = true) :
    (s.afterAll steps).WellScoped catalog entity := by
  induction steps generalizing s with
  | nil => exact h
  | cons step steps ih =>
    obtain ⟨hstep, hrest⟩ := List.forall_mem_cons.1 hsteps
    cases step with
    | withAlias aliasName =>
      exact ih (h.withAlias hclauses hordering aliasName) hclauses hordering hrest
    | withRename rename => exact ih { h with } hclauses hordering hrest
    | withOptions options => exact ih { h with } hclauses hordering hrest
    | orderBy sorting => cases hstep
    | accept condition => cases hstep

/-- Every other step keeps a session well-scoped. -/
theorem WellScoped.after (hc : catalog.WellFormed)
    (hnames : ∀ n ∈ catalog.names, isIdentifier n = true) (htype : catalog.hasType entity = true)
    (h : s.WellScoped catalog entity) (hstep : step.isAlias = false) :
    (s.after step).WellScoped catalog entity := by
  cases hattempt : s.attempt step with
  | error e => rwa [after_of_error hattempt]
  | ok t =>
    rw [after_of_ok hattempt]
    cases step with
    | withAlias aliasName => cases hstep
    | withRename rename =>
      cases hattempt
      exact { h with }
    | withOptions options =>
      cases hattempt
      exact { h with }
    | orderBy sorting => exact h.orderBy hattempt
    | accept condition => exact h.accept hc hnames htype hattempt

theorem WellScoped.afterAll (hc : catalog.WellFormed)
    (hnames : ∀ n ∈ catalog.names, isIdentifier n = true) (htype : catalog.hasType entity = true)
    (h : s.WellScoped catalog entity) (hsteps : ∀ step ∈ steps, step.isAlias = false) :
    (s.afterAll steps).WellScoped catalog entity := by
  induction steps generalizing s with
  | nil => exact h
  | cons step steps ih =>
    obtain ⟨hstep, hsteps⟩ := List.forall_mem_cons.1 hsteps
    exact ih (h.after hc hnames htype hstep) hsteps

/-- The text of the restriction declares what its clauses declare. -/
theorem WellScoped.declarations_eq (hnames : ∀ n ∈ catalog.names, isIdentifier n = true)
    (h : s.WellScoped catalog entity)
    (halias : ∀ m ∈ Clause.separators, m ∉ s.scope.aliasName.toList) :
    QueryText.declarations s.whereText = Clause.declaredAll s.clauses := by
  have havoids : ∀ m ∈ Clause.marks, Clause.Part.Avoids m (Clause.partsAll .and s.clauses) := by
    intro m hm
    have hseparator := Clause.mem_separators hm
    have hplain : ∀ n ∈ catalog.names, m ∉ n.toList := fun n hn =>
      not_mem_of_isIdentifier (isNameChar_of_mem_separators hseparator) (hnames n hn)
    exact Clause.avoids_partsAll hm .and fun clause hclause =>
      (h.compiled clause hclause).avoids hm hplain (halias m hseparator)
  have hdeclares : ∀ clause ∈ s.clauses, Clause.Part.Declares clause.parts clause.declared := by
    intro clause hclause
    have hpaths : ∀ p ∈ clause.paths entity s.scope.aliasName, p.role ≠ .owner →
        p.ref.path ≠ [] := fun p hp =>
      (h.inScope p (Clause.mem_pathsAll_iff.2 ⟨clause, hclause, hp⟩)).path_ne_nil
    exact (h.compiled clause hclause).declares hnames hpaths
  rw [QueryText.declarations, whereText, ← Clause.text_partsAll,
    QueryText.tokens_text (Clause.separated_partsAll .and s.clauses) havoids]
  exact (Clause.declares_partsAll .and hdeclares).declarationsOf_eq

/-- A query is well-scoped if its alias is chosen before anything is written, whichever filters and
orderings fail. The alias of the entity and those that the restriction declares are all distinct.
Every path starts at the alias of the scope that it stands in and leads from the type that this
alias is declared with to an attribute, but for the path that a total is grouped by: this is the
identifier of the owner behind the attribute of the members that points back, and it leads somewhere
if and only if that attribute is an association to a type with an attribute of this name. An
ordering goes by scalar attributes of the entity. -/
theorem declarations_whereText {defs : List EntityDef} {early later : List Step}
    (hbuild : Catalog.build defs = .ok catalog)
    (hnames : ∀ n ∈ catalog.names, isIdentifier n = true)
    (hstart : Session.start catalog entity = .ok s)
    (hearly : ∀ step ∈ early, step.isSetting = true)
    (haliases : ∀ aliasName, .withAlias aliasName ∈ early → isIdentifier aliasName = true)
    (hlater : ∀ step ∈ later, step.isAlias = false) :
    let t := s.afterAll (early ++ later)
    QueryText.declarations t.whereText = Clause.declaredAll t.clauses ∧
    (t.scope.aliasName :: (QueryText.declarations t.whereText).map Prod.snd).Nodup ∧
    (∀ p ∈ Clause.pathsAll entity t.scope.aliasName t.clauses,
      p.ref.aliasName = p.aliasName ∧
      (p.type, p.aliasName) ∈ (entity, t.scope.aliasName) :: QueryText.declarations t.whereText ∧
      (p.role ≠ .inverseIdentifier → p.Resolves catalog) ∧
      (p.role = .inverseIdentifier → ∃ inverse id,
        catalog.attribute? p.type inverse.name = some inverse ∧ p.ref.path = [inverse.name, id] ∧
        (p.Resolves catalog ↔ ∃ target attr, inverse.target? = some target ∧
          catalog.attribute? target id = some attr))) ∧
    ∀ term ∈ t.ordering, ∃ attr type,
      catalog.Leads entity t.scope.aliasName term.ref attr ∧ attr.scalarType? = some type := by
  intro t
  obtain ⟨hfirst, hclauses, hordering⟩ := wellScoped_start hstart
  have hset := hfirst.after_settings hclauses hordering hearly
  have hscoped : t.WellScoped catalog entity := by
    have hafter := hset.afterAll (Catalog.wellFormed_of_build hbuild) hnames
      (start_cases hstart).1 hlater
    simpa [t, Session.afterAll, List.foldl_append] using hafter
  have halias : ∀ m ∈ Clause.separators, m ∉ t.scope.aliasName.toList := by
    refine afterAll_aliasName (P := fun name => ∀ m ∈ Clause.separators, m ∉ name.toList)
      (not_mem_aliasName_start hstart hnames) fun aliasName hmem m hm => ?_
    rcases List.mem_append.1 hmem with hmem | hmem
    · exact not_mem_of_isIdentifier (isNameChar_of_mem_separators hm) (haliases aliasName hmem)
    · exact absurd (hlater _ hmem) (by simp [Step.isAlias])
  have hdeclarations := hscoped.declarations_eq hnames halias
  refine ⟨hdeclarations, hdeclarations ▸ hscoped.nodup, fun p hp => ?_, hscoped.ordered⟩
  obtain ⟨halias, hresolves, hback⟩ := hscoped.inScope p hp
  exact ⟨halias, hdeclarations ▸ Clause.scope_mem_of_mem_pathsAll hp, hresolves, hback⟩

/-- Departments under an alias that looks like one of employees: with part-time reports of an
employee, one filter that fails, and a total of salaries. -/
def departmentSteps : List Step := [
  .accept (.having "employees" (.having "reports" (.simple "isPartTime" .eq
    (some (.boolean true))))),
  .accept (.having "employees" (.having "projects" (.simple "leader.nickname" .null none))),
  .accept (.aggregate "employees.salary" .sum .gt (.long 100000)),
  .orderBy ⟨[⟨"name", .ascAlpha⟩, ⟨"budget", .desc⟩]⟩]

/-- The filter that fails declares nothing, and every path leads somewhere: the members of a
department point back at departments. -/
theorem declarations_departmentSteps : ∃ catalog s t,
    Catalog.build Example.company = .ok catalog ∧ Session.start catalog "Department" = .ok s ∧
    s.afterAll ([.withAlias "em_0"] ++ departmentSteps) = t ∧
    QueryText.declarations t.whereText =
      [("Employee", "em_1"), ("Employee", "em_2"), ("Employee", "em_3")] ∧
    ("em_0" :: (QueryText.declarations t.whereText).map Prod.snd).Nodup ∧
    (Clause.pathsAll "Department" "em_0" t.clauses).length = 8 ∧
    (∀ p ∈ Clause.pathsAll "Department" "em_0" t.clauses,
      p.ref.aliasName = p.aliasName ∧ p.Resolves catalog) ∧ t.ordering.length = 2 := by
  have hrun : ((Catalog.build Example.company).toOption.any fun catalog =>
      (Session.start catalog "Department").toOption.any fun s =>
        (fun t : Session => decide (Clause.declaredAll t.clauses =
            [("Employee", "em_1"), ("Employee", "em_2"), ("Employee", "em_3")] ∧
          t.scope.aliasName = "em_0" ∧ t.ordering.length = 2 ∧
          (Clause.pathsAll "Department" "em_0" t.clauses).length = 8 ∧
          (∀ p ∈ Clause.pathsAll "Department" "em_0" t.clauses, p.role = .inverseIdentifier →
            p.type = "Employee" ∧ p.ref.path = ["department", "id"]) ∧
          (catalog.attribute? "Employee" "department").bind Attribute.target? =
            some "Department" ∧
          (catalog.attribute? "Department" "id").isSome = true))
        (s.afterAll ([.withAlias "em_0"] ++ departmentSteps))) = true := by decide +kernel
  obtain ⟨catalog, hbuild, hrun⟩ := exists_ok_of_any hrun
  obtain ⟨s, hstart, hrun⟩ := exists_ok_of_any hrun
  obtain ⟨hdeclared, halias, hordering, hlength, hbacks, htarget, hid⟩ := of_decide_eq_true hrun
  have haliases : ∀ aliasName, .withAlias aliasName ∈ [Step.withAlias "em_0"] →
      isIdentifier aliasName = true := by
    intro aliasName hmem
    obtain rfl : aliasName = "em_0" := by simpa using hmem
    decide
  have hlater : ∀ step ∈ departmentSteps, step.isAlias = false := by
    simp [departmentSteps, Step.isAlias]
  obtain ⟨hdeclarations, hnodup, hpaths, -⟩ := declarations_whereText hbuild
    (Example.isIdentifier_names hbuild) hstart (by simp [Step.isSetting]) haliases hlater
  rw [halias] at hnodup hpaths
  refine ⟨catalog, s, _, hbuild, hstart, rfl, hdeclarations.trans hdeclared, hnodup, hlength,
    fun p hp => ?_, hordering⟩
  obtain ⟨hstarts, -, hresolves, hback⟩ := hpaths p hp
  refine ⟨hstarts, ?_⟩
  by_cases hrole : p.role = .inverseIdentifier
  · obtain ⟨inverse, id, hinverse, hpath, hiff⟩ := hback hrole
    obtain ⟨htype, hpath'⟩ := hbacks p hp hrole
    obtain ⟨hname, hrest⟩ := List.cons.inj (hpath.symm.trans hpath')
    obtain ⟨rfl, -⟩ := List.cons.inj hrest
    rw [htype, hname] at hinverse
    rw [hinverse] at htarget
    obtain ⟨attr, hattr⟩ := Option.isSome_iff_exists.1 hid
    exact hiff.2 ⟨"Department", attr, htarget, hattr⟩
  · exact hresolves hrole

/-- A collection that names a scalar of its members as the attribute that holds it. The definitions
are accepted and so is a filter on the number of the members, which is grouped by an identifier
behind that scalar. -/
theorem declarations_mappedByScalar : ∃ catalog s u condition p,
    Catalog.build mappedByScalar = .ok catalog ∧
    (∀ n ∈ catalog.names, isIdentifier n = true) ∧ Session.start catalog "A" = .ok s ∧
    Condition.parse {} "$having:count(bs)$gt:1" = .ok condition ∧ s.accept condition = .ok u ∧
    u.whereText = ("a_0.id IN (SELECT b_0.name.id FROM B b_0 " ++
      "GROUP BY b_0.name.id HAVING COUNT(b_0.id) > 1)").toList ∧
    p ∈ Clause.pathsAll "A" "a_0" u.clauses ∧ String.ofList p.ref.text = "b_0.name.id" ∧
    p.type = "B" ∧ ¬ p.Resolves catalog := by
  have hrun : ((Catalog.build mappedByScalar).toOption.any fun catalog =>
      (Session.start catalog "A").toOption.any fun s =>
        (Condition.parse {} "$having:count(bs)$gt:1").toOption.any fun condition =>
          (s.accept condition).toOption.any fun u =>
            decide ((∀ n ∈ catalog.names, isIdentifier n = true) ∧
              u.whereText = ("a_0.id IN (SELECT b_0.name.id FROM B b_0 " ++
                "GROUP BY b_0.name.id HAVING COUNT(b_0.id) > 1)").toList ∧
              ⟨.inverseIdentifier, "B", "b_0", ⟨"b_0", ["name", "id"]⟩⟩ ∈
                Clause.pathsAll "A" "a_0" u.clauses ∧
              (catalog.resolve "B" "name.id").toOption = none)) = true := by decide +kernel
  obtain ⟨catalog, hbuild, hrun⟩ := exists_ok_of_any hrun
  obtain ⟨s, hstart, hrun⟩ := exists_ok_of_any hrun
  obtain ⟨condition, hparse, hrun⟩ := exists_ok_of_any hrun
  obtain ⟨u, haccept, hrun⟩ := exists_ok_of_any hrun
  obtain ⟨hnames, htext, hpath, hresolve⟩ := of_decide_eq_true hrun
  refine ⟨catalog, s, u, condition, _, hbuild, hnames, hstart, hparse, haccept, htext, hpath,
    by decide, rfl, ?_⟩
  rintro (⟨hrole, -⟩ | ⟨attr, hattr⟩)
  · cases hrole
  · have hname : joinSegments ["name", "id"] = "name.id" := by decide
    rw [hname] at hattr
    simp [hattr, Except.toOption] at hresolve

end Session

end FilterQuery
