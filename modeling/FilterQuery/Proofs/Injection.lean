import FilterQuery.Proofs.SessionRun

set_option autoImplicit false

/-! # Texts of a filter stay inside their literals

Two filters that differ only in the texts that they compare with are compiled alike: both fail in
the same way, or both add the same text to the query up to what stands between the quotes of its
literals, and there stand the texts, as a reader of the query sees them.

`withoutText` takes the texts out of a condition, and `Clause.shape` out of the parts of a clause.
`Condition.alike_withoutText` says that a condition and what is left of it are compiled to the same
shape. Everything that is outside of the literals of a query is read off that shape. -/

namespace FilterQuery

open QueryText

/-! ## Shapes

The literals of a query are slots: some hold a text that is the same for all filters of the same
shape, and the others are filled with the texts of the filter, in turn. -/

namespace QueryText

/-- Fill the slots that hold nothing yet with texts, in turn. -/
def fill : List (Option (List Char)) → List (List Char) → List (List Char)
  | [], _ => []
  | some cs :: slots, texts => cs :: fill slots texts
  | none :: slots, [] => fill slots []
  | none :: slots, cs :: texts => cs :: fill slots texts

end QueryText

namespace Clause

namespace Part

/-- The part without the text of the filter. -/
def erased : Part → Part
  | .payload _ => .payload []
  | part => part

/-- The part with the text of the filter as a fixed one. -/
def settled : Part → Part
  | .payload cs => .literal cs
  | part => part

def slot? : Part → Option (Option (List Char))
  | .literal cs => some (some cs)
  | .payload _ => some none
  | _ => none

def payload? : Part → Option (List Char)
  | .payload cs => some cs
  | _ => none

theorem literals_fragments (ps : List Part) :
    (ps.flatMap fragments).filterMap Fragment.literal? =
      fill (ps.filterMap slot?) (ps.filterMap payload?) := by
  induction ps with
  | nil => rfl
  | cons a ps ih =>
    rw [List.flatMap_cons, List.filterMap_append, ih]
    cases a with
    | word cs =>
      have hchars : (cs.map Fragment.char).filterMap Fragment.literal? = [] := by
        simp [List.filterMap_eq_nil_iff, Fragment.literal?]
      simp [List.filterMap_cons, fragments, slot?, payload?, hchars]
    | mark d => rfl
    | literal cs => rfl
    | payload cs => rfl

theorem count_slot? (ps : List Part) :
    (ps.filterMap slot?).count none = (ps.filterMap payload?).length := by
  induction ps with
  | nil => rfl
  | cons a ps ih => cases a <;> simp [List.filterMap_cons, slot?, payload?, ih]

/-- What is outside of the literals does not depend on the texts of the filter. -/
theorem blanked_fragments_erased (ps : List Part) :
    ((ps.map erased).flatMap fragments).flatMap Fragment.blanked =
      (ps.flatMap fragments).flatMap Fragment.blanked := by
  induction ps with
  | nil => rfl
  | cons a ps ih =>
    have hfirst : a.erased.fragments.flatMap Fragment.blanked =
        a.fragments.flatMap Fragment.blanked := by cases a <;> rfl
    simp [ih, hfirst]

theorem filterMap_slot?_erased (ps : List Part) :
    (ps.map erased).filterMap slot? = ps.filterMap slot? := by
  rw [List.filterMap_map]
  exact List.filterMap_congr fun a _ => by cases a <;> rfl

theorem flatMap_fragments_settled (ps : List Part) :
    (ps.map settled).flatMap fragments = ps.flatMap fragments := by
  rw [List.flatMap_map]
  exact List.flatMap_congr fun a _ => by cases a <;> rfl

theorem filterMap_payload?_settled (ps : List Part) : (ps.map settled).filterMap payload? = [] := by
  rw [List.filterMap_map, List.filterMap_eq_nil_iff]
  intro a _
  cases a <;> rfl

end Part

/-- The parts of a clause without the texts of the filter. -/
def shape (clause : Clause) : List Part := clause.parts.map Part.erased

/-- The texts of the filter that the clause holds. -/
def payloads (clause : Clause) : List (List Char) := clause.parts.filterMap Part.payload?

theorem shape_compareText (ref : Ref) (symbol : TextSymbol) (cs cs' : List Char) :
    shape (.compareText ref symbol cs) = shape (.compareText ref symbol cs') := by
  simp [shape, parts, callParts, Part.erased]

/-- One more clause is written behind a text that does not depend on it. -/
theorem exists_partsAll_concat (connective : Connective) (clauses : List Clause) :
    ∃ lead, ∀ clause, partsAll connective (clauses ++ [clause]) = lead ++ clause.parts := by
  induction clauses with
  | nil => exact ⟨[], fun clause => rfl⟩
  | cons first rest ih =>
    obtain ⟨lead, hlead⟩ := ih
    refine ⟨first.parts ++ .mark .space :: .word (jointWord connective).toList :: .mark .space ::
      lead, fun clause => ?_⟩
    have hne : rest ++ [clause] ≠ [] := by simp
    obtain ⟨next, more, hmore⟩ := List.exists_cons_of_ne_nil hne
    rw [List.cons_append, hmore, partsAll, ← hmore, hlead]
    · simp
    · simp

end Clause

/-! ## Texts of a condition -/

/-- A value with nothing left of its text, if it is a text. -/
def Value.withoutText : Value → Value
  | .string _ => .string ""
  | value => value

namespace Condition

mutual

/-- A condition with nothing left of the texts in its comparisons and lists, at any depth. -/
def withoutText : Condition → Condition
  | .simple field op value => .simple field op (value.map Value.withoutText)
  | .oneOf field values => .oneOf field (values.map Value.withoutText)
  | .noneOf field values => .noneOf field (values.map Value.withoutText)
  | .not c => .not (withoutText c)
  | .group connective first second more =>
    .group connective (withoutText first) (withoutText second) (withoutTextAll more)
  | .having field sub => .having field (withoutText sub)
  | .aggregate field function op bound => .aggregate field function op bound

/-- `withoutText` of all conditions. -/
def withoutTextAll : List Condition → List Condition
  | [] => []
  | c :: cs => withoutText c :: withoutTextAll cs

end

/-- What the literal of a text under an operator stands for; without a value to compare with there
is no literal. -/
def payload? (op : Operator) (value : Value) : Option (List Char) :=
  match op with
  | .null | .notNull => none
  | .like => value.string?.map fun text => likePattern text.toList
  | _ => value.string?.map String.toList

mutual

/-- What the literals of the texts of a condition stand for, in turn. -/
def payloads : Condition → List (List Char)
  | .simple _ op value => (value.bind (payload? op)).toList
  | .oneOf _ values => values.filterMap fun value => value.string?.map String.toList
  | .noneOf _ values => values.filterMap fun value => value.string?.map String.toList
  | .not c => payloads c
  | .group _ first second more => payloads first ++ payloads second ++ payloadsAll more
  | .having _ sub => payloads sub
  | .aggregate .. => []

/-- `payloads` of all conditions in turn. -/
def payloadsAll : List Condition → List (List Char)
  | [] => []
  | c :: cs => payloads c ++ payloadsAll cs

end

end Condition

/-! ## Compilations of the same shape -/

/-- Two compilations that fail in the same way, or end with the same names and with results that
look the same. -/
inductive Alike {α β : Type} (look : α → β) : Compile (α × Names) → Compile (α × Names) → Prop
  | error (e : Failure CompileError) : Alike look (.error e) (.error e)
  | ok {a b : α} (h : look a = look b) (names : Names) :
    Alike look (.ok (a, names)) (.ok (b, names))

namespace Alike

variable {α β γ δ : Type} {look : α → β} {look' : γ → δ} {x y z : Compile (α × Names)}

theorem refl (x : Compile (α × Names)) : Alike look x x := by
  cases x with
  | error e => exact .error e
  | ok result => exact .ok rfl result.2

theorem symm (h : Alike look x y) : Alike look y x := by
  cases h with
  | error e => exact .error e
  | ok h names => exact .ok h.symm names

theorem trans (h : Alike look x y) (h' : Alike look y z) : Alike look x z := by
  cases h with
  | error e =>
    cases h'
    exact .error e
  | ok h names =>
    cases h' with
    | ok h' names => exact .ok (h.trans h') names

/-- Alike compilations stay so when they go on alike. -/
theorem bind {f g : α × Names → Compile (γ × Names)} (h : Alike look x y)
    (hnext : ∀ a b names, look a = look b → Alike look' (f (a, names)) (g (b, names))) :
    Alike look' (x >>= f) (y >>= g) := by
  cases h with
  | error e => exact .error e
  | ok h names => exact hnext _ _ names h

end Alike

/-- An item of a list with nothing left of its text. -/
def Operand.withoutText : Operand → Operand
  | .quoted _ => .quoted []
  | operand => operand

namespace Scope

variable {s : Scope} {field : String} {names : Names}

theorem alike_comparison (ref : Ref) (attr : Attribute) (op : Operator) (value : Value) :
    Alike Clause.shape (s.comparison field ref attr op value.withoutText names)
      (s.comparison field ref attr op value names) := by
  cases value with
  | string text =>
    simp only [Value.withoutText, comparison]
    split
    · exact .ok (Clause.shape_compareText ref .like _ _) names
    · cases hsymbol : op.symbol? with
      | none => exact .error _
      | some symbol => exact .ok (Clause.shape_compareText ref (.symbol symbol) _ _) names
  | _ => exact .refl _

theorem alike_simple (op : Operator) (value : Option Value) :
    Alike Clause.shape (s.simple field op (value.map Value.withoutText) names)
      (s.simple field op value names) := by
  unfold simple
  cases hresolve : s.resolve field with
  | error e => exact .error e
  | ok result =>
    obtain ⟨ref, attr⟩ := result
    simp only [ok_bind]
    split
    · exact .refl _
    · exact .refl _
    · cases value with
      | none => exact .refl _
      | some value => exact alike_comparison ref attr _ value

theorem listItem_withoutText (value : Value) :
    listItem value.withoutText = (listItem value).map Operand.withoutText := by
  cases value <;> rfl

theorem mapM_listItem_withoutText (values : List Value) :
    (values.map Value.withoutText).mapM listItem =
      (values.mapM listItem).map (List.map Operand.withoutText) := by
  induction values with
  | nil => rfl
  | cons value values ih =>
    rw [List.map_cons, List.mapM_cons, List.mapM_cons, listItem_withoutText, ih]
    cases listItem value with
    | error e => rfl
    | ok item =>
      cases values.mapM listItem with
      | error e => rfl
      | ok items => rfl

theorem list_withoutText (values : List Value) :
    s.list field (values.map Value.withoutText) =
      (s.list field values).map fun (ref, items) => (ref, items.map Operand.withoutText) := by
  unfold list
  rw [mapM_listItem_withoutText]
  cases s.resolve field with
  | error e => rfl
  | ok result =>
    cases values.mapM listItem with
    | error e => rfl
    | ok items => rfl

theorem erased_itemsParts (items : List Operand) :
    (Clause.itemsParts (items.map Operand.withoutText)).map Clause.Part.erased =
      (Clause.itemsParts items).map Clause.Part.erased := by
  have hitem : ∀ item, (Clause.itemParts item.withoutText).map Clause.Part.erased =
      (Clause.itemParts item).map Clause.Part.erased := by
    intro item
    cases item <;> rfl
  fun_induction Clause.itemsParts items with
  | case1 => rfl
  | case2 item => exact hitem item
  | case3 item rest hrest ih =>
    obtain ⟨next, more, rfl⟩ := List.exists_cons_of_ne_nil hrest
    have hstep : Clause.itemsParts ((item :: next :: more).map Operand.withoutText) =
        Clause.itemParts item.withoutText ++ .mark .comma :: .mark .space ::
          Clause.itemsParts ((next :: more).map Operand.withoutText) := rfl
    rw [hstep, List.map_append, hitem, List.map_append, List.map_cons, List.map_cons, ih]
    rfl

theorem shape_oneOf (ref : Ref) (items : List Operand) :
    Clause.shape (.oneOf ref (items.map Operand.withoutText)) =
      Clause.shape (.oneOf ref items) := by
  simp [Clause.shape, Clause.parts, erased_itemsParts]

theorem shape_noneOf (ref : Ref) (items : List Operand) :
    Clause.shape (.noneOf ref (items.map Operand.withoutText)) =
      Clause.shape (.noneOf ref items) := by
  simp [Clause.shape, Clause.parts, erased_itemsParts]

end Scope

namespace Clause

/-- Groups of clauses of the same shapes have the same shape. -/
theorem erased_partsAll (connective : Connective) {as bs : List Clause}
    (h : as.map shape = bs.map shape) :
    (partsAll connective as).map Part.erased = (partsAll connective bs).map Part.erased := by
  induction as generalizing bs with
  | nil =>
    rw [List.map_nil, eq_comm, List.map_eq_nil_iff] at h
    rw [h]
  | cons a as ih =>
    obtain ⟨b, bs, rfl, hb, hbs⟩ := List.map_eq_cons_iff.1 h.symm
    have hrest := ih hbs.symm
    cases as with
    | nil =>
      obtain rfl : bs = [] := by simpa using hbs
      exact hb.symm
    | cons a' as =>
      obtain ⟨b', bs, rfl, -, -⟩ := List.map_eq_cons_iff.1 hbs
      have hfirst : a.parts.map Part.erased = b.parts.map Part.erased := hb.symm
      simp only [partsAll, List.map_append, List.map_cons, hrest, hfirst]

end Clause

namespace Condition

mutual

/-- A condition and what is left of it without its texts are compiled to the same shape. -/
theorem alike_withoutText (s : Scope) : ∀ (c : Condition) (names : Names),
    Alike Clause.shape (c.withoutText.compile s names) (c.compile s names)
  | .simple field op value, names => by
    simp only [withoutText, compile_simple]
    exact Scope.alike_simple op value
  | .oneOf field values, names => by
    simp only [withoutText, compile_oneOf, Scope.list_withoutText]
    cases s.list field values with
    | error e => exact .error e
    | ok result => exact .ok (Scope.shape_oneOf result.1 result.2) names
  | .noneOf field values, names => by
    simp only [withoutText, compile_noneOf, Scope.list_withoutText]
    cases s.list field values with
    | error e => exact .error e
    | ok result => exact .ok (Scope.shape_noneOf result.1 result.2) names
  | .not c, names => by
    simp only [withoutText, compile_not]
    refine (alike_withoutText s c names).bind fun a b names hab => .ok ?_ names
    have hparts : a.parts.map Clause.Part.erased = b.parts.map Clause.Part.erased := hab
    simp [Clause.shape, Clause.parts, hparts]
  | .group connective first second more, names => by
    simp only [withoutText, compile_group]
    refine (alike_withoutText s first names).bind fun a a' names ha => ?_
    refine (alike_withoutText s second names).bind fun b b' names hb => ?_
    refine (alike_withoutTextAll s more names).bind fun rest rest' names hrest => .ok ?_ names
    have hall : (a :: b :: rest).map Clause.shape = (a' :: b' :: rest').map Clause.shape := by
      simp [ha, hb, hrest]
    simp [Clause.shape, Clause.parts, Clause.erased_partsAll connective hall]
  | .having field sub, names => by
    simp only [withoutText, compile_having]
    cases s.havingHop field names with
    | error e => exact .error e
    | ok hop =>
      refine (alike_withoutText _ sub _).bind fun a b names hab => .ok ?_ names.leave
      have hparts : a.parts.map Clause.Part.erased = b.parts.map Clause.Part.erased := hab
      simp [Clause.shape, Clause.parts, Clause.subqueryParts, hparts]
  | .aggregate field function op bound, names => .refl _

theorem alike_withoutTextAll (s : Scope) : ∀ (cs : List Condition) (names : Names),
    Alike (List.map Clause.shape) (compileAll s (withoutTextAll cs) names) (compileAll s cs names)
  | [], names => .refl _
  | c :: cs, names => by
    simp only [withoutTextAll, compileAll_cons]
    refine (alike_withoutText s c names).bind fun a b names hab => ?_
    refine (alike_withoutTextAll s cs names).bind fun rest rest' names hrest => .ok ?_ names
    simp [hab, hrest]

end

end Condition

/-! ## Literals of a clause -/

namespace Clause

variable {ref : Ref}

theorem payloads_phrase (words : List String) : (phrase words).filterMap Part.payload? = [] := by
  rw [phrase, List.filterMap_eq_nil_iff]
  intro part hpart
  obtain ⟨w, -, hpart⟩ := List.mem_flatMap.1 hpart
  rcases List.mem_cons.1 hpart with rfl | hpart
  · rfl
  · rw [List.mem_singleton.1 hpart]
    rfl

theorem payloads_callParts (function : String) (ps : List Part) :
    (callParts function ps).filterMap Part.payload? = ps.filterMap Part.payload? := by
  simp [callParts, List.filterMap_cons, Part.payload?]

theorem payloads_operandParts (operand : Operand) :
    (operandParts operand).filterMap Part.payload? = [] := by
  cases operand <;> rfl

theorem payloads_partsAll (connective : Connective) (clauses : List Clause) :
    (partsAll connective clauses).filterMap Part.payload? = clauses.flatMap payloads := by
  induction clauses with
  | nil => rfl
  | cons clause rest ih =>
    cases rest with
    | nil => simp [partsAll, payloads]
    | cons next rest =>
      rw [partsAll, List.filterMap_append, List.flatMap_cons, ← ih]
      · rfl
      · simp

theorem payloads_group (connective : Connective) (clauses : List Clause) :
    payloads (.group connective clauses) = clauses.flatMap payloads := by
  rw [← payloads_partsAll connective clauses]
  simp [payloads, parts, List.filterMap_cons, Part.payload?]

theorem payloads_compareComponent (component : Component) (symbol : Symbol) (n : Int) :
    payloads (.compareComponent component ref symbol n) = [] := by
  simp [payloads, parts, payloads_callParts, List.filterMap_cons, Part.payload?]

theorem payloads_of_compareRow? {op : Operator} {row : List (Component × Nat)} {clause : Clause}
    (h : compareRow? ref op row = some clause) : clause.payloads = [] := by
  refine compareRow?_induction (P := fun clause => clause.payloads = [])
    (fun component symbol n => payloads_compareComponent component symbol n) ?_ h
  intro connective clauses hclauses
  rw [payloads_group, List.flatMap_eq_nil_iff]
  exact hclauses

theorem payloads_itemsParts (items : List Operand) :
    (itemsParts items).filterMap Part.payload? =
      items.flatMap fun item => (itemParts item).filterMap Part.payload? := by
  fun_induction itemsParts items with
  | case1 => rfl
  | case2 item => simp
  | case3 item rest hrest ih =>
    rw [List.filterMap_append, List.flatMap_cons, ← ih]
    rfl

end Clause

namespace Scope

variable {s : Scope} {field : String} {names names' : Names} {clause : Clause}

theorem Compares.payloads_eq {c : Catalog} {ref : Ref} {op : Operator} {value : Value}
    (hnull : op ≠ .null) (hnotNull : op ≠ .notNull) (h : Compares c ref op value clause) :
    clause.payloads = (Condition.payload? op value).toList := by
  have hnone : value.string? = none → Condition.payload? op value = none := by
    intro hvalue
    unfold Condition.payload?
    split <;> simp [hvalue]
  cases h with
  | pattern text => rfl
  | text hop symbol text =>
    have hpayload : Condition.payload? op (.string text) = some text.toList := by
      unfold Condition.payload?
      split
      · exact absurd rfl hnull
      · exact absurd rfl hnotNull
      · exact absurd rfl hop
      · rfl
    rw [hpayload]
    rfl
  | operand hvalue symbol ho =>
    rw [hnone hvalue]
    simp [Clause.payloads, Clause.parts, List.filterMap_cons, Clause.Part.payload?,
      Clause.payloads_operandParts]
  | component hvalue component symbol n =>
    rw [hnone hvalue]
    exact Clause.payloads_compareComponent component symbol n
  | row hvalue row hrow =>
    rw [hnone hvalue]
    exact Clause.payloads_of_compareRow? hrow

theorem payloads_of_simple {op : Operator} {value : Option Value}
    (h : s.simple field op value names = .ok (clause, names')) :
    clause.payloads = (value.bind (Condition.payload? op)).toList := by
  obtain ⟨ref, -, ⟨rfl, rfl⟩ | ⟨rfl, rfl⟩ | ⟨hnull, hnotNull, v, rfl, hv⟩⟩ := simple_cases h
  · cases value <;> rfl
  · cases value <;> rfl
  · exact hv.payloads_eq hnull hnotNull

theorem payloads_of_mapM {values : List Value} {items : List Operand}
    (h : values.mapM listItem = .ok items) :
    (Clause.itemsParts items).filterMap Clause.Part.payload? =
      values.filterMap fun value => value.string?.map String.toList := by
  rw [Clause.payloads_itemsParts]
  induction values generalizing items with
  | nil =>
    cases h
    rfl
  | cons value values ih =>
    rw [List.mapM_cons] at h
    obtain ⟨item, hitem, h⟩ := bind_eq_ok_iff.1 h
    obtain ⟨rest, hrest, h⟩ := bind_eq_ok_iff.1 h
    cases h
    rw [List.flatMap_cons, ih hrest, List.filterMap_cons]
    unfold listItem at hitem
    split at hitem
    · cases hitem
      rfl
    · cases hitem
      rfl
    · cases hitem
      rfl
    · cases hitem

theorem payloads_of_list {ref : Ref} {values : List Value} {items : List Operand}
    (h : s.list field values = .ok (ref, items)) :
    (Clause.itemsParts items).filterMap Clause.Part.payload? =
      values.filterMap fun value => value.string?.map String.toList := by
  obtain ⟨⟨found, attr⟩, -, h⟩ := bind_eq_ok_iff.1 h
  obtain ⟨written, hitems, h⟩ := bind_eq_ok_iff.1 h
  cases h
  exact payloads_of_mapM hitems

theorem payloads_of_aggregate {function : Aggregate} {op : Operator} {bound : Value}
    (h : s.aggregate field function op bound names = .ok (clause, names')) :
    clause.payloads = [] := by
  obtain ⟨owner, back, target, aggregated, symbol, rfl⟩ := (compiled_of_aggregate h).1
  simp [Clause.payloads, Clause.parts, Clause.subqueryParts, List.filterMap_cons,
    Clause.Part.payload?, Clause.payloads_phrase, Clause.payloads_callParts]

end Scope

namespace Condition

mutual

/-- The texts of a condition are those of the clause that it is compiled to, in turn. -/
theorem payloads_of_compile {s : Scope} {names names' : Names} {clause : Clause} :
    ∀ {c : Condition}, c.compile s names = .ok (clause, names') → clause.payloads = c.payloads
  | .simple field op value, h => Scope.payloads_of_simple (compile_simple.symm.trans h)
  | .oneOf field values, h => by
    obtain ⟨ref, items, hlist, rfl, rfl⟩ := compile_oneOf_eq_ok h
    simpa [Clause.payloads, Clause.parts, List.filterMap_cons, Clause.Part.payload?,
      Clause.payloads_phrase, payloads] using Scope.payloads_of_list hlist
  | .noneOf field values, h => by
    obtain ⟨ref, items, hlist, rfl, rfl⟩ := compile_noneOf_eq_ok h
    simpa [Clause.payloads, Clause.parts, List.filterMap_cons, Clause.Part.payload?,
      Clause.payloads_phrase, payloads] using Scope.payloads_of_list hlist
  | .not c, h => by
    obtain ⟨inner, hinner, rfl⟩ := compile_not_eq_ok h
    rw [payloads, ← payloads_of_compile hinner]
    rfl
  | .group connective first second more, h => by
    obtain ⟨a, b, rest, names₁, names₂, ha, hb, hrest, rfl⟩ := compile_group_eq_ok h
    rw [Clause.payloads_group, List.flatMap_cons, List.flatMap_cons, payloads_of_compile ha,
      payloads_of_compile hb, payloads_of_compileAll hrest, payloads, List.append_assoc]
  | .having field sub, h => by
    obtain ⟨hop, restriction, names₁, -, -, hsub, rfl, rfl⟩ := compile_having_eq_ok h
    have hrestriction := payloads_of_compile hsub
    simpa [Clause.payloads, Clause.parts, Clause.subqueryParts, List.filterMap_cons,
      Clause.Part.payload?, Clause.payloads_phrase, payloads] using hrestriction
  | .aggregate field function op bound, h =>
    Scope.payloads_of_aggregate (compile_aggregate.symm.trans h)

theorem payloads_of_compileAll {s : Scope} {names names' : Names} {clauses : List Clause} :
    ∀ {cs : List Condition}, compileAll s cs names = .ok (clauses, names') →
      clauses.flatMap Clause.payloads = payloadsAll cs
  | [], h => by
    cases compileAll_nil.symm.trans h
    rfl
  | c :: cs, h => by
    obtain ⟨a, rest, names₁, ha, hrest, rfl⟩ := compileAll_cons_eq_ok h
    rw [List.flatMap_cons, payloads_of_compile ha, payloads_of_compileAll hrest, payloadsAll]

end

end Condition

/-! ## Sessions -/

/-- What two filters wrote: the same text, up to what stands between the quotes of literals. The
literals of the texts of the filters, in turn, stand for exactly these texts, or their patterns, and
all other literals are the same. -/
def Condition.WrittenAlike (f g : Condition) (first second : List Char) : Prop :=
  blanked first = blanked second ∧
  ∃ slots : List (Option (List Char)),
    slots.count none = f.payloads.length ∧ slots.count none = g.payloads.length ∧
    literals first = fill slots f.payloads ∧ literals second = fill slots g.payloads

theorem Condition.writtenAlike_of_parts {f g : Condition} {ps qs : List Clause.Part}
    {first second : List Char} (h : ps.map Clause.Part.erased = qs.map Clause.Part.erased)
    (hfirst : fragments first = ps.flatMap Clause.Part.fragments)
    (hsecond : fragments second = qs.flatMap Clause.Part.fragments)
    (hf : ps.filterMap Clause.Part.payload? = f.payloads)
    (hg : qs.filterMap Clause.Part.payload? = g.payloads) : WrittenAlike f g first second := by
  have hslots : ps.filterMap Clause.Part.slot? = qs.filterMap Clause.Part.slot? := by
    rw [← Clause.Part.filterMap_slot?_erased, h, Clause.Part.filterMap_slot?_erased]
  refine ⟨?_, ps.filterMap Clause.Part.slot?, ?_, ?_, ?_, ?_⟩
  · rw [blanked, blanked, hfirst, hsecond, ← Clause.Part.blanked_fragments_erased, h,
      Clause.Part.blanked_fragments_erased]
  · rw [Clause.Part.count_slot?, hf]
  · rw [hslots, Clause.Part.count_slot?, hg]
  · rw [literals, hfirst, Clause.Part.literals_fragments, hf]
  · rw [literals, hsecond, Clause.Part.literals_fragments, hg, hslots]

namespace Session

variable {s : Session} {catalog : Catalog} {history : List Acceptance} {f g : Condition}

theorem accept_eq_error {e : Failure CompileError} (h : f.compile s.scope s.names = .error e) :
    s.accept f = .error e := by
  rw [accept_eq, h]
  rfl

/-- The parts of a clause that was just written are what its own text reads as. -/
theorem fragments_text_of_compile {clause : Clause} {names : Names}
    (hnames : ∀ n ∈ s.scope.catalog.names, quoteMark ∉ n.toList)
    (halias : quoteMark ∉ s.scope.aliasName.toList)
    (h : f.compile s.scope s.names = .ok (clause, names)) :
    fragments clause.text = clause.parts.flatMap Clause.Part.fragments := by
  rw [← Clause.text_parts]
  exact Clause.Part.fragments_text (Clause.separated_parts clause)
    ((Condition.compiled_of_compile h).avoids (by decide) hnames halias)

/-- How the restriction reads after one more filter: behind what is there already, in which no
literal is up to the filter, stand the parts of its clause. -/
theorem exists_lead (hrun : Run catalog history s)
    (hnames : ∀ n ∈ catalog.names, quoteMark ∉ n.toList)
    (haliases : ∀ a ∈ history, quoteMark ∉ a.scope.aliasName.toList)
    (halias : quoteMark ∉ s.scope.aliasName.toList) :
    ∃ lead : List Clause.Part, lead.filterMap Clause.Part.payload? = [] ∧
      ∀ c clause names t, c.compile s.scope s.names = .ok (clause, names) → s.accept c = .ok t →
        fragments t.whereText = (lead ++ clause.parts).flatMap Clause.Part.fragments := by
  obtain ⟨lead, hlead⟩ := Clause.exists_partsAll_concat .and s.clauses
  refine ⟨lead.map .settled, Clause.Part.filterMap_payload?_settled lead, ?_⟩
  intro c clause names t hc haccept
  have hall : ∀ a ∈ history ++ [⟨s.scope, s.names, c⟩], quoteMark ∉ a.scope.aliasName.toList := by
    intro a ha
    rcases List.mem_append.1 ha with ha | ha
    · exact haliases a ha
    · rw [List.mem_singleton.1 ha]
      exact halias
  have hwords := (hrun.accept c haccept).avoids (by decide) hnames hall
  obtain ⟨clause', names', hc', rfl⟩ := accept_eq_ok_iff.1 haccept
  cases hc'.symm.trans hc
  rw [fragments_whereText hwords, List.flatMap_append, Clause.Part.flatMap_fragments_settled,
    ← List.flatMap_append, ← hlead clause]

/-- Texts of a filter cannot get out of their literals. Of two filters that differ in the texts of
comparisons and lists only, a session accepts both or refuses both for the same reason. If it
accepts them, it ends with the same aliases and parameters, and the clauses that they became are
written alike. So are the whole restrictions, if no alias that an earlier filter was accepted with
has a quote in it. -/
theorem accept_of_withoutText_eq (hrun : Run catalog history s)
    (hnames : ∀ n ∈ catalog.names, quoteMark ∉ n.toList)
    (halias : quoteMark ∉ s.scope.aliasName.toList) (h : f.withoutText = g.withoutText) :
    (∃ e, s.accept f = .error e ∧ s.accept g = .error e) ∨
    ∃ t u a b, s.accept f = .ok t ∧ s.accept g = .ok u ∧ t.names = u.names ∧
      t.clauses = s.clauses ++ [a] ∧ u.clauses = s.clauses ++ [b] ∧
      Condition.WrittenAlike f g a.text b.text ∧
      ((∀ x ∈ history, quoteMark ∉ x.scope.aliasName.toList) →
        Condition.WrittenAlike f g t.whereText u.whereText) := by
  have halike : Alike Clause.shape (f.compile s.scope s.names) (g.compile s.scope s.names) := by
    have hf := (Condition.alike_withoutText s.scope f s.names).symm
    rw [h] at hf
    exact hf.trans (Condition.alike_withoutText s.scope g s.names)
  generalize hf : f.compile s.scope s.names = x at halike
  generalize hg : g.compile s.scope s.names = y at halike
  cases halike with
  | error e => exact .inl ⟨e, accept_eq_error hf, accept_eq_error hg⟩
  | @ok a b hshape names =>
    have ht := accept_eq_ok_iff.2 ⟨a, names, hf, rfl⟩
    have hu := accept_eq_ok_iff.2 ⟨b, names, hg, rfl⟩
    have hplain := hrun.catalog_eq.1.symm ▸ hnames
    refine .inr ⟨_, _, a, b, ht, hu, rfl, rfl, rfl, ?_, fun haliases => ?_⟩
    · exact Condition.writtenAlike_of_parts hshape (fragments_text_of_compile hplain halias hf)
        (fragments_text_of_compile hplain halias hg) (Condition.payloads_of_compile hf)
        (Condition.payloads_of_compile hg)
    · obtain ⟨lead, hlead, hread⟩ := exists_lead hrun hnames haliases halias
      refine Condition.writtenAlike_of_parts ?_ (hread f a names _ hf ht) (hread g b names _ hg hu)
        ?_ ?_
      · rw [List.map_append, List.map_append]
        exact congrArg _ hshape
      · rw [List.filterMap_append, hlead, List.nil_append]
        exact Condition.payloads_of_compile hf
      · rw [List.filterMap_append, hlead, List.nil_append]
        exact Condition.payloads_of_compile hg

/-- A name with a quote in it and a text that looks like the rest of a query. -/
theorem accept_quotes_alike : ∃ catalog s t u,
    Catalog.build Example.company = .ok catalog ∧ Session.start catalog "Department" = .ok s ∧
    s.accept (.having "employees" (.simple "lastName" .like (some (.string "O'*")))) = .ok t ∧
    s.accept (.having "employees" (.simple "lastName" .like (some (.string "') OR ('' = '")))) =
      .ok u ∧
    blanked t.whereText = blanked u.whereText := by
  have hrun : ((Catalog.build Example.company).toOption.any fun catalog =>
      (Session.start catalog "Department").toOption.any fun s =>
        !s.scope.aliasName.toList.contains quoteMark && (s.accept (.having "employees"
          (.simple "lastName" .like (some (.string "O'*"))))).isOk) = true := by decide +kernel
  obtain ⟨catalog, hbuild, hrun⟩ := exists_ok_of_any hrun
  obtain ⟨s, hstart, hrun⟩ := exists_ok_of_any hrun
  obtain ⟨halias, hok⟩ := Bool.and_eq_true_iff.1 hrun
  have hsame : (Condition.having "employees"
      (.simple "lastName" .like (some (.string "O'*")))).withoutText =
    (Condition.having "employees"
      (.simple "lastName" .like (some (.string "') OR ('' = '")))).withoutText := rfl
  rcases accept_of_withoutText_eq (.start hstart) (Example.not_mem_names (by decide) hbuild)
    (by simpa using halias) hsame with ⟨e, he, -⟩ | ⟨t, u, a, b, ht, hu, -, -, -, -, hwritten⟩
  · rw [he] at hok
    cases hok
  · exact ⟨catalog, s, t, u, hbuild, hstart, ht, hu, (hwritten (by simp)).1⟩

/-- An alias with a quote in it opens a literal, which the first quote of a later one closes, also
if that is written under another alias. -/
theorem accept_behind_quote_in_alias : ∃ catalog s t u,
    Catalog.build Example.company = .ok catalog ∧
    (∀ n ∈ catalog.names, quoteMark ∉ n.toList) ∧
    (Session.start catalog "Employee").map (·.afterAll [.withAlias "a'",
      .accept (.simple "lastName" .null none), .withAlias "b"]) = .ok s ∧
    quoteMark ∉ s.scope.aliasName.toList ∧
    s.accept (.simple "lastName" .eq (some (.string "foo"))) = .ok t ∧
    s.accept (.simple "lastName" .eq (some (.string "bar"))) = .ok u ∧
    t.whereText = "a'.lastName IS NULL AND LOWER(b.lastName) = LOWER('foo')".toList ∧
    u.whereText = "a'.lastName IS NULL AND LOWER(b.lastName) = LOWER('bar')".toList ∧
    blanked t.whereText ≠ blanked u.whereText := by
  have hrun : ((Catalog.build Example.company).toOption.any fun catalog =>
      ((Session.start catalog "Employee").map (·.afterAll [.withAlias "a'",
        .accept (.simple "lastName" .null none), .withAlias "b"])).toOption.any fun s =>
        (s.accept (.simple "lastName" .eq (some (.string "foo")))).toOption.any fun t =>
          (s.accept (.simple "lastName" .eq (some (.string "bar")))).toOption.any fun u =>
            decide (quoteMark ∉ s.scope.aliasName.toList ∧
              t.whereText = "a'.lastName IS NULL AND LOWER(b.lastName) = LOWER('foo')".toList ∧
              u.whereText = "a'.lastName IS NULL AND LOWER(b.lastName) = LOWER('bar')".toList ∧
              blanked t.whereText ≠ blanked u.whereText)) = true := by decide +kernel
  obtain ⟨catalog, hbuild, hrun⟩ := exists_ok_of_any hrun
  obtain ⟨s, hs, hrun⟩ := exists_ok_of_any hrun
  obtain ⟨t, ht, hrun⟩ := exists_ok_of_any hrun
  obtain ⟨u, hu, hrun⟩ := exists_ok_of_any hrun
  obtain ⟨halias, hfirst, hsecond, hblanked⟩ := of_decide_eq_true hrun
  exact ⟨catalog, s, t, u, hbuild, Example.not_mem_names (by decide) hbuild, hs, halias, ht, hu,
    hfirst, hsecond, hblanked⟩

end Session

end FilterQuery
