import FilterQuery.Proofs.CompileErrors
import FilterQuery.Proofs.Injection
import FilterQuery.Proofs.Layout
import FilterQuery.Proofs.Lexing

set_option autoImplicit false

/-! # From the values of a filter to the literals of a query

`operands` are the values that stand in a row of tokens, each under its operator, wherever in the
filter they stand. They denote the values of the filter, in turn, and the texts among them become
the literals of the clause that it is compiled to: the row is followed through the grammar to the
condition (`Derives.exists_operands`), and the condition through the compiler
(`Condition.payloads_of_compile`). So a place among the operands is a place in the query, and
`Session.Writes` says what is written there. -/

namespace FilterQuery

open FilterQuery.Text

variable {zones : Zone.Database}

namespace Operator

/-- The operators that compare a field with a list of values. -/
def takesList : Operator → Bool
  | .oneOf | .noneOf => true
  | _ => false

variable {op : Operator}

theorem takesValue_of_isComparison : op.isComparison = true → op.takesValue = true := by
  cases op <;> decide

theorem not_takesList_of_takesValue : op.takesValue = true → op.takesList = false := by
  cases op <;> decide

theorem not_takesValue_of_takesNothing : op.takesNothing = true → op.takesValue = false := by
  cases op <;> decide

theorem not_takesList_of_takesNothing : op.takesNothing = true → op.takesList = false := by
  cases op <;> decide

end Operator

namespace Condition

/-! ## The operands of a row of tokens -/

/-- The operator that the values behind a token of an operator stand under, if it takes any. -/
def governing? (text : String) : Option Operator :=
  (Operator.ofToken? text).filter fun op => op.takesValue || op.takesList

/-- The literals of a row of tokens that are values, each with its operator; `under` is the operator
that a literal would stand under here. -/
def operands : (under : Option Operator) → List Token → List (Operator × Token)
  | _, [] => []
  | some op, .literal raw quoted :: rest =>
    (op, .literal raw quoted) :: operands (if op.takesList then some op else none) rest
  | under, .openBracket :: rest => operands under rest
  | under, .comma :: rest => operands under rest
  | _, .operator text :: rest => operands (governing? text) rest
  | _, _ :: rest => operands none rest

/-- What the literal of an operand stands for in the query, if it is a text. -/
def operandPayload? (zones : Zone.Database) (operand : Operator × Token) : Option (List Char) :=
  match operand.2 with
  | .literal raw quoted =>
    match Literal.coerce zones (trim raw.toList) quoted operand.1 with
    | .ok v => payload? operand.1 v
    | .error _ => none
  | _ => none

variable {op : Operator} {t : Token} {v : Value} {row rest : List Token} {vs : List Value}

theorem DenotesNumber.denotes (h : DenotesNumber zones op t v) : Denotes zones op t v := by
  obtain ⟨-, hcoerce⟩ := h
  exact .intro hcoerce

theorem Denotes.operandPayload?_eq (h : Denotes zones op t v) :
    operandPayload? zones (op, t) = payload? op v := by
  obtain ⟨hv⟩ := h
  simp [operandPayload?, hv]

theorem payload?_of_isNumeric (h : v.isNumeric = true) : payload? op v = none := by
  cases v with
  | long | double => cases op <;> rfl
  | _ => cases h

theorem governing?_of_takesValue (h : op.takesValue = true) : governing? op.token = some op := by
  simp [governing?, Operator.ofToken?_token, h]

theorem governing?_of_takesList (h : op.takesList = true) : governing? op.token = some op := by
  simp [governing?, Operator.ofToken?_token, h]

theorem governing?_eq_none (hvalue : op.takesValue = false) (hlist : op.takesList = false) :
    governing? op.token = none := by
  simp [governing?, Operator.ofToken?_token, hvalue, hlist]

/-- A value is an operand, and nothing stands under its operator behind it. -/
theorem Denotes.operands_cons (h : Denotes zones op t v) (hop : op.takesList = false) :
    operands (some op) (t :: rest) = (op, t) :: operands none rest := by
  cases h
  simp [operands, hop]

/-- So are the values of a list, and the operator stays the same up to the bracket. -/
theorem DenotesList.exists_operands (h : DenotesList zones op row vs) (hop : op.takesList = true) :
    ∃ found, (∀ rest, operands (some op) (row ++ rest) = found ++ operands (some op) rest) ∧
      found.filterMap (operandPayload? zones) = vs.filterMap (payload? op) ∧
      List.Forall₂ (fun operand v => Denotes zones operand.1 operand.2 v) found vs := by
  induction h with
  | @one t v h =>
    refine ⟨[(op, t)], fun rest => ?_, by simp [List.filterMap_cons, h.operandPayload?_eq],
      .cons h .nil⟩
    cases h
    simp [operands, hop]
  | @more t v ts vs h _ ih =>
    obtain ⟨found, hfound, hpayloads, hdenotes⟩ := ih
    refine ⟨(op, t) :: found, fun rest => ?_, ?_, .cons h hdenotes⟩
    · cases h
      simp [operands, hop, hfound]
    · rw [List.filterMap_cons, List.filterMap_cons, h.operandPayload?_eq, hpayloads]

/-- The operands of a derived row, in turn, hold the texts of the condition, and denote its
values. -/
theorem Derives.exists_operands {phrase : Phrase} {n : Nat} {c : Condition}
    (h : Derives zones phrase n row c) :
    ∃ found, (∀ rest, operands none (row ++ rest) = found ++ operands none rest) ∧
      found.filterMap (operandPayload? zones) = c.payloads ∧
      List.Forall₂ (fun operand v => Denotes zones operand.1 operand.2 v) found c.values := by
  induction h with
  | term _ ih => exact ih
  | join join _ _ ihleft ihright =>
    obtain ⟨left, hleft, hpayloads, hdenotes⟩ := ihleft
    obtain ⟨right, hright, hpayloads', hdenotes'⟩ := ihright
    refine ⟨left ++ right, fun rest => ?_, by simp [hpayloads, hpayloads', payloads, payloadsAll],
      by simpa [values, valuesAll] using List.rel_append hdenotes hdenotes'⟩
    have hnone : governing? join.operator.token = none := by cases join <;> decide
    simp [hleft, operands, hnone, hright]
  | not _ ih =>
    obtain ⟨found, hfound, hkept⟩ := ih
    have hnone : governing? Operator.not.token = none := by decide
    exact ⟨found, fun rest => by simp [operands, hnone, hfound], hkept⟩
  | parentheses _ ih =>
    obtain ⟨found, hfound, hkept⟩ := ih
    exact ⟨found, fun rest => by simp [operands, hfound], hkept⟩
  | having name quoted _ ih =>
    obtain ⟨found, hfound, hkept⟩ := ih
    exact ⟨found, fun rest => by simp [operands, hfound], hkept⟩
  | @aggregate function t bound name field quoted quoted' op hname hop hbound =>
    have hvalue := Operator.takesValue_of_isComparison hop
    have hdenotes := hbound.denotes
    refine ⟨[(op, t)], fun rest => ?_, ?_, .cons hdenotes .nil⟩
    · simp [operands, governing?_of_takesValue hvalue,
        hdenotes.operands_cons (Operator.not_takesList_of_takesValue hvalue)]
    · -- A number is no text.
      have hnone : payload? op bound = none := payload?_of_isNumeric hbound.isNumeric
      simp [hdenotes.operandPayload?_eq, hnone, payloads]
  | nullity field quoted hop =>
    have hnone := governing?_eq_none (Operator.not_takesValue_of_takesNothing hop)
      (Operator.not_takesList_of_takesNothing hop)
    exact ⟨[], fun rest => by simp [operands, hnone], rfl, .nil⟩
  | oneOf field quoted h =>
    obtain ⟨found, hfound, hkept⟩ := h.exists_operands rfl
    have hop : governing? Operator.oneOf.token = some .oneOf := governing?_of_takesList rfl
    exact ⟨found, fun rest => by simp [operands, hop, hfound], hkept⟩
  | noneOf field quoted h =>
    obtain ⟨found, hfound, hkept⟩ := h.exists_operands rfl
    have hop : governing? Operator.noneOf.token = some .noneOf := governing?_of_takesList rfl
    exact ⟨found, fun rest => by simp [operands, hop, hfound], hkept⟩
  | @comparison op t v field quoted hop h =>
    refine ⟨[(op, t)], fun rest => ?_, ?_, .cons h .nil⟩
    · simp [operands, governing?_of_takesValue hop,
        h.operands_cons (Operator.not_takesList_of_takesValue hop)]
    · cases hpayload : payload? op v <;>
        simp [h.operandPayload?_eq, hpayload, payloads]

/-- The operands of a text that was parsed hold the texts of its condition and denote its values, in
turn. -/
theorem operands_of_parse {limits : Limits} {source : String} {c : Condition} {row : List Lexeme}
    (h : parse limits source zones = .ok c) (hrow : lexemes source.toList = .ok row) :
    (operands none (row.map Lexeme.token)).filterMap (operandPayload? zones) = c.payloads ∧
      List.Forall₂ (fun operand v => Denotes zones operand.1 operand.2 v)
        (operands none (row.map Lexeme.token)) c.values := by
  obtain ⟨row', _, hrow', -, hderives⟩ := exists_derives_of_parse h
  obtain rfl : row' = row := Except.ok.inj (hrow'.symm.trans hrow)
  obtain ⟨found, hfound, hkept⟩ := hderives.exists_operands
  have hall := hfound []
  rw [List.append_nil, operands, List.append_nil] at hall
  rwa [hall]

theorem payloads_of_parse {limits : Limits} {source : String} {c : Condition} {row : List Lexeme}
    (h : parse limits source zones = .ok c) (hrow : lexemes source.toList = .ok row) :
    (operands none (row.map Lexeme.token)).filterMap (operandPayload? zones) = c.payloads :=
  (operands_of_parse h hrow).1

/-- An operand is a token of the row. -/
theorem mem_of_mem_operands {under : Option Operator} {operand : Operator × Token}
    (h : operand ∈ operands under row) : operand.2 ∈ row := by
  fun_induction operands under row with
  | case1 => simp at h
  | case2 op raw quoted rest ih =>
    rcases List.mem_cons.1 h with rfl | h
    · exact List.mem_cons_self
    · exact List.mem_cons_of_mem _ (ih h)
  | case3 _ _ ih | case4 _ _ ih | case5 _ _ _ ih | case6 _ _ _ _ _ _ _ ih =>
    exact List.mem_cons_of_mem _ (ih h)

/-- An operand stands under an operator that takes values. -/
theorem takes_of_mem_operands {under : Option Operator} {operand : Operator × Token}
    (hunder : ∀ op ∈ under, (op.takesValue || op.takesList) = true)
    (h : operand ∈ operands under row) :
    (operand.1.takesValue || operand.1.takesList) = true := by
  fun_induction operands under row with
  | case1 => simp at h
  | case2 op raw quoted rest ih =>
    rcases List.mem_cons.1 h with rfl | h
    · exact hunder op rfl
    · refine ih (fun op' hop' => ?_) h
      split_ifs at hop'
      · exact hunder op' hop'
      · cases hop'
  | case3 _ _ ih | case4 _ _ ih => exact ih hunder h
  | case5 _ _ _ ih => exact ih (fun op hop => (Option.filter_eq_some_iff.1 hop).2) h
  | case6 _ _ _ _ _ _ _ ih => exact ih (by simp) h

/-- What the literal of a text stands for: the text, or the pattern of it. -/
theorem operandPayload?_text {raw text : String} {quoted : Bool} {under : Operator}
    (hmem : (under, .literal raw quoted) ∈ operands none row)
    (h : Literal.coerce zones (trim raw.toList) quoted under = .ok (.string text)) :
    operandPayload? zones (under, .literal raw quoted) =
      some (if under = .like then likePattern text.toList else text.toList) := by
  have htakes := takes_of_mem_operands (by simp) hmem
  rw [(Denotes.intro h).operandPayload?_eq]
  cases under with
  | null | notNull => cases htakes
  | _ => rfl

end Condition

/-! ## The literals of a query -/

namespace Clause

/-- Every text of a clause is a literal of it, and reads as that text where it stands. -/
theorem exists_parts_of_payloads {clause : Clause} {written : List Char}
    {before after : List (List Char)} (h : clause.payloads = before ++ written :: after) :
    ∃ lead rest : List Part, clause.parts = lead ++ .payload written :: rest ∧
      lead.filterMap Part.payload? = before ∧ rest.filterMap Part.payload? = after ∧
      clause.text = lead.flatMap Part.text ++ (quoted written ++ rest.flatMap Part.text) ∧
      QueryText.fragments (quoted written ++ rest.flatMap Part.text) =
        .literal written :: QueryText.fragments (rest.flatMap Part.text) := by
  obtain ⟨lead, tail, hparts, hlead, htail⟩ := List.filterMap_eq_append_iff.1 h
  obtain ⟨between, part, rest, rfl, hbetween, hpart, hrest⟩ := List.filterMap_eq_cons_iff.1 htail
  obtain rfl : part = .payload written := by
    cases part with
    | payload cs => exact congrArg _ (Option.some.inj hpart)
    | _ => cases hpart
  refine ⟨lead ++ between, rest, by rw [hparts, List.append_assoc], ?_, hrest, ?_, ?_⟩
  · rw [List.filterMap_append, hlead, List.filterMap_eq_nil_iff.2 hbetween, List.append_nil]
  · rw [← text_parts, hparts]
    simp [Part.text]
  · have hsep : Part.Separated (.payload written :: rest) := by
      have hall := separated_parts clause
      rw [hparts, ← List.append_assoc] at hall
      exact List.IsChain.right_of_append hall
    exact QueryText.fragments_quoted (Part.head?_flatMap_text_ne hsep rfl)

end Clause

namespace Session

open Condition

/-- What a session wrote for one of the operands of a filter that it accepted: one part of the
clause is the literal `written`, behind those of the operands `before` it and in front of those of
the operands `after` it, and it reads as that where it stands in the text. -/
def Writes (zones : Zone.Database) (s t : Session) (before after : List (Operator × Token))
    (written : List Char) : Prop :=
  ∃ (clause : Clause) (lead rest : List Clause.Part), t.clauses = s.clauses ++ [clause] ∧
    clause.parts = lead ++ .payload written :: rest ∧
    lead.filterMap Clause.Part.payload? = before.filterMap (operandPayload? zones) ∧
    rest.filterMap Clause.Part.payload? = after.filterMap (operandPayload? zones) ∧
    clause.text = lead.flatMap Clause.Part.text ++
      (quoted written ++ rest.flatMap Clause.Part.text) ∧
    QueryText.fragments (quoted written ++ rest.flatMap Clause.Part.text) =
      .literal written :: QueryText.fragments (rest.flatMap Clause.Part.text)

/-- What is written for an operand is what its text stands for. -/
theorem writes_of_parse {limits : Limits} {source : String} {c : Condition} {row : List Lexeme}
    {s t : Session} {before after : List (Operator × Token)} {operand : Operator × Token}
    {written : List Char} (hparse : parse limits source zones = .ok c)
    (hrow : lexemes source.toList = .ok row) (haccept : s.accept c = .ok t)
    (hplace : operands none (row.map Lexeme.token) = before ++ operand :: after)
    (hwritten : operandPayload? zones operand = some written) :
    Writes zones s t before after written := by
  obtain ⟨clause, names, hcompile, rfl⟩ := accept_eq_ok_iff.1 haccept
  have hpayloads : clause.payloads =
      before.filterMap (operandPayload? zones) ++
        written :: after.filterMap (operandPayload? zones) := by
    rw [payloads_of_compile hcompile, ← payloads_of_parse hparse hrow, hplace,
      List.filterMap_append, List.filterMap_cons_some hwritten]
  obtain ⟨lead, rest, hwrites⟩ := Clause.exists_parts_of_payloads hpayloads
  exact ⟨clause, lead, rest, rfl, hwrites⟩

end Session

/-- The session of the company that one filter was accepted by, from its start on. -/
def Example.accepted? (entity source : String) : Option Session := do
  let catalog ← (Catalog.build company).toOption
  let s ← (Session.start catalog entity).toOption
  let c ← (Condition.parse {} source).toOption
  (s.accept c).toOption

theorem Example.exists_of_accepted? {entity source : String} {t : Session}
    (h : accepted? entity source = some t) :
    ∃ catalog s c, Catalog.build company = .ok catalog ∧ Session.start catalog entity = .ok s ∧
      Condition.parse {} source = .ok c ∧ s.accept c = .ok t := by
  have hok {ε α : Type} {x : Except ε α} {a : α} (hx : x.toOption = some a) : x = .ok a := by
    cases x with
    | error => cases hx
    | ok b => exact congrArg _ (Option.some.inj hx)
  simp only [accepted?, Option.bind_eq_bind, Option.bind_eq_some_iff] at h
  obtain ⟨catalog, hcatalog, s, hs, c, hc, h⟩ := h
  exact ⟨catalog, s, c, hok hcatalog, hok hs, hok hc, hok h⟩

end FilterQuery
