import FilterQuery.Proofs.CompileErrors
import FilterQuery.Proofs.LiteralFaults
import Mathlib.Data.List.DropRight

set_option autoImplicit false

/-! # What a parsed filter looks like

The type of conditions leaves room for conditions that no text denotes: a comparison without a
value, an empty list, a group of three, a year of five digits. The parser never builds one, at
whatever depth, in conditions on members as elsewhere. `Condition.nodes` are the conditions that a
filter is made of, and `Condition.isWellFormed` is what holds of each of them by itself.

Literals are read by their shapes, so what a value can be is a fact about literals
(`Literal.fits_of_coerce`); the rest follows the grammar. -/

namespace FilterQuery

open FilterQuery.Text

variable {zones : Zone.Database}

/-! ## Trimmed text -/

theorem Text.trim_trim (cs : List Char) : trim (trim cs) = trim cs := by
  refine trim_eq_self (fun c hc => ?_) fun c hc => ?_
  · -- The end is cut off text that starts with no blank.
    obtain ⟨cut, hcut⟩ : trim cs <+: trimStart cs := List.rdropWhile_prefix isBlank _
    have hhead : (cs.dropWhile isBlank).head? = some c := by
      show (trimStart cs).head? = some c
      rw [← hcut, List.head?_append, hc, Option.some_or]
    simpa [hhead] using List.head?_dropWhile_not isBlank cs
  · obtain ⟨hne, rfl⟩ := List.mem_getLast?_eq_getLast hc
    exact Bool.eq_false_iff.2 (List.rdropWhile_last_not isBlank (trimStart cs) hne)

theorem Text.trimmed_trimmed (s : String) : trimmed (trimmed s) = trimmed s := by
  simp [trimmed, trim_trim]

/-! ## Values of literals -/

namespace Value

variable {op : Operator} {v : Value}

/-- What a value has to be under an operator: a pattern has a wildcard, a month and day is a day of
some year, and a year has four digits. -/
def fits (op : Operator) : Value → Bool
  | .string s => op != .like || Escape.hasWildcard s.toList
  | .monthDay md => (Date.of? 2000 md.month md.day).isSome
  | .year y => 0 ≤ y && y ≤ 9999
  | _ => true

theorem fits_of_isNumeric (h : v.isNumeric = true) : v.fits op = true := by
  cases v with
  | long | double => rfl
  | _ => cases h

/-- A leap year has all days that recur. -/
theorem fits_monthDay (md : MonthDay) : (Value.monthDay md).fits op = true := by
  have hday : md.day ≤ daysInMonth 2000 md.month := md.day_le
  simp [fits, Date.of?, md.month_pos, md.month_le, md.day_pos, hday]

theorem fits_year {cs : List Char} (h : Shape.isYear cs = true) :
    (Value.year (ofDigits (cs.take 4))).fits op = true := by
  simp only [Shape.isYear, Bool.and_eq_true] at h
  have hlength := Shape.length_of_areDigits h.1
  have hlt := ofDigits_lt fun c hc => isDigit_of_areDigits h.1 hc
  rw [hlength] at hlt
  simp only [fits, Bool.and_eq_true, decide_eq_true_eq]
  omega

end Value

namespace Literal

variable {cs : List Char} {quoted : Bool} {op : Operator} {v : Value}

theorem hasWildcard_containing (cs : List Char) :
    Escape.hasWildcard (Escape.containing cs) = true := by
  unfold Escape.containing
  split
  · assumption
  · rfl

theorem fits_stringOrBoolean (cs : List Char) (op : Operator) :
    (stringOrBoolean cs op).fits op = true := by
  unfold stringOrBoolean
  simp only
  split_ifs with _ _ hlike
  · rfl
  · rfl
  · simp [Value.fits, hasWildcard_containing]
  · simp [Value.fits, hlike]

/-- What a literal denotes fits its operator. -/
theorem fits_of_coerce (h : coerce zones cs quoted op = .ok v) : v.fits op = true := by
  unfold coerce at h
  split at h
  · exact Value.fits_of_isNumeric (isNumeric_of_number (orRefuse_eq_ok.1 h))
  · cases h
    exact fits_stringOrBoolean cs op
  · split_ifs at h
    · split at h <;> cases h
      rfl
    · obtain ⟨dt, -, rfl⟩ := Option.map_eq_some_iff.1 (orInvalid_eq_ok_iff.1 h)
      rfl
  · obtain ⟨d, -, rfl⟩ := Option.map_eq_some_iff.1 (orInvalid_eq_ok_iff.1 h)
    rfl
  · obtain ⟨t, -, rfl⟩ := Option.map_eq_some_iff.1 (orInvalid_eq_ok_iff.1 h)
    rfl
  · obtain ⟨md, -, rfl⟩ := Option.map_eq_some_iff.1 (orInvalid_eq_ok_iff.1 h)
    exact Value.fits_monthDay md
  · next hshape =>
    cases h
    split_ifs at hshape
    exact Value.fits_year (Shape.recognises_of_ofText hshape (by decide))

end Literal

namespace Condition

/-! ## The conditions of a filter -/

mutual

/-- A condition and all conditions in it. -/
def nodes : Condition → List Condition
  | .simple field op value => [.simple field op value]
  | .oneOf field values => [.oneOf field values]
  | .noneOf field values => [.noneOf field values]
  | .not c => .not c :: nodes c
  | .group join first second more =>
    .group join first second more :: (nodes first ++ nodes second ++ nodesAll more)
  | .having field sub => .having field sub :: nodes sub
  | .aggregate field function op bound => [.aggregate field function op bound]

def nodesAll : List Condition → List Condition
  | [] => []
  | c :: cs => nodes c ++ nodesAll cs

end

/-- A condition that has what it takes and no more. The conditions in it are not looked at. -/
def isWellFormed : Condition → Bool
  | .simple field op value =>
    trimmed field == field && (value.isNone == op.takesNothing) &&
      value.all fun v => op.takesValue && v.fits op
  | .oneOf field values => trimmed field == field && !values.isEmpty && values.all (·.fits .oneOf)
  | .noneOf field values =>
    trimmed field == field && !values.isEmpty && values.all (·.fits .noneOf)
  | .not _ => true
  | .group _ _ _ more => more.isEmpty
  | .having field _ => trimmed field == field
  | .aggregate field _ op bound => trimmed field == field && op.isComparison && bound.isNumeric

/-! ## Derived conditions -/

theorem Denotes.fits {op : Operator} {t : Token} {v : Value} (h : Denotes zones op t v) :
    v.fits op = true := by
  obtain ⟨hv⟩ := h
  exact Literal.fits_of_coerce hv

theorem DenotesList.fits {op : Operator} {row : List Token} {vs : List Value}
    (h : DenotesList zones op row vs) : vs ≠ [] ∧ ∀ v ∈ vs, v.fits op = true := by
  induction h with
  | one h => simpa using h.fits
  | more h _ ih => simpa using ⟨h.fits, ih.2⟩

theorem isWellFormed_of_derives {phrase : Phrase} {n : Nat} {row : List Token} {c : Condition}
    (h : Derives zones phrase n row c) : ∀ node ∈ c.nodes, node.isWellFormed = true := by
  induction h with
  | term _ ih => exact ih
  | join join _ _ ihleft ihright =>
    rw [nodes, List.forall_mem_cons, List.forall_mem_append, List.forall_mem_append]
    exact ⟨rfl, ⟨ihleft, ihright⟩, by simp [nodesAll]⟩
  | not _ ih =>
    rw [nodes, List.forall_mem_cons]
    exact ⟨rfl, ih⟩
  | parentheses _ ih => exact ih
  | having name quoted _ ih =>
    rw [nodes, List.forall_mem_cons]
    exact ⟨by simp [isWellFormed, trimmed_trimmed], ih⟩
  | aggregate name field quoted quoted' op hname hop hbound =>
    simp [nodes, isWellFormed, trimmed_trimmed, hop, hbound.isNumeric]
  | nullity field quoted hop => simp [nodes, isWellFormed, trimmed_trimmed, hop]
  | oneOf field quoted h | noneOf field quoted h =>
    simpa [nodes, isWellFormed, trimmed_trimmed] using h.fits
  | @comparison op t v field quoted hop h =>
    have hnothing : op.takesNothing = false := by
      revert hop
      cases op <;> decide
    simp [nodes, isWellFormed, trimmed_trimmed, hop, hnothing, h.fits]

/-- **Parsed filters are well formed.** In every filter that a text denotes, each condition has what
its operator takes: nothing, a value that fits it, values, or a number. Groups are pairs, and no
field has blanks around it. -/
theorem isWellFormed_of_parse {limits : Limits} {source : String} {c : Condition}
    (h : parse limits source zones = .ok c) : ∀ node ∈ c.nodes, node.isWellFormed = true := by
  obtain ⟨row, n, -, -, hderives⟩ := exists_derives_of_parse h
  exact isWellFormed_of_derives hderives

/-- A filter whose literals are of all kinds that are checked, most of them in a condition on
members. -/
def checkedLiterals : String :=
  "\" name \"$like:x$and:$not:$having:bs(d$nin:[--02-29,0000-]$or:$having:sum( n )$gt:-1.5)"

/-- It has seven conditions, five of them in the negation. -/
theorem isWellFormed_checkedLiterals : ∃ c, parse {} checkedLiterals = .ok c ∧
    c.nodes.length = 7 ∧ ∀ node ∈ c.nodes, node.isWellFormed = true := by
  have hrun : ((parse {} checkedLiterals).toOption.any fun c => decide (c.nodes.length = 7)) =
      true := by decide +kernel
  obtain ⟨c, hparse, hrun⟩ := exists_ok_of_any hrun
  exact ⟨c, hparse, of_decide_eq_true hrun, isWellFormed_of_parse hparse⟩

end Condition

end FilterQuery
