import FilterQuery.Proofs.BooleanStructure
import Mathlib.Data.List.Lex

set_option autoImplicit false

/-! # Comparisons of dates and times, component by component

The comparison of a month and day, or of a time, is written out with the components of a field:
`(MONTH(f) > 2 OR (MONTH(f) = 2 AND DAY(f) >= 3))`. Its text is read here the way a database reads
it: brackets nest, `AND` binds closer than `OR`, and what remains are comparisons of a component
with a number, which a row of the table decides (`evaluate`). On every row the text then says how
the components of the row compare with the values in the lexicographic order (`Operator.Holds`).

Quotes and commas are letters like any other for this reader, so that the field may be any text
without spaces and brackets. A comparison is a unit whatever stands around it (`Says`), and the
shapes of a comparison are put together from units. -/

namespace FilterQuery

open FilterQuery.Text

/-! ## Comparisons of numbers -/

namespace Symbol

def all : List Symbol := [.eq, .ne, .gt, .gte, .lt, .lte]

def ofText? (cs : List Char) : Option Symbol := all.find? fun s => s.text == cs

/-- What the symbol says of two numbers. -/
def holds : Symbol → Int → Int → Bool
  | .eq, x, n => x == n
  | .ne, x, n => x != n
  | .gt, x, n => decide (n < x)
  | .gte, x, n => decide (n ≤ x)
  | .lt, x, n => decide (x < n)
  | .lte, x, n => decide (x ≤ n)

theorem ofText?_text (s : Symbol) : ofText? s.text = some s := by cases s <;> decide

theorem eq_holds_iff {x n : Int} : Symbol.eq.holds x n = true ↔ x = n := by simp [holds]

theorem ne_holds_iff {x n : Int} : Symbol.ne.holds x n = true ↔ x ≠ n := by simp [holds]

end Symbol

/-- Decimal digits, with a minus sign in front or none. -/
def integer? : List Char → Option Int
  | '-' :: digits => if allDigits digits then some (-(ofDigits digits : Int)) else none
  | digits => if allDigits digits then some (ofDigits digits : Int) else none

theorem integer?_natDigits (n : Nat) : integer? (natDigits n) = some (n : Int) := by
  unfold integer?
  split
  · next digits heq =>
    have hdigit : isDigit '-' = true := isDigit_of_mem_toDigits (heq ▸ List.mem_cons_self)
    exact absurd hdigit (by decide)
  · rw [if_pos (allDigits_natDigits n), ofDigits_natDigits]

theorem integer?_intText (n : Int) : integer? (intText n) = some n := by
  unfold intText
  split
  · next hneg =>
    rw [integer?, if_pos (allDigits_natDigits _), ofDigits_natDigits]
    congr 1
    omega
  · next hpos =>
    rw [integer?_natDigits]
    congr 1
    omega

/-! ## The reader -/

namespace QueryText

open Clause

/-- The tokens of a character that ends a word. -/
def boundary? (c : Char) : Option (List Token) :=
  if c = ' ' then some []
  else if c = '(' then some [.opening]
  else if c = ')' then some [.closing]
  else none

/-- The words and brackets of a text behind the first characters of a word. -/
def wordsFrom (word : List Char) : List Char → List Token
  | [] => wordToken word
  | c :: rest =>
    match boundary? c with
    | some tokens => wordToken word ++ tokens ++ wordsFrom [] rest
    | none => wordsFrom (word ++ [c]) rest

/-- The words and brackets of a text without literals. -/
def words (cs : List Char) : List Token := wordsFrom [] cs

mutual

/-- The truth of a formula, if all its comparisons have one. -/
def Formula.truth (atom : List Token → Option Bool) : Formula → Option Bool
  | .atom ts => atom ts
  | .not f => (truth atom f).map (!·)
  | .all fs => (truths atom fs).map (·.all id)
  | .any fs => (truths atom fs).map (·.any id)

def Formula.truths (atom : List Token → Option Bool) : List Formula → Option (List Bool)
  | [] => some []
  | f :: fs => do
    let b ← truth atom f
    let bs ← truths atom fs
    return b :: bs

end

def components : List Component := [.year, .month, .day, .hour, .minute, .second]

/-- The component of the field that a call stands for. -/
def component? (field : List Char) (call : List Token) : Option Component :=
  components.find? fun component => call == words (Clause.call component.name field)

/-- The truth of a comparison of a component of the field, on a row with these components. -/
def comparisonTruth (field : List Char) (shown : Component → Int) (ts : List Token) : Option Bool :=
  match ts.reverse with
  | .word numeral :: .word symbol :: call => do
    let component ← component? field call.reverse
    let symbol ← Symbol.ofText? symbol
    let n ← integer? numeral
    return symbol.holds (shown component) n
  | _ => none

/-- The truth of a text about the components of a field. -/
def evaluate (field : List Char) (shown : Component → Int) (text : List Char) : Option Bool := do
  let formula ← Layer.empty.run [] (words text)
  formula.truth (comparisonTruth field shown)

example : evaluate "f".toList (fun | .month => 2 | _ => 7)
    "MONTH(f) = 2 OR MONTH(f) = 3 AND DAY(f) < 7".toList = some true ∧
    evaluate "f".toList (fun | .month => 2 | _ => 7)
      "(MONTH(f) = 2 OR MONTH(f) = 3) AND DAY(f) < 7".toList = some false := by decide +kernel

/-! ### Words of a text -/

variable {c d : Char} {word cs rest : List Char} {ts : List Token}

theorem wordsFrom_append (hd : boundary? d = some ts) :
    wordsFrom word (cs ++ d :: rest) = wordsFrom word cs ++ ts ++ words rest := by
  induction cs generalizing word with
  | nil => simp [wordsFrom, hd, words]
  | cons c cs ih =>
    rw [List.cons_append, wordsFrom, wordsFrom]
    cases boundary? c with
    | none => exact ih
    | some tokens => simp [ih]

theorem words_append (hd : boundary? d = some ts) :
    words (cs ++ d :: rest) = words cs ++ ts ++ words rest := wordsFrom_append hd

theorem words_of_forall (h : ∀ c ∈ cs, boundary? c = none) : words cs = wordToken cs := by
  have hfrom : ∀ word, wordsFrom word cs = wordToken (word ++ cs) := by
    induction cs with
    | nil => simp [wordsFrom]
    | cons c cs ih =>
      obtain ⟨hc, hcs⟩ := List.forall_mem_cons.1 h
      intro word
      rw [wordsFrom, hc]
      simp [ih hcs]
  exact hfrom []

theorem wordToken_of_ne_nil (hne : cs ≠ []) : wordToken cs = [.word cs] := by
  rw [wordToken, if_neg (by simpa using hne)]

theorem boundary?_eq_none (hspace : c ≠ ' ') (hopening : c ≠ '(') (hclosing : c ≠ ')') :
    boundary? c = none := by simp [boundary?, hspace, hopening, hclosing]

theorem words_call {field : List Char} (component : Component)
    (hfield : ∀ c ∈ field, boundary? c = none) :
    words (call component.name field) =
      .word component.name.toList :: brackets (wordToken field) := by
  have hname : words component.name.toList = [.word component.name.toList] := by
    cases component <;> rfl
  have hcall : call component.name field =
      component.name.toList ++ '(' :: (field ++ ')' :: []) := by simp [call]
  rw [hcall, words_append rfl, words_append rfl, hname, words_of_forall hfield]
  simp [brackets, words, wordsFrom, wordToken]

theorem wordToken_symbol (symbol : Symbol) : wordToken symbol.text = [.word symbol.text] := by
  cases symbol <;> rfl

theorem wordToken_intText (n : Int) : wordToken (intText n) = [.word (intText n)] := by
  refine wordToken_of_ne_nil ?_
  unfold intText
  split
  · simp
  · exact Nat.toDigits_ne_nil

theorem words_symbol (symbol : Symbol) : words symbol.text = [.word symbol.text] := by
  cases symbol <;> rfl

theorem words_intText (n : Int) : words (intText n) = [.word (intText n)] := by
  rw [words_of_forall, wordToken_intText]
  intro c hc
  rcases mem_intText hc with hdigit | hletter
  · exact boundary?_eq_none (ne_of_isDigit hdigit (by decide)) (ne_of_isDigit hdigit (by decide))
      (ne_of_isDigit hdigit (by decide))
  · have hall : (numeralLetters.all fun d => (boundary? d).isNone) = true := by decide
    simpa using List.all_eq_true.1 hall c hletter

theorem words_compareComponent (ref : Ref) (component : Component) (symbol : Symbol) (n : Int) :
    words (Clause.compareComponent component ref symbol n).text =
      words (call component.name ref.text) ++ [.word symbol.text, .word (intText n)] := by
  have htext : (Clause.compareComponent component ref symbol n).text =
      call component.name ref.text ++ ' ' :: (symbol.text ++ ' ' :: intText n) := by
    simp [Clause.text]
  rw [htext, words_append rfl, words_append rfl, words_symbol, words_intText]
  simp

theorem words_textAll (connective : Connective) (clauses : List Clause) :
    words (textAll connective clauses) =
      joinTokens connective (clauses.map fun clause => words clause.text) := by
  induction clauses with
  | nil => rfl
  | cons clause rest ih =>
    cases rest with
    | nil => rfl
    | cons next rest =>
      have htext : textAll connective (clause :: next :: rest) = clause.text ++
          ' ' :: ((jointWord connective).toList ++ ' ' :: textAll connective (next :: rest)) := by
        cases connective <;> simp [textAll, joint, jointWord]
      have hword : words (jointWord connective).toList = [.word (jointWord connective).toList] := by
        cases connective <;> rfl
      rw [htext, words_append rfl, words_append rfl, hword, ih]
      simp [joinTokens]

theorem words_group (connective : Connective) (clauses : List Clause) :
    words (Clause.group connective clauses).text =
      brackets (joinTokens connective (clauses.map fun clause => words clause.text)) := by
  have htext : (Clause.group connective clauses).text =
      [] ++ '(' :: (textAll connective clauses ++ ')' :: []) := by simp [Clause.text]
  rw [htext, words_append rfl, words_append rfl, words_textAll]
  simp [brackets, words, wordsFrom, wordToken]

/-! ### Units and their truth -/

variable {field : List Char} {shown : Component → Int} {b : Bool} {connective : Connective}

/-- The tokens are one unit for a reader, and it has this truth on the row. -/
def Says (field : List Char) (shown : Component → Int) (ts : List Token) (b : Bool) : Prop :=
  ∃ r, ReadsAs ts r ∧ r.truth (comparisonTruth field shown) = some b

theorem Says.evaluate_eq {text : List Char} (h : Says field shown (words text) b) :
    evaluate field shown text = some b := by
  obtain ⟨r, hreads, htruth⟩ := h
  rw [evaluate, hreads.run_eq]
  exact htruth

theorem component?_call (component : Component) (hfield : ∀ c ∈ field, boundary? c = none) :
    component? field (words (call component.name field)) = some component := by
  have hinj : ∀ other : Component,
      (words (call component.name field) == words (call other.name field)) =
        decide (component = other) := by
    intro other
    rw [words_call component hfield, words_call other hfield]
    cases component <;> cases other <;> simp [Component.name]
  simp only [component?, hinj]
  cases component <;> rfl

/-- A comparison of a component says what its symbol says. -/
theorem says_compareComponent {ref : Ref} (hfield : ∀ c ∈ ref.text, boundary? c = none)
    (shown : Component → Int) (component : Component) (symbol : Symbol) (n : Int) :
    Says ref.text shown (words (Clause.compareComponent component ref symbol n).text)
      (symbol.holds (shown component) n) := by
  have hnot : Token.word component.name.toList ≠ .word "NOT".toList := by
    cases component <;> decide
  have hflat : Flat (brackets (wordToken ref.text) ++ [.word symbol.text, .word (intText n)]) := by
    have hright := (flat_symbol symbol).append (flat_numeral fun d hd => @mem_intText n d hd)
    rw [wordToken_symbol, wordToken_intText] at hright
    exact (flat_brackets (matched_word ref.text)).append hright
  refine ⟨.atom (words (Clause.compareComponent component ref symbol n).text), ?_, ?_⟩
  · rw [words_compareComponent, words_call component hfield, List.cons_append]
    exact readsAs_cons rfl hnot hflat
  · rw [Formula.truth, comparisonTruth, words_compareComponent, List.reverse_append]
    simp [component?_call component hfield, Symbol.ofText?_text, integer?_intText]

/-- What joined truths come to. -/
def joinedTruth : Connective → List Bool → Bool
  | .and, bs => bs.all id
  | .or, bs => bs.any id

theorem truth_joined {atom : List Token → Option Bool} {rs : List Formula} {bs : List Bool}
    (h : Formula.truths atom rs = some bs) :
    (Formula.joined connective rs).truth atom = some (joinedTruth connective bs) := by
  fun_cases Formula.joined connective rs with
  | case1 connective f =>
    -- A single formula is not joined with anything.
    cases hf : f.truth atom with
    | none => simp [Formula.truths, hf] at h
    | some b =>
      obtain rfl : [b] = bs := by simpa [Formula.truths, hf] using h
      cases connective <;> simp [joinedTruth]
  | case2 => simp [Formula.truth, h, joinedTruth]
  | case3 => simp [Formula.truth, h, joinedTruth]

/-- Units in brackets with a connective between them are a unit. -/
theorem says_group (connective : Connective) {clauses : List Clause} {bs : List Bool}
    (hne : clauses ≠ [])
    (h : List.Forall₂ (fun clause b => Says field shown (words clause.text) b) clauses bs) :
    Says field shown (words (Clause.group connective clauses).text)
      (joinedTruth connective bs) := by
  have hunits : ∃ rs, List.Forall₂ ReadsAs (clauses.map fun clause => words clause.text) rs ∧
      Formula.truths (comparisonTruth field shown) rs = some bs := by
    clear hne
    induction h with
    | nil => exact ⟨[], .nil, rfl⟩
    | cons hsays _ ih =>
      obtain ⟨r, hreads, htruth⟩ := hsays
      obtain ⟨rs, hrest, htruths⟩ := ih
      exact ⟨r :: rs, .cons hreads hrest, by simp [Formula.truths, htruth, htruths]⟩
  obtain ⟨rs, hreads, htruths⟩ := hunits
  rw [words_group]
  exact ⟨_, readsAs_group hreads (by simpa using hne), truth_joined htruths⟩

end QueryText

/-! ## Rows in the lexicographic order -/

namespace Operator

/-- How two rows of numbers compare, from the left. -/
def Holds : Operator → List Int → List Int → Prop
  | .eq, xs, ns => xs = ns
  | .ne, xs, ns => xs ≠ ns
  | .gt, xs, ns => List.Lex (· < ·) ns xs
  | .gte, xs, ns => xs = ns ∨ List.Lex (· < ·) ns xs
  | .lt, xs, ns => List.Lex (· < ·) xs ns
  | .lte, xs, ns => xs = ns ∨ List.Lex (· < ·) xs ns
  | _, _, _ => False

/-- The comparison that holds where this one does not. -/
def complement? : Operator → Option Operator
  | .eq => some .ne
  | .ne => some .eq
  | .gt => some .lte
  | .lte => some .gt
  | .lt => some .gte
  | .gte => some .lt
  | _ => none

variable {op other : Operator} {strict last : Symbol} {x n : Int} {xs ns : List Int}

/-- The last components are compared with the symbol of the operator itself. -/
theorem holds_singleton_iff (hop : op.ordering? = some (strict, last)) :
    op.Holds [x] [n] ↔ last.holds x n = true := by
  cases op with
  | gt | lt =>
    cases hop
    simp [Holds, Symbol.holds]
  | gte =>
    cases hop
    simpa [Holds, Symbol.holds, eq_comm] using (Int.le_iff_eq_or_lt (a := n) (b := x)).symm
  | lte =>
    cases hop
    simpa [Holds, Symbol.holds] using (Int.le_iff_eq_or_lt (a := x) (b := n)).symm
  | _ => cases hop

/-- A component decides unless it is equal; then the components behind it do. -/
theorem holds_cons_iff (hop : op.ordering? = some (strict, last)) :
    op.Holds (x :: xs) (n :: ns) ↔ strict.holds x n = true ∨ x = n ∧ op.Holds xs ns := by
  cases op with
  | gt | lt =>
    cases hop
    simp [Holds, Symbol.holds, List.cons_lex_cons_iff, eq_comm]
  | gte | lte =>
    cases hop
    simp only [Holds, Symbol.holds, List.cons_lex_cons_iff, List.cons.injEq, decide_eq_true_eq]
    grind
  | _ => cases hop

theorem not_lex_iff : ¬ List.Lex (· < ·) xs ns ↔ xs = ns ∨ List.Lex (· < ·) ns xs := by
  constructor
  · intro hnot
    rcases trichotomous_of (List.Lex (· < ·)) xs ns with hlt | heq | hgt
    · exact absurd hlt hnot
    · exact .inl heq
    · exact .inr hgt
  · rintro (rfl | hgt) hlt
    · exact asymm_of _ hlt hlt
    · exact asymm_of _ hlt hgt

/-- Of two complementary comparisons one holds, and not both. -/
theorem holds_complement_iff (h : op.complement? = some other) :
    other.Holds xs ns ↔ ¬ op.Holds xs ns := by
  cases op with
  | eq =>
    cases h
    rfl
  | ne =>
    cases h
    rw [Holds, Holds, not_ne_iff]
  | lt =>
    cases h
    exact not_lex_iff.symm
  | gt =>
    cases h
    rw [Holds, Holds, not_lex_iff, eq_comm]
  | gte =>
    cases h
    rw [Holds, Holds, ← not_lex_iff, not_not]
  | lte =>
    cases h
    rw [Holds, Holds, eq_comm, ← not_lex_iff, not_not]
  | _ => cases h

end Operator

namespace Clause

open QueryText

variable {ref : Ref} {shown : Component → Int} {op : Operator} {strict last : Symbol}
  {row : List (Component × Nat)} {clause : Clause}

/-- The components that a field shows, in the order of a row. -/
def shownRow (shown : Component → Int) (row : List (Component × Nat)) : List Int :=
  row.map fun entry => shown entry.1

/-- The values of a row. -/
def valueRow (row : List (Component × Nat)) : List Int := row.map fun entry => (entry.2 : Int)

/-- Rows are equal if all their components are. -/
theorem shownRow_eq_valueRow_iff :
    shownRow shown row = valueRow row ↔ ∀ entry ∈ row, shown entry.1 = entry.2 :=
  List.map_inj_left

/-- Comparisons of all components by the same symbol, joined. -/
theorem says_components (hfield : ∀ c ∈ ref.text, boundary? c = none) (connective : Connective)
    (symbol : Symbol) (hrow : row ≠ []) :
    Says ref.text shown (words (Clause.group connective
        (row.map fun entry => .compareComponent entry.1 ref symbol entry.2)).text)
      (joinedTruth connective (row.map fun entry => symbol.holds (shown entry.1) entry.2)) := by
  refine says_group connective (by simpa using hrow) ?_
  rw [List.forall₂_map_left_iff, List.forall₂_map_right_iff, List.forall₂_same]
  exact fun entry _ => says_compareComponent hfield shown entry.1 symbol entry.2

/-- The nested comparison of a row says how the row stands to its values. -/
theorem exists_says_ordered (hfield : ∀ c ∈ ref.text, boundary? c = none)
    (hop : op.ordering? = some (strict, last)) (hrow : row ≠ []) :
    ∃ b, Says ref.text shown (words (ordered ref strict last row).text) b ∧
      (b = true ↔ op.Holds (shownRow shown row) (valueRow row)) := by
  fun_induction ordered ref strict last row with
  | case1 => exact absurd rfl hrow
  | case2 component n =>
    refine ⟨_, says_compareComponent hfield shown component last n, ?_⟩
    exact (Operator.holds_singleton_iff hop).symm
  | case3 component n rest hrest ih =>
    obtain ⟨b, hsays, hb⟩ := ih hrest
    have hequal := says_compareComponent hfield shown component .eq n
    have hstrict := says_compareComponent hfield shown component strict n
    have hinner := says_group .and (by simp) (.cons hequal (.cons hsays .nil))
    have houter := says_group .or (by simp) (.cons hstrict (.cons hinner .nil))
    refine ⟨_, houter, ?_⟩
    have hcons : op.Holds (shown component :: shownRow shown rest) (n :: valueRow rest) ↔
        strict.holds (shown component) n = true ∨ shown component = n ∧ b = true := by
      rw [Operator.holds_cons_iff hop, hb]
    simpa [joinedTruth, Symbol.eq_holds_iff, shownRow, valueRow] using hcons.symm

/-- The text of a comparison is true on the rows of the table on which the comparison holds. -/
theorem exists_evaluate_compareRow? (hfield : ∀ c ∈ ref.text, boundary? c = none)
    (hrow : row ≠ []) (h : compareRow? ref op row = some clause) :
    ∃ b, evaluate ref.text shown clause.text = some b ∧
      (b = true ↔ op.Holds (shownRow shown row) (valueRow row)) := by
  unfold compareRow? at h
  split at h
  · cases h
    refine ⟨_, (says_components hfield .and .eq hrow).evaluate_eq, ?_⟩
    simp [joinedTruth, Symbol.eq_holds_iff, Operator.Holds, shownRow_eq_valueRow_iff]
  · cases h
    refine ⟨_, (says_components hfield .or .ne hrow).evaluate_eq, ?_⟩
    simp [joinedTruth, Symbol.ne_holds_iff, Operator.Holds, shownRow_eq_valueRow_iff]
  · obtain ⟨⟨strict, last⟩, hop, rfl⟩ := Option.map_eq_some_iff.1 h
    obtain ⟨b, hsays, hb⟩ := exists_says_ordered hfield hop hrow
    exact ⟨b, hsays.evaluate_eq, hb⟩

theorem compareRow?_eq_none_iff : compareRow? ref op row = none ↔ op.isComparison = false := by
  cases op <;> simp [compareRow?, Operator.ordering?, Operator.isComparison]

/-- What the comparison of a field with a row of values has to be, if the field shows `xs` and the
values are `ns`. -/
structure Decides (ref : Ref) (shown : Component → Int) (op : Operator)
    (row : List (Component × Nat)) (xs ns : List Int) : Prop where
  /-- There is one under the operators that compare. -/
  none_iff : compareRow? ref op row = none ↔ op.isComparison = false
  /-- Its text says how the field stands to the values. -/
  exists_truth : ∀ clause, compareRow? ref op row = some clause →
    ∃ b, evaluate ref.text shown clause.text = some b ∧ (b = true ↔ op.Holds xs ns)
  /-- The text of the complementary comparison says the opposite. -/
  complement : ∀ other clause clause', op.complement? = some other →
    compareRow? ref op row = some clause → compareRow? ref other row = some clause' →
    ∃ b, evaluate ref.text shown clause.text = some b ∧
      evaluate ref.text shown clause'.text = some (!b)

theorem decides_of_forall (hfield : ∀ c ∈ ref.text, boundary? c = none) (hrow : row ≠ []) :
    Decides ref shown op row (shownRow shown row) (valueRow row) := by
  refine ⟨compareRow?_eq_none_iff, fun clause h => exists_evaluate_compareRow? hfield hrow h, ?_⟩
  intro other clause clause' hother h h'
  obtain ⟨b, htruth, hb⟩ := exists_evaluate_compareRow? hfield hrow h
  obtain ⟨b', htruth', hb'⟩ := exists_evaluate_compareRow? hfield hrow h'
  rw [Operator.holds_complement_iff hother, ← hb] at hb'
  have hopposite : b' = !b := by rw [Bool.eq_iff_iff, hb', Bool.not_eq_true']; simp
  exact ⟨b, htruth, hopposite ▸ htruth'⟩

/-- **Components are compared in their order.** For a field without spaces and brackets, the text
of a comparison with a month and day, with a time or with any other row of values is true on
exactly those rows of the table whose components stand in the order of the operator to the values,
from the first component to the last. -/
theorem decides_components (ref : Ref) (hspace : ' ' ∉ ref.text) (hopening : '(' ∉ ref.text)
    (hclosing : ')' ∉ ref.text) (shown : Component → Int) (op : Operator) :
    (∀ row, row ≠ [] → Decides ref shown op row (shownRow shown row) (valueRow row)) ∧
    (∀ md : MonthDay, Decides ref shown op (Scope.monthDayRow md) [shown .month, shown .day]
      [(md.month : Int), md.day]) ∧
    ∀ t : Time, Decides ref shown op (Scope.timeRow t) [shown .hour, shown .minute, shown .second]
      [(t.hour : Int), t.minute, t.second] := by
  have hfield : ∀ c ∈ ref.text, boundary? c = none := fun c hc =>
    boundary?_eq_none (fun heq => hspace (heq ▸ hc)) (fun heq => hopening (heq ▸ hc))
      fun heq => hclosing (heq ▸ hc)
  have hall : ∀ row, row ≠ [] → Decides ref shown op row (shownRow shown row) (valueRow row) :=
    fun _ hrow => decides_of_forall hfield hrow
  exact ⟨hall, fun md => hall (Scope.monthDayRow md) (by simp [Scope.monthDayRow]),
    fun t => hall (Scope.timeRow t) (by simp [Scope.timeRow])⟩

/-- A leap day against a leap day: the months tie, and the days decide. The field holds a comma and
a quote, which are letters here. -/
theorem leapDay_gte_leapDay :
    ' ' ∉ (Ref.mk "e" ["d,'d"]).text ∧ '(' ∉ (Ref.mk "e" ["d,'d"]).text ∧
    ')' ∉ (Ref.mk "e" ["d,'d"]).text ∧
    ∃ md clause, MonthDay.of? 2 29 = some md ∧
      compareRow? ⟨"e", ["d,'d"]⟩ .gte (Scope.monthDayRow md) = some clause ∧
      String.ofList clause.text =
        "(MONTH(e.d,'d) > 2 OR (MONTH(e.d,'d) = 2 AND DAY(e.d,'d) >= 29))" ∧
      evaluate (Ref.mk "e" ["d,'d"]).text (fun component => if component = .month then 2 else 29)
        clause.text = some true := by
  have hspace : ' ' ∉ (Ref.mk "e" ["d,'d"]).text := by decide
  have hopening : '(' ∉ (Ref.mk "e" ["d,'d"]).text := by decide
  have hclosing : ')' ∉ (Ref.mk "e" ["d,'d"]).text := by decide
  refine ⟨hspace, hopening, hclosing, _, _, rfl, rfl, by decide, ?_⟩
  obtain ⟨b, htruth, hb⟩ := ((decides_components ⟨"e", ["d,'d"]⟩ hspace hopening hclosing
    (fun component => if component = .month then 2 else 29) .gte).2.1 _).exists_truth _ rfl
  rw [htruth, hb.2 (.inl rfl)]

end Clause

end FilterQuery
