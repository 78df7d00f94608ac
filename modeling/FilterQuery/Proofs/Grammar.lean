import FilterQuery.Condition.Parse
import Mathlib.Tactic.Common

set_option autoImplicit false

/-! # The grammar of filters

What a row of tokens denotes, said without any parser. An expression is a term, or an expression, a
connective and a term, so that a row of terms is joined from the left. `Derives` carries the nesting
of the derivation: a negation, a pair of parentheses and either kind of having condition are one
level each.

The grammar looks at no token ahead of the ones it derives, and sets no tokens apart. Two facts of
it are what a parser that does both can rely on: parentheses match in every derived row
(`Derives.passes`), and behind a literal that starts a row stands an operator
(`Derives.operator_behind_literal`), so that `NAME(literal)` is never a condition in parentheses. -/

namespace FilterQuery

open FilterQuery.Text

namespace Operator

/-- The operators that compare a field with one value. -/
def takesValue : Operator → Bool
  | .eq | .ne | .gt | .gte | .lt | .lte | .like => true
  | _ => false

/-- The operators that say all by themselves. -/
def takesNothing : Operator → Bool
  | .null | .notNull => true
  | _ => false

end Operator

namespace Condition

/-- A literal token denotes the value of its trimmed text under an operator. -/
inductive Denotes (zones : Zone.Database) (op : Operator) : Token → Value → Prop
  | intro {raw : String} {quoted : Bool} {v : Value}
      (h : Literal.coerce zones (trim raw.toList) quoted op = .ok v) :
      Denotes zones op (.literal raw quoted) v

/-- A bare literal of the shape of a number denotes that number. -/
inductive DenotesNumber (zones : Zone.Database) (op : Operator) : Token → Value → Prop
  | intro {raw : String} {v : Value} (hshape : Shape.isNumber (trim raw.toList) = true)
      (h : Literal.coerce zones (trim raw.toList) false op = .ok v) :
      DenotesNumber zones op (.literal raw false) v

/-- Values with commas between them, one at least. -/
inductive DenotesList (zones : Zone.Database) (op : Operator) : List Token → List Value → Prop
  | one {t : Token} {v : Value} (h : Denotes zones op t v) : DenotesList zones op [t] [v]
  | more {t : Token} {v : Value} {ts : List Token} {vs : List Value} (h : Denotes zones op t v)
      (hrest : DenotesList zones op ts vs) : DenotesList zones op (t :: .comma :: ts) (v :: vs)

/-- What a row of tokens can be. -/
inductive Phrase where
  | expression | term
  deriving DecidableEq, Repr

/-- `Derives zones phrase nesting row c`: the row is such a phrase, its derivation is nested so
deep, and it denotes `c`. The zones are those that literals may name. -/
inductive Derives (zones : Zone.Database) : Phrase → Nat → List Token → Condition → Prop
  | term {n : Nat} {row : List Token} {c : Condition} (h : Derives zones .term n row c) :
      Derives zones .expression n row c
  | join {n m : Nat} {row row' : List Token} {left right : Condition} (join : Connective)
      (hleft : Derives zones .expression n row left) (hright : Derives zones .term m row' right) :
      Derives zones .expression (max n m) (row ++ .operator join.operator.token :: row')
        (.group join left right [])
  | not {n : Nat} {row : List Token} {c : Condition} (h : Derives zones .term n row c) :
      Derives zones .term (n + 1) (.operator Operator.not.token :: row) (.not c)
  | parentheses {n : Nat} {row : List Token} {c : Condition}
      (h : Derives zones .expression n row c) :
      Derives zones .term (n + 1) (.openParen :: (row ++ [.closeParen])) c
  | having {n : Nat} {row : List Token} {c : Condition} (name : String) (quoted : Bool)
      (h : Derives zones .expression n row c) :
      Derives zones .term (n + 1)
        (.having :: .literal name quoted :: .openParen :: (row ++ [.closeParen]))
        (.having (trimmed name) c)
  | aggregate {function : Aggregate} {t : Token} {bound : Value} (name field : String)
      (quoted quoted' : Bool) (op : Operator)
      (hname : Aggregate.ofName? (trimmed name) = some function) (hop : op.isComparison = true)
      (hbound : DenotesNumber zones op t bound) :
      Derives zones .term 1
        [.having, .literal name quoted, .openParen, .literal field quoted', .closeParen,
          .operator op.token, t]
        (.aggregate (trimmed field) function op bound)
  | nullity {op : Operator} (field : String) (quoted : Bool) (hop : op.takesNothing = true) :
      Derives zones .term 0 [.literal field quoted, .operator op.token]
        (.simple (trimmed field) op none)
  | oneOf {row : List Token} {vs : List Value} (field : String) (quoted : Bool)
      (h : DenotesList zones .oneOf row vs) :
      Derives zones .term 0
        (.literal field quoted :: .operator Operator.oneOf.token :: .openBracket ::
          (row ++ [.closeBracket]))
        (.oneOf (trimmed field) vs)
  | noneOf {row : List Token} {vs : List Value} (field : String) (quoted : Bool)
      (h : DenotesList zones .noneOf row vs) :
      Derives zones .term 0
        (.literal field quoted :: .operator Operator.noneOf.token :: .openBracket ::
          (row ++ [.closeBracket]))
        (.noneOf (trimmed field) vs)
  | comparison {op : Operator} {t : Token} {v : Value} (field : String) (quoted : Bool)
      (hop : op.takesValue = true) (h : Denotes zones op t v) :
      Derives zones .term 0 [.literal field quoted, .operator op.token, t]
        (.simple (trimmed field) op (some v))

variable {zones : Zone.Database}

/-! ## What every derived row looks like -/

theorem Derives.ne_nil {phrase : Phrase} {n : Nat} {row : List Token} {c : Condition}
    (h : Derives zones phrase n row c) : row ≠ [] := by
  induction h with
  | term _ ih => exact ih
  | join _ _ _ ih _ => simp [ih]
  | _ => simp

/-- A literal at the start of a row is a field, and its operator follows. -/
theorem Derives.operator_behind_literal {phrase : Phrase} {n : Nat} {row rest : List Token}
    {c : Condition} {raw : String} {quoted : Bool} (h : Derives zones phrase n row c)
    (hrow : row = .literal raw quoted :: rest) :
    ∃ text rest', rest = .operator text :: rest' := by
  induction h generalizing rest with
  | term _ ih => exact ih hrow
  | join join hleft _ ih _ =>
    -- The first term is not empty, so the literal is its own first token.
    obtain ⟨t, ts, rfl⟩ := List.exists_cons_of_ne_nil hleft.ne_nil
    simp only [List.cons_append, List.cons.injEq] at hrow
    obtain ⟨rfl, rfl⟩ := hrow
    obtain ⟨text, rest', rfl⟩ := ih rfl
    exact ⟨text, _, rfl⟩
  | not => simp at hrow
  | parentheses => simp at hrow
  | having => simp at hrow
  | aggregate => simp at hrow
  | nullity | oneOf | noneOf | comparison =>
    simp only [List.cons.injEq] at hrow
    obtain ⟨-, rfl⟩ := hrow
    exact ⟨_, _, rfl⟩

/-- A list starts with a value. -/
theorem DenotesList.uncons {op : Operator} {row : List Token} {vs : List Value}
    (h : DenotesList zones op row vs) :
    ∃ raw quoted v row' vs', row = .literal raw quoted :: row' ∧ vs = v :: vs' ∧
      Literal.coerce zones (trim raw.toList) quoted op = .ok v := by
  cases h with
  | one h =>
    obtain ⟨hv⟩ := h
    exact ⟨_, _, _, _, _, rfl, rfl, hv⟩
  | more h _ =>
    obtain ⟨hv⟩ := h
    exact ⟨_, _, _, _, _, rfl, rfl, hv⟩

/-! ## Matching parentheses -/

/-- A search for the closing parenthesis passes over tokens that make up the row, at whatever depth
it is. -/
def Passes (row : List Token) : Prop :=
  ∀ (tokens : List Lexeme), tokens.map Lexeme.token = row →
    ∀ (depth : Nat) (rest : List Lexeme), Context.closing? depth (tokens ++ rest) =
      (Context.closing? depth rest).map fun (before, close, after) =>
        (tokens ++ before, close, after)

theorem Passes.append {row row' : List Token} (h : Passes row) (h' : Passes row') :
    Passes (row ++ row') := by
  intro tokens htokens depth rest
  obtain ⟨left, right, rfl, hleft, hright⟩ := List.map_eq_append_iff.1 htokens
  rw [List.append_assoc, h left hleft, h' right hright, Option.map_map]
  simp [Function.comp_def]

/-- A token that is no parenthesis is passed over. -/
theorem passes_singleton {t : Token} (hopen : t ≠ .openParen) (hclose : t ≠ .closeParen) :
    Passes [t] := by
  intro tokens htokens depth rest
  obtain ⟨lexeme, rfl, rfl⟩ := List.map_eq_singleton_iff.1 htokens
  rw [List.singleton_append, Context.closing?]
  split
  · next h => exact absurd h hopen
  · next h => exact absurd h hclose
  · simp

theorem Passes.cons {t : Token} {row : List Token} (hopen : t ≠ .openParen)
    (hclose : t ≠ .closeParen) (h : Passes row) : Passes (t :: row) :=
  (passes_singleton hopen hclose).append h

/-- So is what stands in a pair of parentheses. -/
theorem Passes.parentheses {row : List Token} (h : Passes row) :
    Passes (.openParen :: (row ++ [.closeParen])) := by
  intro tokens htokens depth rest
  obtain ⟨opening, tail, rfl, hopen, htail⟩ := List.map_eq_cons_iff.1 htokens
  obtain ⟨inside, last, rfl, hinside, hlast⟩ := List.map_eq_append_iff.1 htail
  obtain ⟨closing, rfl, hclose⟩ := List.map_eq_singleton_iff.1 hlast
  rw [List.cons_append, List.append_assoc, Context.closing?, hopen]
  simp only
  rw [h inside hinside, List.singleton_append, Context.closing?, hclose]
  simp [Function.comp_def]

theorem Denotes.passes {op : Operator} {t : Token} {v : Value} (h : Denotes zones op t v) :
    Passes [t] := by
  cases h
  exact passes_singleton (by simp) (by simp)

theorem DenotesNumber.passes {op : Operator} {t : Token} {v : Value}
    (h : DenotesNumber zones op t v) :
    Passes [t] := by
  cases h
  exact passes_singleton (by simp) (by simp)

theorem DenotesList.passes {op : Operator} {row : List Token} {vs : List Value}
    (h : DenotesList zones op row vs) : Passes row := by
  induction h with
  | one h => exact h.passes
  | more h _ ih => exact h.passes.append (ih.cons (by simp) (by simp))

/-- The parentheses of a derived row match. -/
theorem Derives.passes {phrase : Phrase} {n : Nat} {row : List Token} {c : Condition}
    (h : Derives zones phrase n row c) : Passes row := by
  induction h with
  | term _ ih => exact ih
  | join _ _ _ ihleft ihright => exact ihleft.append (ihright.cons (by simp) (by simp))
  | not _ ih => exact ih.cons (by simp) (by simp)
  | parentheses _ ih => exact ih.parentheses
  | having name quoted _ ih =>
    exact (ih.parentheses.cons (by simp) (by simp)).cons (by simp) (by simp)
  | aggregate _ field _ quoted' op _ _ hbound =>
    -- The field stands in parentheses of its own.
    have hfield : Passes [.openParen, .literal field quoted', .closeParen] :=
      (passes_singleton (t := .literal field quoted') (by simp) (by simp)).parentheses
    have hcall :=
      hfield.append (hbound.passes.cons (t := .operator op.token) (by simp) (by simp))
    exact (hcall.cons (by simp) (by simp)).cons (by simp) (by simp)
  | nullity => exact (passes_singleton (by simp) (by simp)).cons (by simp) (by simp)
  | oneOf _ _ h | noneOf _ _ h =>
    have hlist := h.passes.append (passes_singleton (t := .closeBracket) (by simp) (by simp))
    exact ((hlist.cons (by simp) (by simp)).cons (by simp) (by simp)).cons (by simp) (by simp)
  | comparison _ _ _ h => exact (h.passes.cons (by simp) (by simp)).cons (by simp) (by simp)

end Condition

end FilterQuery
