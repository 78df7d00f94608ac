import FilterQuery.Text.Blank
import FilterQuery.Text.Replace

set_option autoImplicit false

/-! # Sorting

A sorting is a row of criteria with commas between them, each a field with a mark in front: `-`
sorts in descending order, `~` by the textual form of the field, and `~-` does both. -/

namespace FilterQuery

open FilterQuery.Text

inductive Direction where
  | asc | desc | ascAlpha | descAlpha
  deriving DecidableEq, Repr

namespace Direction

/-- What stands in front of the field. -/
def mark : Direction → List Char
  | .asc => []
  | .desc => ['-']
  | .ascAlpha => ['~']
  | .descAlpha => ['~', '-']

def isDescending : Direction → Bool
  | .desc | .descAlpha => true
  | _ => false

/-- Sorts by the textual form. -/
def isAlphabetic : Direction → Bool
  | .ascAlpha | .descAlpha => true
  | _ => false

/-- Take the longest mark off a text. -/
def split : List Char → Direction × List Char
  | '~' :: '-' :: field => (.descAlpha, field)
  | '~' :: field => (.ascAlpha, field)
  | '-' :: field => (.desc, field)
  | field => (.asc, field)

theorem mark_append_split (cs : List Char) : (split cs).1.mark ++ (split cs).2 = cs := by
  unfold split
  split <;> rfl

end Direction

structure Criterion where
  field : String
  direction : Direction
  deriving DecidableEq, Repr

def Criterion.text (c : Criterion) : List Char := c.direction.mark ++ c.field.toList

/-- A component of a sorting, counted from zero, that names no field. -/
structure SortingError where
  index : Nat
  deriving DecidableEq, Repr

def SortingError.message (e : SortingError) : String := s!"empty sort field at position {e.index}"

structure Sorting where
  criteria : List Criterion
  deriving DecidableEq, Repr

namespace Sorting

/-- One criterion; blanks around it do not count. -/
def readCriterion? (component : List Char) : Option Criterion :=
  let (direction, field) := Direction.split (trim component)
  if field.isEmpty then none else some ⟨String.ofList field, direction⟩

/-- The criteria of components that are counted from `index` on. -/
def readAll (index : Nat) : List (List Char) → Except SortingError (List Criterion)
  | [] => .ok []
  | component :: rest =>
    match readCriterion? component with
    | none => .error ⟨index⟩
    | some criterion =>
      match readAll (index + 1) rest with
      | .error e => .error e
      | .ok criteria => .ok (criterion :: criteria)

def parse (text : List Char) : Except SortingError Sorting :=
  match readAll 0 (splitAll ',' text) with
  | .error e => .error e
  | .ok criteria => .ok ⟨criteria⟩

def text (s : Sorting) : List Char := join [','] (s.criteria.map Criterion.text)

end Sorting

end FilterQuery
