import FilterQuery.Text.Bytes

set_option autoImplicit false

/-! # Positions in a source text

Errors point at a line, counted from one, and a column, counted in characters from zero. -/

namespace FilterQuery

structure Position where
  line : Nat
  column : Nat
  deriving DecidableEq, Repr

namespace Position

/-- The position behind a text: its line breaks, and the characters after the last of them. -/
def after (before : List Char) : Position where
  line := before.count '\n' + 1
  column := (before.reverse.takeWhile (· != '\n')).length

/-- The part of a source that lies before a byte offset. An offset beyond the end, or inside a
character, stands for the end. -/
def textBefore (source : List Char) (offset : Nat) : List Char :=
  match Text.splitAtByte offset source with
  | some (before, _) => before
  | none => source

/-- The position of a byte offset. -/
def ofOffset (source : List Char) (offset : Nat) : Position := after (textBefore source offset)

/-- The place as it reads in error texts. -/
def text (p : Position) : String :=
  s!"in line {p.line} at position {p.column}"

end Position

end FilterQuery
