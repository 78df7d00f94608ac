import FilterQuery.Condition
import FilterQuery.Literal

set_option autoImplicit false

/-! # Printing conditions

A condition is printed in two steps. `pieces` lays it out as a row of pieces: plain text, operators,
separators and line breaks. The two formats differ only in the blanks they put around the pieces:
the compact one writes none, and the pretty one puts every condition on a line of its own. -/

namespace FilterQuery

/-- A part of a printed condition. -/
inductive Piece where
  | text (cs : List Char)
  /-- An operator with something behind it. -/
  | operator (token : String)
  /-- An operator that ends its condition. -/
  | lastOperator (token : String)
  /-- Between the values of a list. -/
  | separator
  /-- The start of a line at a level of nesting. -/
  | lineBreak (level : Nat)
  deriving DecidableEq, Repr

namespace Piece

/-- How deep a line that starts here is nested. -/
def level : Piece → Nat
  | .lineBreak level => level
  | _ => 0

/-- The pieces without any blanks. -/
def compact : List Piece → List Char
  | [] => []
  | .text cs :: rest => cs ++ compact rest
  | .operator token :: rest => token.toList ++ compact rest
  | .lastOperator token :: rest => token.toList ++ compact rest
  | .separator :: rest => ',' :: compact rest
  | .lineBreak _ :: rest => compact rest

/-- A character behind which an operator needs no blank. -/
def isGap (c : Char) : Bool := c == ' ' || c == '\n'

/-- The pieces with blanks. An operator has a blank in front of it, unless the text before is empty
or ends with one already, which `gap` says. -/
def pretty (indent : Nat) (gap : Bool) : List Piece → List Char
  | [] => []
  | .text cs :: rest => cs ++ pretty indent ((cs.getLast?.map isGap).getD gap) rest
  | .operator token :: rest =>
    (if gap then [] else [' ']) ++ token.toList ++ ' ' :: pretty indent true rest
  | .lastOperator token :: rest =>
    (if gap then [] else [' ']) ++ token.toList ++ pretty indent false rest
  | .separator :: rest => ',' :: ' ' :: pretty indent true rest
  | .lineBreak level :: rest =>
    '\n' :: (List.replicate (level * indent) ' ' ++ pretty indent true rest)

end Piece

namespace Value

/-- The text of a value in a filter. A string is escaped, and quoted if its bare text would be
something else. -/
def literalText : Value → List Char
  | .string s =>
    let escaped := Escape.escape s.toList
    if Literal.readsAsString escaped then escaped else '"' :: (escaped ++ ['"'])
  | v => v.text

end Value

namespace Condition

/-- The token in front of a having condition. -/
def havingToken : String := "$having:"

/-- The values of a list with separators between them. -/
def valuePieces : List Value → List Piece
  | [] => []
  | [v] => [.text v.literalText]
  | v :: vs => .text v.literalText :: .separator :: valuePieces vs

/-- A field, an operator and a list of values. -/
def listPieces (field : String) (op : Operator) (values : List Value) : List Piece :=
  [.text field.toList, .operator op.token, .text ['[']] ++ valuePieces values ++ [.text [']']]

mutual

/-- The layout of a condition at a level of nesting. -/
def pieces (level : Nat) : Condition → List Piece
  | .simple field op none => [.text field.toList, .lastOperator op.token]
  | .simple field op (some v) => [.text field.toList, .operator op.token, .text v.literalText]
  | .oneOf field values => listPieces field .oneOf values
  | .noneOf field values => listPieces field .noneOf values
  | .not c => .operator Operator.not.token :: pieces level c
  | .group join first second more =>
    [.text ['('], .lineBreak (level + 1)] ++ pieces (level + 1) first ++
      [.lineBreak (level + 1), .operator join.operator.token] ++ pieces (level + 1) second ++
      morePieces level join more ++ [.lineBreak level, .text [')']]
  | .having field sub =>
    [.operator havingToken, .text field.toList, .text ['('], .lineBreak (level + 1)] ++
      pieces (level + 1) sub ++ [.lineBreak level, .text [')']]
  | .aggregate field function op bound =>
    [.operator havingToken, .text function.name.toList, .text ['('], .text field.toList,
      .text [')'], .operator op.token, .text bound.literalText]

/-- The members of a group behind the second one. -/
def morePieces (level : Nat) (join : Connective) : List Condition → List Piece
  | [] => []
  | c :: cs =>
    [.lineBreak (level + 1), .operator join.operator.token] ++ pieces (level + 1) c ++
      morePieces level join cs

end

/-- One line in the syntax of filters. -/
def compactText (c : Condition) : List Char := Piece.compact (c.pieces 0)

/-- Levels of nesting are indented by four blanks unless the caller says otherwise. -/
def defaultIndent : Nat := 4

/-- One condition to a line, nested ones indented. -/
def prettyText (c : Condition) (indent : Nat) : List Char :=
  Piece.pretty indent true (c.pieces 0)

/-- The level of the line that is nested deepest. -/
def deepestLine (c : Condition) : Nat := ((c.pieces 0).map Piece.level).foldl max 0

/-- The pretty text, unless the indentation of a line alone is as long as no text can be. -/
def prettyPrint (c : Condition) (indent : Nat) : Except Fault (List Char) :=
  if c.deepestLine * indent < UInt64.size / 2 then .ok (c.prettyText indent)
  else .error .textOverflow

end Condition

end FilterQuery
