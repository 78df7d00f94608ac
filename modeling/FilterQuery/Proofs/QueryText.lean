import FilterQuery.Query.Clause
import Mathlib.Data.List.Chain

set_option autoImplicit false

/-! # The text of a query, part by part

Someone who reads the text of a query sees characters, and some of them stand inside a literal. This
file relates the two views that matter of such a text.

`fragments` is the reader: it goes over the characters, takes a quote for the start of a literal and
two quotes in a row inside of one for a single quote. `Clause.parts` is the writer: the words,
literals and delimiters that a clause is made of, in turn. `fragments_text` says that the reader
finds the parts again, as long as no word has a quote in it and of two neighbours one is a
delimiter, which holds in every clause (`Clause.separated_parts`). -/

namespace FilterQuery

/-! ## The reader -/

namespace QueryText

/-- What a reader makes of a piece of a query text. -/
inductive Fragment where
  /-- A character outside of all literals. -/
  | char (c : Char)
  /-- A literal, with the text that it stands for. -/
  | literal (cs : List Char)
  /-- A literal that the text ends in before it is closed. -/
  | unclosed (cs : List Char)
  deriving DecidableEq, Repr

mutual

/-- Read on outside of a literal. -/
def fragments : List Char → List Fragment
  | [] => []
  | c :: rest => if c = quoteMark then inLiteral [] rest else .char c :: fragments rest

/-- Read on in a literal that stands for `before` up to here. -/
def inLiteral : List Char → List Char → List Fragment
  | before, [] => [.unclosed before]
  | before, c :: rest =>
    if c = quoteMark then behindQuote before rest else inLiteral (before ++ [c]) rest

/-- Read on behind a quote in a literal: one more quote makes the two stand for a quote, and
anything else is behind the literal. -/
def behindQuote : List Char → List Char → List Fragment
  | before, [] => [.literal before]
  | before, c :: rest =>
    if c = quoteMark then inLiteral (before ++ [quoteMark]) rest
    else .literal before :: .char c :: fragments rest

end

def Fragment.blanked : Fragment → List Char
  | .char c => [c]
  | .literal _ => [quoteMark, quoteMark]
  | .unclosed _ => [quoteMark]

def Fragment.literal? : Fragment → Option (List Char)
  | .literal cs => some cs
  | _ => none

/-- A text with nothing between the quotes of its literals. -/
def blanked (cs : List Char) : List Char := (fragments cs).flatMap Fragment.blanked

/-- What the literals of a text stand for, in turn. -/
def literals (cs : List Char) : List (List Char) := (fragments cs).filterMap Fragment.literal?

variable {cs rest before : List Char}

theorem inLiteral_doubleQuotes :
    inLiteral before (doubleQuotes cs ++ quoteMark :: rest) = behindQuote (before ++ cs) rest := by
  induction cs generalizing before with
  | nil => simp [doubleQuotes, inLiteral]
  | cons c cs ih =>
    by_cases hc : c = quoteMark
    · subst hc
      have hstep := @ih (before ++ [quoteMark])
      simpa [doubleQuotes, inLiteral, behindQuote] using hstep
    · have hstep := @ih (before ++ [c])
      simpa [doubleQuotes, inLiteral, hc] using hstep

theorem behindQuote_eq (h : rest.head? ≠ some quoteMark) :
    behindQuote before rest = .literal before :: fragments rest := by
  cases rest with
  | nil => simp [behindQuote, fragments]
  | cons c rest =>
    have hc : c ≠ quoteMark := by simpa using h
    simp [behindQuote, fragments, hc]

/-- A literal is read as what it stands for, unless a quote behind it makes it go on. -/
theorem fragments_quoted (h : rest.head? ≠ some quoteMark) :
    fragments (quoted cs ++ rest) = .literal cs :: fragments rest := by
  have hread : inLiteral [] (doubleQuotes cs ++ quoteMark :: rest) =
      .literal cs :: fragments rest := by
    rw [inLiteral_doubleQuotes, List.nil_append, behindQuote_eq h]
  simpa [quoted, fragments] using hread

theorem fragments_append_of_not_mem (h : quoteMark ∉ cs) :
    fragments (cs ++ rest) = cs.map .char ++ fragments rest := by
  induction cs with
  | nil => rfl
  | cons c cs ih =>
    obtain ⟨hc, hcs⟩ : quoteMark ≠ c ∧ quoteMark ∉ cs := by simpa using h
    simp [fragments, Ne.symm hc, ih hcs]

end QueryText

/-! ## The writer -/

namespace Clause

open QueryText

/-- What holds the words and literals of a clause apart. -/
inductive Delimiter where
  | space | opening | closing | comma
  deriving DecidableEq, Repr

@[simp] def Delimiter.char : Delimiter → Char
  | .space => ' '
  | .opening => '('
  | .closing => ')'
  | .comma => ','

theorem Delimiter.char_ne_quoteMark (d : Delimiter) : d.char ≠ quoteMark := by cases d <;> decide

/-- What the text of a clause is made of. -/
inductive Part where
  | word (cs : List Char)
  | mark (d : Delimiter)
  /-- A literal whose text is not up to the filter. -/
  | literal (cs : List Char)
  /-- The literal of a text of the filter. -/
  | payload (cs : List Char)
  deriving DecidableEq, Repr

namespace Part

def text : Part → List Char
  | .word cs => cs
  | .mark d => [d.char]
  | .literal cs | .payload cs => quoted cs

def isMark : Part → Bool
  | .mark _ => true
  | _ => false

/-- What a part is read as. -/
def fragments : Part → List Fragment
  | .word cs => cs.map .char
  | .mark d => [.char d.char]
  | .literal cs | .payload cs => [.literal cs]

/-- Of two neighbours one is a delimiter. -/
def Separated (ps : List Part) : Prop := ps.IsChain fun a b => (a.isMark || b.isMark) = true

variable {a b : Part} {d : Delimiter} {ps qs : List Part}

@[simp] theorem separated_nil : Separated [] := List.IsChain.nil

@[simp] theorem separated_singleton (a : Part) : Separated [a] := List.IsChain.singleton a

@[simp] theorem separated_mark_cons : Separated (.mark d :: ps) ↔ Separated ps := by
  cases ps with
  | nil => simp
  | cons b ps => simp [Separated, isMark]

@[simp] theorem separated_cons_mark_cons : Separated (a :: .mark d :: ps) ↔ Separated ps := by
  have hsplit : Separated (a :: .mark d :: ps) ↔ Separated (.mark d :: ps) := by
    simp [Separated, isMark]
  rw [hsplit, separated_mark_cons]

/-- A delimiter holds apart what stands on its two sides. -/
@[simp] theorem separated_append_mark_cons :
    Separated (ps ++ .mark d :: qs) ↔ Separated ps ∧ Separated qs := by
  rw [← @separated_mark_cons d qs]
  simp [Separated, List.isChain_append, isMark]

/-- A character that stands in no word. -/
def Avoids (m : Char) (ps : List Part) : Prop := ∀ cs, .word cs ∈ ps → m ∉ cs

variable {m : Char} {cs : List Char}

@[simp] theorem avoids_nil : Avoids m [] := by simp [Avoids]

@[simp] theorem avoids_word_cons : Avoids m (.word cs :: ps) ↔ m ∉ cs ∧ Avoids m ps := by
  simp [Avoids, or_imp, forall_and]

@[simp] theorem avoids_mark_cons : Avoids m (.mark d :: ps) ↔ Avoids m ps := by simp [Avoids]

@[simp] theorem avoids_literal_cons : Avoids m (.literal cs :: ps) ↔ Avoids m ps := by
  simp [Avoids]

@[simp] theorem avoids_payload_cons : Avoids m (.payload cs :: ps) ↔ Avoids m ps := by
  simp [Avoids]

@[simp] theorem avoids_append : Avoids m (ps ++ qs) ↔ Avoids m ps ∧ Avoids m qs := by
  simp [Avoids, or_imp, forall_and]

/-- What comes behind a literal does not start with a quote. -/
theorem head?_flatMap_text_ne (hsep : Separated (a :: ps)) (ha : a.isMark = false) :
    (ps.flatMap text).head? ≠ some quoteMark := by
  cases ps with
  | nil => simp
  | cons b ps =>
    have hb : b.isMark = true := by
      have hchain := List.isChain_cons_cons.1 hsep
      simpa [ha] using hchain.1
    cases b with
    | mark d => simpa [text] using d.char_ne_quoteMark
    | _ => cases hb

/-- The reader finds the parts again. -/
theorem fragments_text (hsep : Separated ps) (hwords : Avoids quoteMark ps) :
    QueryText.fragments (ps.flatMap text) = ps.flatMap fragments := by
  induction ps with
  | nil => rfl
  | cons a ps ih =>
    have hrest := ih hsep.tail fun cs hcs => hwords cs (List.mem_cons_of_mem _ hcs)
    rw [List.flatMap_cons, List.flatMap_cons, ← hrest]
    cases a with
    | word cs => exact fragments_append_of_not_mem (hwords cs List.mem_cons_self)
    | mark d => exact fragments_append_of_not_mem (by simpa [text] using d.char_ne_quoteMark.symm)
    | literal cs => exact fragments_quoted (head?_flatMap_text_ne hsep rfl)
    | payload cs => exact fragments_quoted (head?_flatMap_text_ne hsep rfl)

end Part

/-! ## The parts of a clause -/

/-- Words, each with a space in front of it. -/
def phrase (words : List String) : List Part :=
  words.flatMap fun w => [.mark .space, .word w.toList]

def callParts (function : String) (argument : List Part) : List Part :=
  .word function.toList :: .mark .opening :: (argument ++ [.mark .closing])

/-- A text turned into a point in time. -/
def castParts (cs : List Char) (type : String) : List Part :=
  callParts "CAST" (.literal cs :: phrase ["AS", type])

def operandParts : Operand → List Part
  | .quoted cs => [.literal cs]
  | .numeral cs => [.word cs]
  | .parameter name => [.word (':' :: name.toList)]
  | .date d => castParts d.text "DATE"
  | .timestamp dt => castParts dt.text "TIMESTAMP"

/-- In a list, the texts that are quoted are those of the filter. -/
def itemParts : Operand → List Part
  | .quoted cs => [.payload cs]
  | operand => operandParts operand

def itemsParts : List Operand → List Part
  | [] => []
  | [item] => itemParts item
  | item :: rest => itemParts item ++ .mark .comma :: .mark .space :: itemsParts rest

def jointWord : Connective → String
  | .and => "AND"
  | .or => "OR"

/-- The head of a subquery, with the path that the owner is looked for among. -/
def subqueryParts (owner back : Ref) (target : String) (rest : List Part) : List Part :=
  .word owner.text :: (phrase ["IN"] ++ .mark .space :: .mark .opening ::
    .word "SELECT".toList :: .mark .space :: .word back.text ::
      (phrase ["FROM", target, back.aliasName] ++ .mark .space :: (rest ++ [.mark .closing])))

mutual

/-- What the text of a clause is made of, in turn. -/
def parts : Clause → List Part
  | .null ref => .word ref.text :: phrase ["IS", "NULL"]
  | .notNull ref => .word ref.text :: phrase ["IS", "NOT", "NULL"]
  | .compareText ref symbol literal =>
    callParts "LOWER" [.word ref.text] ++
      .mark .space :: .word symbol.text :: .mark .space :: callParts "LOWER" [.payload literal]
  | .compare ref symbol operand =>
    .word ref.text :: .mark .space :: .word symbol.text :: .mark .space :: operandParts operand
  | .compareComponent component ref symbol n =>
    callParts component.name [.word ref.text] ++
      .mark .space :: .word symbol.text :: .mark .space :: [.word (intText n)]
  | .oneOf ref items =>
    .word ref.text :: (phrase ["IN"] ++ .mark .space :: .mark .opening ::
      (itemsParts items ++ [.mark .closing]))
  | .noneOf ref items =>
    .word ref.text :: (phrase ["NOT", "IN"] ++ .mark .space :: .mark .opening ::
      (itemsParts items ++ [.mark .closing]))
  | .not clause => .word "NOT".toList :: .mark .space :: parts clause
  | .group connective clauses => .mark .opening :: (partsAll connective clauses ++ [.mark .closing])
  | .members owner back target restriction =>
    subqueryParts owner back target (.word "WHERE".toList :: .mark .space :: parts restriction)
  | .totals owner back target function aggregated symbol bound =>
    subqueryParts owner back target
      (.word "GROUP".toList :: .mark .space :: .word "BY".toList :: .mark .space ::
        .word back.text :: .mark .space :: .word "HAVING".toList :: .mark .space ::
          (callParts function.name [.word aggregated.text] ++
            .mark .space :: .word symbol.text :: .mark .space :: [.word bound]))

/-- The parts of all clauses in turn, joined. -/
def partsAll (connective : Connective) : List Clause → List Part
  | [] => []
  | [clause] => parts clause
  | clause :: rest =>
    parts clause ++ .mark .space :: .word (jointWord connective).toList :: .mark .space ::
      partsAll connective rest

end

/-! ## Their text -/

@[simp] theorem text_callParts (function : String) (ps : List Part) :
    (callParts function ps).flatMap Part.text = call function (ps.flatMap Part.text) := by
  simp [callParts, call, Part.text]

theorem text_castParts (cs : List Char) (type : String) :
    (castParts cs type).flatMap Part.text =
      "CAST(".toList ++ quoted cs ++ " AS ".toList ++ type.toList ++ [')'] := by
  simp [castParts, call, phrase, Part.text]

@[simp] theorem text_operandParts (operand : Operand) :
    (operandParts operand).flatMap Part.text = operand.text := by
  cases operand with
  | quoted cs => exact List.append_nil _
  | numeral cs => exact List.append_nil _
  | parameter name => exact List.append_nil _
  | date d =>
    have htext : (Operand.date d).text =
      "CAST(".toList ++ quoted d.text ++ " AS DATE)".toList := rfl
    simp [htext, operandParts, text_castParts]
  | timestamp dt =>
    have htext : (Operand.timestamp dt).text =
      "CAST(".toList ++ quoted dt.text ++ " AS TIMESTAMP)".toList := rfl
    simp [htext, operandParts, text_castParts]

@[simp] theorem text_itemParts (operand : Operand) :
    (itemParts operand).flatMap Part.text = operand.text := by
  cases operand with
  | quoted cs => exact List.append_nil _
  | _ => simp [itemParts]

@[simp] theorem text_itemsParts (items : List Operand) :
    (itemsParts items).flatMap Part.text = Text.join [',', ' '] (items.map Operand.text) := by
  fun_induction itemsParts items with
  | case1 => rfl
  | case2 item => simp [Text.join]
  | case3 item rest hrest ih =>
    obtain ⟨next, more, rfl⟩ := List.exists_cons_of_ne_nil hrest
    simp [Text.join, Part.text, ih]

theorem text_subqueryParts (owner back : Ref) (target : String) (rest : List Part) :
    (subqueryParts owner back target rest).flatMap Part.text =
      owner.text ++ " IN (".toList ++ selection back target ++ ' ' :: rest.flatMap Part.text ++
        [')'] := by
  have hselection : selection back target = "SELECT ".toList ++ back.text ++ " FROM ".toList ++
      target.toList ++ ' ' :: back.aliasName.toList := rfl
  simp [hselection, subqueryParts, phrase, Part.text]

mutual

/-- The text of a clause is that of its parts. -/
theorem text_parts : ∀ clause : Clause, clause.parts.flatMap Part.text = clause.text
  | .null ref => by simp [parts, text, phrase, Part.text]
  | .notNull ref => by simp [parts, text, phrase, Part.text]
  | .compareText ref symbol literal => by simp [parts, text, Part.text]
  | .compare ref symbol operand => by simp [parts, text, Part.text]
  | .compareComponent component ref symbol n => by simp [parts, text, Part.text]
  | .oneOf ref items => by simp [parts, text, row, phrase, Part.text]
  | .noneOf ref items => by simp [parts, text, row, phrase, Part.text]
  | .not clause => by simp [parts, text, Part.text, text_parts clause]
  | .group connective clauses => by
    simp [parts, text, Part.text, text_partsAll connective clauses]
  | .members owner back target restriction => by
    simp [parts, text, Part.text, text_subqueryParts, text_parts restriction]
  | .totals owner back target function aggregated symbol bound => by
    simp [parts, text, Part.text, text_subqueryParts]

theorem text_partsAll (connective : Connective) :
    ∀ clauses, (partsAll connective clauses).flatMap Part.text = textAll connective clauses
  | [] => rfl
  | [clause] => by simp [partsAll, textAll, text_parts clause]
  | clause :: next :: rest => by
    have hrest := text_partsAll connective (next :: rest)
    cases connective <;>
      simp [partsAll, textAll, Part.text, text_parts clause, hrest, jointWord, joint]

end

/-! ## Their neighbours -/

theorem separated_cons_phrase {a : Part} (words : List String) :
    Part.Separated (a :: phrase words) := by
  induction words generalizing a with
  | nil => simp [phrase]
  | cons w words ih => simpa [phrase] using @ih (.word w.toList)

@[simp] theorem separated_callParts {function : String} {ps : List Part} :
    Part.Separated (callParts function ps) ↔ Part.Separated ps := by
  simp [callParts]

@[simp] theorem separated_operandParts (operand : Operand) :
    Part.Separated (operandParts operand) := by
  cases operand with
  | date d => simp [operandParts, castParts, separated_cons_phrase]
  | timestamp dt => simp [operandParts, castParts, separated_cons_phrase]
  | _ => simp [operandParts]

@[simp] theorem separated_itemParts (operand : Operand) : Part.Separated (itemParts operand) := by
  cases operand with
  | quoted cs => simp [itemParts]
  | _ => simp [itemParts]

@[simp] theorem separated_itemsParts (items : List Operand) :
    Part.Separated (itemsParts items) := by
  fun_induction itemsParts items with
  | case1 => simp
  | case2 item => simp
  | case3 item rest hrest ih => simpa using ih

@[simp] theorem separated_subqueryParts {owner back : Ref} {target : String} {rest : List Part} :
    Part.Separated (subqueryParts owner back target rest) ↔ Part.Separated rest := by
  simp [subqueryParts, phrase]

mutual

/-- In a clause, of two neighbours one is a delimiter. -/
theorem separated_parts : ∀ clause : Clause, Part.Separated clause.parts
  | .null ref => separated_cons_phrase _
  | .notNull ref => separated_cons_phrase _
  | .compareText ref symbol literal => by simp [parts]
  | .compare ref symbol operand => by simp [parts]
  | .compareComponent component ref symbol n => by simp [parts]
  | .oneOf ref items => by simp [parts, phrase]
  | .noneOf ref items => by simp [parts, phrase]
  | .not clause => by simpa [parts] using separated_parts clause
  | .group connective clauses => by simpa [parts] using separated_partsAll connective clauses
  | .members owner back target restriction => by simpa [parts] using separated_parts restriction
  | .totals owner back target function aggregated symbol bound => by simp [parts]

theorem separated_partsAll (connective : Connective) :
    ∀ clauses, Part.Separated (partsAll connective clauses)
  | [] => by simp [partsAll]
  | [clause] => by simpa [partsAll] using separated_parts clause
  | clause :: next :: rest => by
    simpa [partsAll] using
      And.intro (separated_parts clause) (separated_partsAll connective (next :: rest))

end

end Clause

end FilterQuery
