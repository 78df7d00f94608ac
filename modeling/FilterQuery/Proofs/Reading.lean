import FilterQuery.Proofs.QueryWords
import Mathlib.Data.List.Forall2
import Mathlib.Tactic.SplitIfs

set_option autoImplicit false

/-! # Reading a restriction

The text of a restriction is read as a formula: literals are opaque, brackets nest, and `NOT` binds
closer than `AND`, which binds closer than `OR`. A reader needs one pass over the words. It keeps a
layer for each bracket that is open, and a layer keeps apart what is complete: the disjuncts, the
conjuncts of the current disjunct, and the pieces of the current unit. A unit is a comparison, which
stays as it is, or a formula in brackets.

Words count by their position. `AND` and `OR` join only behind a unit and `NOT` negates only in
front of one, so `IS NOT NULL` is no negation, and a name may be any of the three.

`ReadsAs` says that a row of tokens is read as one unit, whatever stands around it. Negations and
groups of units are units, and so is every flat row of words (`Flat.exists_readsAs`). -/

namespace FilterQuery.QueryText

open Clause

/-! ## Tokens -/

inductive Token where
  | word (cs : List Char)
  | literal (cs : List Char)
  | opening
  | closing
  | comma
  /-- A literal that the text ends in. -/
  | unclosed (cs : List Char)
  deriving DecidableEq, Repr

/-- The tokens that a delimiter is. -/
def delimiter? (c : Char) : Option (List Token) :=
  if c = ' ' then some []
  else if c = '(' then some [.opening]
  else if c = ')' then some [.closing]
  else if c = ',' then some [.comma]
  else none

/-- A word, if there is one. -/
def wordToken (cs : List Char) : List Token := if cs.isEmpty then [] else [.word cs]

/-- The tokens of a text behind the first characters of a word. -/
def tokensFrom (word : List Char) : List Fragment → List Token
  | [] => wordToken word
  | .char c :: rest =>
    match delimiter? c with
    | some tokens => wordToken word ++ tokens ++ tokensFrom [] rest
    | none => tokensFrom (word ++ [c]) rest
  | .literal cs :: rest => wordToken word ++ .literal cs :: tokensFrom [] rest
  | .unclosed cs :: rest => wordToken word ++ .unclosed cs :: tokensFrom [] rest

/-- The tokens of a query text. -/
def tokens (cs : List Char) : List Token := tokensFrom [] (fragments cs)

/-! ## Formulas -/

inductive Formula where
  | atom (tokens : List Token)
  | not (f : Formula)
  | all (fs : List Formula)
  | any (fs : List Formula)
  deriving Repr

namespace Formula

/-- Formulas joined; there is nothing to join about a single one. -/
def joined : Connective → List Formula → Formula
  | _, [f] => f
  | .and, fs => .all fs
  | .or, fs => .any fs

def negated : Nat → Formula → Formula
  | 0, f => f
  | n + 1, f => negated n (.not f)

end Formula

open Formula

/-- A piece of a unit: a token, or brackets with what they hold, as it is and as it reads. -/
inductive Piece where
  | token (t : Token)
  | nested (tokens : List Token) (inner : Formula)

def Piece.tokens : Piece → List Token
  | .token t => [t]
  | .nested tokens _ => .opening :: (tokens ++ [.closing])

/-- What has been read between two brackets. -/
structure Layer where
  tokens : List Token
  disjuncts : List Formula
  /-- Of the current disjunct. -/
  conjuncts : List Formula
  /-- In front of the current unit. -/
  negations : Nat
  /-- Of the current unit. -/
  pieces : List Piece

namespace Layer

def empty : Layer := ⟨[], [], [], 0, []⟩

/-- The formula of pieces: what the brackets hold if there is nothing else. -/
def ofPieces : List Piece → Formula
  | [.nested _ inner] => inner
  | pieces => .atom (pieces.flatMap Piece.tokens)

/-- The current unit. -/
def unit (f : Layer) : Formula := negated f.negations (ofPieces f.pieces)

/-- The current disjunct. -/
def disjunct (f : Layer) : Formula := joined .and (f.conjuncts ++ [f.unit])

/-- How the whole layer reads. Nothing is a conjunction of nothing, and what lacks its last unit is
no formula. -/
def reading (f : Layer) : Formula :=
  if f.pieces.isEmpty then if f.tokens.isEmpty then .all [] else .atom f.tokens
  else joined .or (f.disjuncts ++ [f.disjunct])

/-- Read one more token that is no bracket. -/
def push (f : Layer) (t : Token) : Layer :=
  let tokens := f.tokens ++ [t]
  if f.pieces.isEmpty then
    if t = .word "NOT".toList then { f with tokens := tokens, negations := f.negations + 1 }
    else { f with tokens := tokens, pieces := [.token t] }
  else if t = .word "AND".toList then
    { f with tokens := tokens, conjuncts := f.conjuncts ++ [f.unit], negations := 0, pieces := [] }
  else if t = .word "OR".toList then
    { tokens := tokens, disjuncts := f.disjuncts ++ [f.disjunct], conjuncts := [], negations := 0,
      pieces := [] }
  else { f with tokens := tokens, pieces := f.pieces ++ [.token t] }

/-- Read brackets that hold what the layer `inner` read. -/
def close (f inner : Layer) : Layer :=
  { f with
    tokens := f.tokens ++ .opening :: (inner.tokens ++ [.closing])
    pieces := f.pieces ++ [.nested inner.tokens inner.reading] }

/-- Read on, with the layers of the brackets that are open. -/
def run (f : Layer) (below : List Layer) : List Token → Option Formula
  | [] => if below.isEmpty then some f.reading else none
  | .opening :: ts => run empty (f :: below) ts
  | .closing :: ts =>
    match below with
    | [] => none
    | outer :: below => run (outer.close f) below ts
  | .unclosed _ :: _ => none
  | t :: ts => run (f.push t) below ts

end Layer

/-- The formula that a restriction reads as, if its brackets match and its literals end. -/
def read (cs : List Char) : Option Formula := Layer.empty.run [] (tokens cs)

example : read "NOT a = 1 AND b IS NOT NULL OR NOT (c = 'OR' OR d IN (2, 3))".toList =
    some (.any [
      .all [.not (.atom [.word ['a'], .word ['='], .word ['1']]),
        .atom [.word ['b'], .word ['I', 'S'], .word ['N', 'O', 'T'], .word ['N', 'U', 'L', 'L']]],
      .not (.any [.atom [.word ['c'], .word ['='], .literal ['O', 'R']],
        .atom [.word ['d'], .word ['I', 'N'], .opening, .word ['2'], .comma, .word ['3'],
          .closing]])]) := by cbv

/-! ## Tokens of parts -/

def delimiterTokens : Delimiter → List Token
  | .space => []
  | .opening => [.opening]
  | .closing => [.closing]
  | .comma => [.comma]

theorem delimiter?_char (d : Delimiter) : delimiter? d.char = some (delimiterTokens d) := by
  cases d <;> rfl

/-- The tokens of a part. -/
def partTokens : Part → List Token
  | .word cs => wordToken cs
  | .mark d => delimiterTokens d
  | .literal cs | .payload cs => [.literal cs]

/-- The tokens of a clause. -/
def clauseTokens (clause : Clause) : List Token := clause.parts.flatMap partTokens

theorem delimiter?_eq_none {c : Char} (h : marks.contains c = false) : delimiter? c = none := by
  have hmarks : c ≠ ' ' ∧ c ≠ '(' ∧ c ≠ ')' ∧ c ≠ ',' ∧ c ≠ quoteMark := by
    simpa [marks] using h
  obtain ⟨hspace, hopening, hclosing, hcomma, -⟩ := hmarks
  simp [delimiter?, hspace, hopening, hclosing, hcomma]

theorem tokensFrom_chars {cs : List Char} (h : isPlain cs = true) (word : List Char)
    (rest : List Fragment) :
    tokensFrom word (cs.map .char ++ rest) = tokensFrom (word ++ cs) rest := by
  induction cs generalizing word with
  | nil => simp
  | cons c cs ih =>
    obtain ⟨hc, hcs⟩ : marks.contains c = false ∧ isPlain cs = true := by
      simpa [isPlain] using h
    rw [List.map_cons, List.cons_append, tokensFrom, delimiter?_eq_none hc]
    simp only
    rw [ih hcs, List.append_assoc, List.singleton_append]

/-- In a row of parts, every word is between delimiters, so it is one token. -/
theorem tokensFrom_parts {ps : List Part} (hsep : Part.Separated ps)
    (hplain : ∀ cs, .word cs ∈ ps → isPlain cs = true) :
    tokensFrom [] (ps.flatMap Part.fragments) = ps.flatMap partTokens := by
  induction ps with
  | nil => rfl
  | cons a ps ih =>
    have hrest := ih hsep.tail fun cs hcs => hplain cs (List.mem_cons_of_mem _ hcs)
    rw [List.flatMap_cons, List.flatMap_cons, ← hrest]
    cases a with
    | word cs =>
      have hcs := hplain cs List.mem_cons_self
      show tokensFrom [] (cs.map .char ++ ps.flatMap Part.fragments) = _
      rw [tokensFrom_chars hcs, List.nil_append]
      -- What is behind the word ends it: nothing, or a delimiter.
      cases ps with
      | nil => simp [tokensFrom, partTokens, wordToken]
      | cons b ps =>
        have hb : b.isMark = true := (List.isChain_cons_cons.1 hsep).1
        cases b with
        | mark d =>
          rw [List.flatMap_cons]
          show tokensFrom cs (.char d.char :: ps.flatMap Part.fragments) =
            wordToken cs ++ tokensFrom [] (.char d.char :: ps.flatMap Part.fragments)
          rw [tokensFrom, tokensFrom, delimiter?_char]
          simp [wordToken]
        | _ => cases hb
    | mark d =>
      show tokensFrom [] (.char d.char :: ps.flatMap Part.fragments) = _
      rw [tokensFrom, delimiter?_char]
      rfl
    | literal cs => rfl
    | payload cs => rfl

/-- The reader's tokens are those of the parts, if no mark is in a word. -/
theorem tokens_text {ps : List Part} (hsep : Part.Separated ps)
    (havoids : ∀ m ∈ marks, Part.Avoids m ps) :
    tokens (ps.flatMap Part.text) = ps.flatMap partTokens := by
  have hplain : ∀ cs, .word cs ∈ ps → isPlain cs = true := by
    intro cs hcs
    refine List.all_eq_true.2 fun c hc => ?_
    by_contra hmark
    have hmem : c ∈ marks := by simpa using hmark
    exact havoids c hmem cs hcs hc
  rw [tokens, Part.fragments_text hsep (havoids quoteMark (by decide))]
  exact tokensFrom_parts hsep hplain

/-! ## Rows of tokens in brackets -/

/-- A row in brackets. -/
def brackets (ts : List Token) : List Token := .opening :: (ts ++ [.closing])

/-- No bracket, and no literal without an end. -/
def Token.isInner : Token → Bool
  | .word _ | .literal _ | .comma => true
  | _ => false

namespace Layer

variable {f f' f'' inner : Layer} {ts us : List Token} {t : Token}

/-- Reading the tokens leads from one layer to another, whatever is open and whatever follows. -/
def Reaches (f : Layer) (ts : List Token) (f' : Layer) : Prop :=
  ∀ below rest, f.run below (ts ++ rest) = f'.run below rest

theorem Reaches.refl (f : Layer) : Reaches f [] f := fun _ _ => rfl

theorem Reaches.trans (h : Reaches f ts f') (h' : Reaches f' us f'') :
    Reaches f (ts ++ us) f'' := by
  intro below rest
  rw [List.append_assoc, h, h']

theorem reaches_push (f : Layer) (ht : t.isInner = true) : Reaches f [t] (f.push t) := by
  intro below rest
  cases t with
  | word cs => rfl
  | literal cs => rfl
  | comma => rfl
  | _ => cases ht

theorem reaches_close (f : Layer) (h : Reaches empty ts inner) :
    Reaches f (brackets ts) (f.close inner) := by
  intro below rest
  have hinner := h (f :: below) (.closing :: rest)
  simpa [brackets, run] using hinner

@[simp] theorem tokens_push (f : Layer) (t : Token) : (f.push t).tokens = f.tokens ++ [t] := by
  unfold push
  split_ifs <;> rfl

/-- The layer after more pieces of its unit. -/
def extend (f : Layer) (ts : List Token) (ps : List Piece) : Layer :=
  { f with tokens := f.tokens ++ ts, pieces := f.pieces ++ ps }

theorem extend_extend (f : Layer) (ts us : List Token) (ps qs : List Piece) :
    (f.extend ts ps).extend us qs = f.extend (ts ++ us) (ps ++ qs) := by
  simp [extend]

theorem push_eq_extend (hpieces : f.pieces ≠ []) (hand : t ≠ .word "AND".toList)
    (hor : t ≠ .word "OR".toList) : f.push t = f.extend [t] [.token t] := by
  have hempty : f.pieces.isEmpty = false := by simpa using hpieces
  simp only [push, hempty, if_neg hand, if_neg hor]
  rfl

theorem push_eq_extend_of_nil (hpieces : f.pieces = []) (hnot : t ≠ .word "NOT".toList) :
    f.push t = f.extend [t] [.token t] := by
  simp only [push, hpieces, if_neg hnot]
  simp [extend, hpieces]

end Layer

/-- A row in which brackets match and literals end. -/
inductive Matched : List Token → Prop
  | nil : Matched []
  | token {t : Token} {ts : List Token} (ht : t.isInner = true) (h : Matched ts) :
    Matched (t :: ts)
  | nested {ts us : List Token} (h : Matched ts) (h' : Matched us) :
    Matched (brackets ts ++ us)

/-- A matched row in which nothing is joined outside of brackets. -/
inductive Flat : List Token → Prop
  | nil : Flat []
  | token {t : Token} {ts : List Token} (ht : t.isInner = true) (hand : t ≠ .word "AND".toList)
    (hor : t ≠ .word "OR".toList) (h : Flat ts) : Flat (t :: ts)
  | nested {ts us : List Token} (h : Matched ts) (h' : Flat us) :
    Flat (brackets ts ++ us)

open Layer

variable {ts us : List Token} {t : Token} {r : Formula}

theorem Matched.append (h : Matched ts) (h' : Matched us) : Matched (ts ++ us) := by
  induction h with
  | nil => exact h'
  | token ht h ih => exact .token ht ih
  | nested h₁ h₂ ih₁ ih₂ => simpa using Matched.nested h₁ ih₂

theorem Flat.append (h : Flat ts) (h' : Flat us) : Flat (ts ++ us) := by
  induction h with
  | nil => exact h'
  | token ht hand hor h ih => exact .token ht hand hor ih
  | nested h₁ h₂ ih => simpa using Flat.nested h₁ ih

theorem Flat.matched (h : Flat ts) : Matched ts := by
  induction h with
  | nil => exact .nil
  | token ht hand hor h ih => exact .token ht ih
  | nested h₁ h₂ ih => exact .nested h₁ ih

theorem Matched.exists_reaches (h : Matched ts) (f : Layer) :
    ∃ f', Reaches f ts f' ∧ f'.tokens = f.tokens ++ ts := by
  induction h generalizing f with
  | nil => exact ⟨f, .refl f, by simp⟩
  | token ht h ih =>
    obtain ⟨f', hreach, htokens⟩ := ih (f.push _)
    exact ⟨f', (reaches_push f ht).trans hreach, by simp [htokens]⟩
  | nested h₁ h₂ ih₁ ih₂ =>
    obtain ⟨inner, hinner, hinnerTokens⟩ := ih₁ empty
    obtain ⟨f', hreach, htokens⟩ := ih₂ (f.close inner)
    refine ⟨f', ?_, ?_⟩
    · simpa using (reaches_close f hinner).trans hreach
    · simp [htokens, close, hinnerTokens, empty, brackets]

/-- Brackets are one piece of a unit. -/
theorem Matched.exists_piece (h : Matched ts) :
    ∃ p : Piece, p.tokens = brackets ts ∧
      ∀ f : Layer, Reaches f (brackets ts) (f.extend (brackets ts) [p]) := by
  obtain ⟨inner, hinner, htokens⟩ := h.exists_reaches empty
  obtain rfl : inner.tokens = ts := by simpa [empty] using htokens
  exact ⟨.nested inner.tokens inner.reading, rfl, fun f => reaches_close f hinner⟩

/-- Behind a piece of a unit, a flat row is more pieces of it. -/
theorem Flat.exists_reaches (h : Flat ts) :
    ∃ ps : List Piece, ps.flatMap Piece.tokens = ts ∧
      ∀ f : Layer, f.pieces ≠ [] → Reaches f ts (f.extend ts ps) := by
  induction h with
  | nil =>
    refine ⟨[], rfl, fun f _ => ?_⟩
    simpa [extend] using Reaches.refl f
  | @token t ts ht hand hor h ih =>
    obtain ⟨ps, htokens, hps⟩ := ih
    refine ⟨.token t :: ps, by simp [htokens, Piece.tokens], fun f hf => ?_⟩
    have hstep : Reaches f [t] (f.extend [t] [.token t]) :=
      push_eq_extend hf hand hor ▸ reaches_push f ht
    have hrest := hps (f.extend [t] [.token t]) (by simp [extend])
    rw [extend_extend] at hrest
    exact hstep.trans hrest
  | nested h₁ h₂ ih =>
    obtain ⟨p, hnested, hp⟩ := h₁.exists_piece
    obtain ⟨ps, htokens, hps⟩ := ih
    refine ⟨p :: ps, by simp [htokens, hnested], fun f hf => ?_⟩
    have hall := (hp f).trans (hps _ (by simp [extend]))
    rwa [extend_extend] at hall

/-! ## Units -/

/-- The tokens are read as one unit: where a unit can start, they are it, behind the negations that
stand there already. -/
def ReadsAs (ts : List Token) (r : Formula) : Prop :=
  ∀ f : Layer, f.pieces = [] → ∃ f', Reaches f ts f' ∧ f'.tokens = f.tokens ++ ts ∧
    f'.disjuncts = f.disjuncts ∧ f'.conjuncts = f.conjuncts ∧ f'.pieces ≠ [] ∧
    f'.unit = negated f.negations r

theorem readsAs_of_pieces {ps : List Piece} (hps : ps ≠ [])
    (h : ∀ f : Layer, f.pieces = [] → Reaches f ts (f.extend ts ps)) :
    ReadsAs ts (ofPieces ps) := by
  intro f hf
  refine ⟨f.extend ts ps, h f hf, rfl, rfl, rfl, ?_, ?_⟩
  · simpa [extend] using fun _ => hps
  · simp [unit, extend, hf]

/-- A negation is a unit. -/
theorem ReadsAs.not (h : ReadsAs ts r) : ReadsAs (.word "NOT".toList :: ts) (.not r) := by
  intro f hf
  have hpush : f.push (.word "NOT".toList) =
      { f with tokens := f.tokens ++ [.word "NOT".toList], negations := f.negations + 1 } := by
    simp only [push, hf]
    rfl
  obtain ⟨f', hreach, htokens, hdisjuncts, hconjuncts, hpieces, hunit⟩ :=
    h (f.push (.word "NOT".toList)) (by rw [hpush]; exact hf)
  rw [hpush] at hdisjuncts hconjuncts hunit
  refine ⟨f', (reaches_push f rfl).trans hreach, ?_, hdisjuncts, hconjuncts, hpieces, hunit⟩
  rw [htokens, tokens_push, List.append_assoc, List.singleton_append]

/-- Brackets are a unit. -/
theorem readsAs_nested {inner : Layer} (h : Reaches empty ts inner) (htokens : inner.tokens = ts) :
    ReadsAs (brackets ts) inner.reading := by
  have hunit := @readsAs_of_pieces (brackets ts) [.nested ts inner.reading] (by simp) fun f _ => by
    have hclose := reaches_close f h
    rw [close, htokens] at hclose
    exact hclose
  exact hunit

/-- A flat row behind any token but a negation is a unit, and it stays as it is. -/
theorem readsAs_cons (ht : t.isInner = true) (hnot : t ≠ .word "NOT".toList) (h : Flat ts) :
    ReadsAs (t :: ts) (.atom (t :: ts)) := by
  obtain ⟨ps, rfl, hps⟩ := h.exists_reaches
  refine @readsAs_of_pieces _ (.token t :: ps) (by simp) fun f hf => ?_
  have hstep : Reaches f [t] (f.extend [t] [.token t]) :=
    push_eq_extend_of_nil hf hnot ▸ reaches_push f ht
  have hrest := hps (f.extend [t] [.token t]) (by simp [extend])
  rw [extend_extend] at hrest
  exact hstep.trans hrest

/-- A flat row is a unit, if it is not made of negations only. -/
theorem Flat.exists_readsAs (h : Flat ts) (hne : ∃ t ∈ ts, t ≠ .word "NOT".toList) :
    ∃ r, ReadsAs ts r := by
  induction h with
  | nil => simp at hne
  | @token t ts ht hand hor h ih =>
    by_cases hnot : t = .word "NOT".toList
    · subst hnot
      obtain ⟨r, hr⟩ := ih (by simpa using hne)
      exact ⟨.not r, hr.not⟩
    · exact ⟨_, readsAs_cons ht hnot h⟩
  | @nested ts us h₁ h₂ ih =>
    obtain ⟨p, -, hp⟩ := h₁.exists_piece
    obtain ⟨ps, -, hps⟩ := h₂.exists_reaches
    refine ⟨_, @readsAs_of_pieces _ (p :: ps) (by simp) fun f hf => ?_⟩
    have hall := (hp f).trans (hps _ (by simp [extend]))
    rwa [extend_extend] at hall

/-- In front of a flat row any word may stand: even one that would join or negate elsewhere makes no
difference to its being one unit. -/
theorem Flat.exists_readsAs_word (h : Flat ts) (hne : ∃ t ∈ ts, t ≠ .word "NOT".toList)
    (cs : List Char) : ∃ r, ReadsAs (wordToken cs ++ ts) r := by
  unfold wordToken
  split
  · exact h.exists_readsAs hne
  · by_cases hnot : cs = "NOT".toList
    · subst hnot
      obtain ⟨r, hr⟩ := h.exists_readsAs hne
      exact ⟨.not r, hr.not⟩
    · exact ⟨_, readsAs_cons rfl (by simpa using hnot) h⟩

/-! ## Joined units -/

/-- Rows with the word of a connective between them. -/
def joinTokens (connective : Connective) : List (List Token) → List Token
  | [] => []
  | [ts] => ts
  | ts :: rest => ts ++ .word (jointWord connective).toList :: joinTokens connective rest

/-- A layer at the start of a unit, behind `done` members of one and the same connective. -/
structure Starts (connective : Connective) (f : Layer) (done : List Formula) : Prop where
  pieces : f.pieces = []
  negations : f.negations = 0
  conjuncts : f.conjuncts = if connective = .and then done else []
  disjuncts : f.disjuncts = if connective = .and then [] else done

variable {connective : Connective} {done : List Formula}

theorem starts_empty (connective : Connective) : Starts connective empty [] := by
  constructor <;> simp [empty]

/-- One more member: the layer can end behind it, and behind the connective the next one starts. -/
theorem Starts.step {f : Layer} (hf : Starts connective f done) (h : ReadsAs ts r) :
    ∃ f', Reaches f ts f' ∧ f'.tokens = f.tokens ++ ts ∧
      f'.reading = joined connective (done ++ [r]) ∧
      Starts connective (f'.push (.word (jointWord connective).toList)) (done ++ [r]) := by
  obtain ⟨f', hreach, htokens, hdisjuncts, hconjuncts, hpieces, hunit⟩ := h f hf.pieces
  have hempty : f'.pieces.isEmpty = false := by simpa using hpieces
  replace hunit : f'.unit = r := by rw [hunit, hf.negations, negated]
  rw [hf.conjuncts] at hconjuncts
  rw [hf.disjuncts] at hdisjuncts
  cases connective with
  | and =>
    replace hconjuncts : f'.conjuncts = done := hconjuncts
    replace hdisjuncts : f'.disjuncts = [] := hdisjuncts
    have hpush : f'.push (.word (jointWord .and).toList) =
        { f' with
          tokens := f'.tokens ++ [.word (jointWord .and).toList]
          conjuncts := f'.conjuncts ++ [f'.unit]
          negations := 0
          pieces := [] } := by
      simp only [push, hempty]
      rfl
    refine ⟨f', hreach, htokens, ?_, ?_⟩
    · simp [reading, hempty, disjunct, hdisjuncts, hconjuncts, hunit, joined]
    · rw [hpush]
      constructor <;> simp [hdisjuncts, hconjuncts, hunit]
  | or =>
    replace hconjuncts : f'.conjuncts = [] := hconjuncts
    replace hdisjuncts : f'.disjuncts = done := hdisjuncts
    have hdisjunct : f'.disjunct = r := by simp [disjunct, hconjuncts, hunit, joined]
    have hpush : f'.push (.word (jointWord .or).toList) =
        { tokens := f'.tokens ++ [.word (jointWord .or).toList]
          disjuncts := f'.disjuncts ++ [f'.disjunct]
          conjuncts := []
          negations := 0
          pieces := [] } := by
      simp only [push, hempty]
      rfl
    refine ⟨f', hreach, htokens, ?_, ?_⟩
    · simp [reading, hempty, hdisjuncts, hdisjunct]
    · rw [hpush]
      constructor <;> simp [hdisjuncts, hdisjunct]

/-- Members of a connective are read as its formula. -/
theorem Starts.exists_reaches {f : Layer} (hf : Starts connective f done) {tss : List (List Token)}
    {rs : List Formula} (h : List.Forall₂ ReadsAs tss rs) (hne : tss ≠ []) :
    ∃ f', Reaches f (joinTokens connective tss) f' ∧
      f'.tokens = f.tokens ++ joinTokens connective tss ∧
      f'.reading = joined connective (done ++ rs) := by
  induction h generalizing f done with
  | nil => exact absurd rfl hne
  | @cons ts r tss rs hunit hrest ih =>
    obtain ⟨f₁, hreach, htokens, hreading, hstarts⟩ := hf.step hunit
    cases hrest with
    | nil => exact ⟨f₁, hreach, htokens, hreading⟩
    | @cons ts' r' tss rs hunit' hrest =>
      obtain ⟨f', hreach', htokens', hreading'⟩ := ih hstarts (by simp)
      refine ⟨f', ?_, ?_, ?_⟩
      · simpa [joinTokens] using hreach.trans ((reaches_push f₁ rfl).trans hreach')
      · simp [htokens', htokens, joinTokens]
      · simpa using hreading'

/-- A group of units is a unit. -/
theorem readsAs_group {tss : List (List Token)} {rs : List Formula}
    (h : List.Forall₂ ReadsAs tss rs) (hne : tss ≠ []) :
    ReadsAs (brackets (joinTokens connective tss)) (joined connective rs) := by
  obtain ⟨f', hreach, htokens, hreading⟩ := (starts_empty connective).exists_reaches h hne
  have hunit := readsAs_nested hreach (by simpa [empty] using htokens)
  rwa [hreading] at hunit

/-- Units joined by a connective, without brackets around them, read as its formula. -/
theorem run_joinTokens {tss : List (List Token)} {rs : List Formula}
    (h : List.Forall₂ ReadsAs tss rs) (hne : tss ≠ []) :
    empty.run [] (joinTokens connective tss) = some (joined connective rs) := by
  obtain ⟨f', hreach, -, hreading⟩ := (starts_empty connective).exists_reaches h hne
  have hrun := hreach [] []
  rw [List.append_nil] at hrun
  rw [hrun, run, hreading]
  rfl

theorem ReadsAs.run_eq (h : ReadsAs ts r) : empty.run [] ts = some r :=
  @run_joinTokens .and [ts] [r] (.cons h .nil) (by simp)

end FilterQuery.QueryText
