import FilterQuery.Proofs.Lexing
import FilterQuery.Proofs.ParseFaults

set_option autoImplicit false

/-! # Tokens and the blanks between them

Reading a text splits it into tokens and gaps of blanks. `Spaced` is a token with the gap in front
of it, `spacedText` puts a row of them together again, and `placed` are the spans that they have
then. A text that has tokens is such a row (`exists_spaced_of_scan`), so that no character is lost;
one that has none breaks off behind such a row, at one of two faults
(`exists_faulty_of_scan`).

The other way round, a token that was read once is read again off its spelling, wherever blanks or
the end of the text stand behind it (`Stands`). A bare literal needs this most: it was ended by
what followed, and it may have looked far ahead for the end of a zone name. What it found there is
part of the literal (`exists_part_of_bareRun`). Hence the width of the gaps does not matter. -/

namespace FilterQuery

open FilterQuery.Text

variable {zones : Zone.Database}

namespace Token

variable {cs rest after last : List Char} {c : Char} {token : Token} {found : List Lexeme}
  {offset : Nat}

/-! ## Rows of tokens with their gaps -/

/-- A token and the blanks in front of it. -/
structure Spaced where
  gap : List Char
  token : Token
  blank : gap.all isBlank = true

def Spaced.text (s : Spaced) : List Char := s.gap ++ s.token.spelling

/-- The text of a row of tokens, and what stands behind the last of them. -/
def spacedText (row : List Spaced) (last : List Char) : List Char := row.flatMap Spaced.text ++ last

/-- The tokens of a row in their places, if its text starts at the given offset. -/
def placed (offset : Nat) : List Spaced → List Lexeme
  | [] => []
  | s :: row =>
    let start := offset + byteSize s.gap
    let stop := start + byteSize s.token.spelling
    ⟨s.token, start, stop⟩ :: placed stop row

variable {row : List Spaced}

@[simp] theorem spacedText_nil (last : List Char) : spacedText [] last = last := rfl

@[simp] theorem spacedText_cons (s : Spaced) (row : List Spaced) (last : List Char) :
    spacedText (s :: row) last = s.gap ++ (s.token.spelling ++ spacedText row last) := by
  simp [spacedText, Spaced.text]

@[simp] theorem map_token_placed (offset : Nat) (row : List Spaced) :
    (placed offset row).map Lexeme.token = row.map Spaced.token := by
  induction row generalizing offset with
  | nil => rfl
  | cons s row ih => simp [placed, ih]

/-- A blank in front of a row belongs to its first gap, or to the end if the row is empty. -/
theorem exists_spaced_blank_cons (hblank : isBlank c = true) (hlast : last.all isBlank = true)
    (offset : Nat) (row : List Spaced) : ∃ row' last', last'.all isBlank = true ∧
      (∀ behind, spacedText row' (last' ++ behind) = c :: spacedText row (last ++ behind)) ∧
      placed offset row' = placed (offset + c.utf8Size) row := by
  cases row with
  | nil => exact ⟨[], c :: last, by simp [hblank, hlast], by simp, rfl⟩
  | cons s row =>
    refine ⟨⟨c :: s.gap, s.token, by simp [hblank, s.blank]⟩ :: row, last, hlast, by simp, ?_⟩
    simp [placed, byteSize, Nat.add_assoc]

/-! ### Spans -/

theorem le_of_mem_placed (last : List Char) : ∀ lexeme ∈ placed offset row,
    offset ≤ lexeme.start ∧ lexeme.stop ≤ offset + byteSize (spacedText row last) := by
  induction row generalizing offset with
  | nil => simp [placed]
  | cons s row ih =>
    intro lexeme hmem
    rw [spacedText_cons, byteSize_append, byteSize_append]
    rcases List.mem_cons.1 hmem with rfl | hmem
    · constructor
      · exact Nat.le_add_right offset _
      · simp only
        omega
    · obtain ⟨hstart, hstop⟩ := ih lexeme hmem
      omega

/-- No token starts before the one in front of it has stopped. -/
theorem pairwise_placed (offset : Nat) (row : List Spaced) :
    (placed offset row).Pairwise fun a b => a.stop ≤ b.start := by
  induction row generalizing offset with
  | nil => exact .nil
  | cons s row ih =>
    refine .cons (fun lexeme hmem => ?_) (ih _)
    exact (le_of_mem_placed [] lexeme hmem).1

/-- A character of two texts in a row belongs to the first of them or to the second. -/
theorem split_of_append_eq {xs ys before after : List Char}
    (h : xs ++ ys = before ++ c :: after) :
    (∃ behind, xs = before ++ c :: behind) ∨
      ∃ more, before = xs ++ more ∧ ys = more ++ c :: after := by
  rcases List.append_eq_append_iff.1 h with ⟨more, hbefore, hys⟩ | ⟨more, hxs, hrest⟩
  · exact .inr ⟨more, hbefore, hys⟩
  · cases more with
    | nil => exact .inr ⟨[], by simpa using hxs.symm, by simpa using hrest.symm⟩
    | cons d more =>
      obtain ⟨rfl, -⟩ := List.cons.inj hrest
      exact .inl ⟨more, hxs⟩

/-- A character that no span covers is blank. -/
theorem isBlank_of_forall_placed (offset : Nat) {before : List Char}
    (hlast : last.all isBlank = true) (h : spacedText row last = before ++ c :: after)
    (hout : ∀ lexeme ∈ placed offset row,
      ¬ (lexeme.start ≤ offset + byteSize before ∧ offset + byteSize before < lexeme.stop)) :
    isBlank c = true := by
  induction row generalizing offset before with
  | nil =>
    rw [spacedText_nil] at h
    exact List.all_eq_true.1 hlast c (by simp [h])
  | cons s row ih =>
    rw [spacedText_cons] at h
    obtain ⟨hhere, hthere⟩ := List.forall_mem_cons.1 hout
    rcases split_of_append_eq h with ⟨behind, hgap⟩ | ⟨inside, rfl, hinside⟩
    · exact List.all_eq_true.1 s.blank c (by simp [hgap])
    rcases split_of_append_eq hinside with ⟨behind, hspelling⟩ | ⟨more, rfl, hmore⟩
    · -- The character would be inside the first token.
      refine absurd ?_ hhere
      have hsize := c.utf8Size_pos
      simp only [hspelling, byteSize_append, byteSize]
      omega
    · rw [byteSize_append, byteSize_append, ← Nat.add_assoc, ← Nat.add_assoc] at hthere
      exact ih _ hmore hthere

/-! ## Reading one token -/

/-- What of a text a bare literal takes is a bare literal by itself: a zone name in it is closed in
it. -/
theorem exists_part_of_bareRun {inZone : Bool} {seen run : List Char}
    (h : bareRun inZone seen cs = .ok (run, after)) (hzone : inZone = true → ']' ∈ cs) :
    ∃ part, cs = part ++ after ∧ run = seen.reverse ++ part ∧
      bareRun inZone seen part = .ok (run, []) ∧ (inZone = true → ']' ∈ part) := by
  fun_induction bareRun inZone seen cs with
  | case1 inZone seen =>
    cases h
    exact ⟨[], rfl, by simp, by rw [bareRun], by simpa using hzone⟩
  | case2 seen c cs ih =>
    -- Inside a zone name: it goes on unless this is the bracket that closes it.
    obtain ⟨part, rfl, rfl, hpart, hclose⟩ := ih h fun hc => by
      rcases List.mem_cons.1 (hzone rfl) with heq | hmem
      · simp [← heq] at hc
      · exact hmem
    refine ⟨c :: part, rfl, by simp, by rw [bareRun_zone, hpart], fun _ => ?_⟩
    by_cases hc : c = ']'
    · simp [hc]
    · exact List.mem_cons_of_mem _ (hclose (by simpa using hc))
  | case3 => cases h
  | case4 inZone seen c hout _ next cs _ =>
    cases h
    exact ⟨[], rfl, by simp, by rw [bareRun], by simp [hout]⟩
  | case5 inZone seen c hout hmark next cs _ hescapable ih =>
    obtain rfl : inZone = false := by simpa using hout
    obtain rfl : c = Escape.mark := eq_of_beq hmark
    obtain ⟨part, rfl, rfl, hpart, -⟩ := ih h (by simp)
    exact ⟨_ :: next :: part, rfl, by simp, by rw [bareRun_escaped hescapable, hpart], by simp⟩
  | case6 => cases h
  | case7 inZone seen c cs hout _ hopen ih =>
    obtain rfl : inZone = false := by simpa using hout
    obtain ⟨⟨rfl, hseen⟩, hclose⟩ : (c = '[' ∧ looksLikeDateTime seen.reverse = true) ∧
        ']' ∈ cs := by simpa using hopen
    -- The bracket was looked for in the whole rest of the text, and it is found in the part taken.
    obtain ⟨part, rfl, rfl, hpart, hclose'⟩ := ih h fun _ => hclose
    exact ⟨'[' :: part, rfl, by simp, by rw [bareRun_openZone hseen (hclose' rfl), hpart], by simp⟩
  | case8 inZone seen c cs hout _ _ _ =>
    cases h
    exact ⟨[], rfl, by simp, by rw [bareRun], by simp [hout]⟩
  | case9 inZone seen c cs hout hmark _ hdelimiter ih =>
    obtain rfl : inZone = false := by simpa using hout
    obtain ⟨part, rfl, rfl, hpart, -⟩ := ih h (by simp)
    refine ⟨c :: part, rfl, by simp, ?_, by simp⟩
    rw [bareRun_plain (by simpa using hmark) (by simpa using hdelimiter), hpart]

/-- A bare literal was cut out of the text in front of what follows it. -/
theorem isBare_of_readBare (hblank : isBlank c = false) (hmark : ofMark? c = none)
    (hquote : c ≠ '"') (hoperator : (c == Escape.mark && rest.head?.any isLetter) = false)
    (h : readBare c rest = .ok (token, after)) :
    ∃ run, token = .literal (String.ofList run) false ∧ IsBare run := by
  unfold readBare at h
  split at h
  · cases h
  · cases h
  next run behind hne hrun =>
  cases h
  obtain ⟨part, hcs, rfl, hpart, -⟩ := exists_part_of_bareRun hrun (by simp)
  obtain ⟨d, tail, rfl⟩ := List.exists_cons_of_ne_nil hne
  obtain ⟨rfl, rfl⟩ := List.cons.inj hcs
  refine ⟨c :: tail, rfl, c, tail, rfl, hblank, ?_⟩
  have hoperator' : (c == Escape.mark && tail.head?.any isLetter) = false := by
    cases tail with
    | nil => simp
    | cons d tail => simpa using hoperator
  rw [readToken, hmark]
  simp only [beq_eq_false_iff_ne.2 hquote, hoperator', readBare, hpart]
  rfl

/-- The letter behind a mark is one of those that are taken. -/
theorem takeWhile_isLetter_ne_nil (h : rest.head?.any isLetter = true) :
    rest.takeWhile isLetter ≠ [] := by
  cases rest with
  | nil => simp at h
  | cons d rest =>
    have hletter : isLetter d = true := by simpa using h
    simp [hletter]

/-- The four ways in which a token is read. -/
inductive ReadAs : Token → Prop
  | mark {c : Char} {token : Token} (h : ofMark? c = some token) : ReadAs token
  | quoted {cs : List Char} (h : '"' ∉ cs) : ReadAs (.literal (String.ofList cs) true)
  | operator {letters : List Char} (hne : letters ≠ []) (hall : letters.all isLetter = true) :
    ReadAs (ofOperatorText (String.ofList (Escape.mark :: (letters ++ [':']))))
  | bare {run : List Char} (h : IsBare run) : ReadAs (.literal (String.ofList run) false)

theorem readAs_of_readToken (hblank : isBlank c = false)
    (h : readToken c rest = .ok (token, after)) : ReadAs token := by
  unfold readToken at h
  split at h
  · next hmark =>
    cases h
    exact .mark hmark
  next hmark =>
  split at h
  · unfold readQuoted at h
    split at h
    · cases h
    · cases h
      refine .quoted fun hmem => ?_
      simpa using List.mem_takeWhile_imp hmem
  next hquote =>
  split at h
  · next hoperator =>
    unfold readOperator at h
    split at h
    · cases h
      rw [Bool.and_eq_true] at hoperator
      exact .operator (takeWhile_isLetter_ne_nil hoperator.2) List.all_takeWhile
    · cases h
  · next hoperator =>
    obtain ⟨run, rfl, hrun⟩ :=
      isBare_of_readBare hblank hmark (by simpa using hquote) (by simpa using hoperator) h
    exact .bare hrun

theorem readAs_of_mem_scan (h : scan offset cs = .ok found) :
    ∀ lexeme ∈ found, ReadAs lexeme.token := by
  intro lexeme hmem
  obtain ⟨c, rest, after, hblank, hread⟩ := exists_readToken_of_mem_scan h lexeme hmem
  exact readAs_of_readToken hblank hread

theorem ReadAs.ne_endOfInput (h : ReadAs token) : token ≠ .endOfInput := by
  cases h with
  | mark hmark =>
    rintro rfl
    unfold ofMark? at hmark
    split at hmark <;> cases hmark
  | quoted hquote => simp
  | operator hne hall =>
    unfold ofOperatorText
    split <;> simp
  | bare hrun => simp

/-- What a text looks like that starts with no token. The quote is not closed, the letters behind
the mark have no colon behind them, or a mark further on is followed by nothing that it escapes. -/
inductive Faulty : LexFault → List Char → Prop
  | quote {rest : List Char} (h : '"' ∉ rest) : Faulty .unterminatedString ('"' :: rest)
  | operator {letters rest : List Char} (hne : letters ≠ []) (hall : letters.all isLetter = true)
    (hrest : ∀ d ∈ rest.head?, isLetter d = false ∧ d ≠ ':') :
    Faulty .invalidEscape (Escape.mark :: (letters ++ rest))
  | escape {run rest : List Char}
    (hrest : ∀ d ∈ rest.head?, isLetter d = false ∧ Escape.isEscapable d = false) :
    Faulty .invalidEscape (run ++ Escape.mark :: rest)

/-- The mark or the quote that a fault is about stands so many bytes into the text. -/
def FaultAt (fault : LexFault) (skipped : Nat) (cs : List Char) : Prop :=
  ∃ before c after, cs = before ++ c :: after ∧ skipped = byteSize before ∧
    (fault = .invalidEscape ∧ c = Escape.mark ∨ fault = .unterminatedString ∧ c = '"')

theorem exists_mark_of_bareRun {inZone : Bool} {seen before : List Char}
    (h : bareRun inZone seen cs = .error before) :
    ∃ rest, seen.reverse ++ cs = before ++ Escape.mark :: rest ∧
      ∀ d ∈ rest.head?, isLetter d = false ∧ Escape.isEscapable d = false := by
  fun_induction bareRun inZone seen cs with
  | case1 => cases h
  | case2 seen c cs ih => simpa using ih h
  | case3 inZone seen c hout hmark =>
    obtain rfl : c = Escape.mark := eq_of_beq hmark
    cases h
    exact ⟨[], rfl, by simp⟩
  | case4 => cases h
  | case5 inZone seen c hout hmark next cs _ hescapable ih => simpa using ih h
  | case6 inZone seen c hout hmark next cs hletter hescapable =>
    obtain rfl : c = Escape.mark := eq_of_beq hmark
    rw [Bool.not_eq_true] at hletter hescapable
    cases h
    exact ⟨next :: cs, rfl, by simp [hletter, hescapable]⟩
  | case7 inZone seen c cs hout _ hopen ih => simpa using ih h
  | case8 => cases h
  | case9 inZone seen c cs hout hmark _ hdelimiter ih => simpa using ih h

/-- A bare literal takes the character that it starts with. -/
theorem bareRun_ne_nil (hblank : isBlank c = false) (hmark : ofMark? c = none) (hquote : c ≠ '"')
    (hoperator : (c == Escape.mark && rest.head?.any isLetter) = false) :
    bareRun false [] (c :: rest) ≠ .ok ([], after) := by
  intro h
  -- What was seen is kept, and the first step sees a character or fails.
  have hseen : ∀ {seen cs : List Char}, bareRun false seen cs = .ok ([], after) → seen = [] := by
    intro seen cs hrun
    obtain ⟨part, -, hnil, -⟩ := exists_part_of_bareRun hrun (by simp)
    simpa using (List.append_eq_nil_iff.1 hnil.symm).1
  by_cases hc : c = Escape.mark
  · subst hc
    cases rest with
    | nil => simp [bareRun] at h
    | cons d rest =>
      have hletter : isLetter d = false := by simpa using hoperator
      cases hescapable : Escape.isEscapable d with
      | true =>
        rw [bareRun_escaped hescapable] at h
        exact absurd (hseen h) (by simp)
      | false => simp [bareRun, hletter, hescapable] at h
  · have hdelimiter : isDelimiter c = false := by
      simp only [isDelimiter, hblank, Bool.false_or]
      unfold ofMark? at hmark
      split at hmark
      case h_6 hopen hclose hleft hright hcomma =>
        simpa [hquote] using ⟨hopen, hclose, hleft, hright, hcomma⟩
      all_goals cases hmark
    rw [bareRun_plain hc hdelimiter] at h
    exact absurd (hseen h) (by simp)

theorem faulty_of_readToken {fault : LexFault} {skipped : Nat} (hblank : isBlank c = false)
    (h : readToken c rest = .error (fault, skipped)) :
    Faulty fault (c :: rest) ∧ FaultAt fault skipped (c :: rest) := by
  unfold readToken at h
  split at h
  · cases h
  next hmark =>
  split at h
  · next hquote =>
    obtain rfl : c = '"' := eq_of_beq hquote
    unfold readQuoted at h
    split at h
    · next hdrop =>
      cases h
      refine ⟨.quote fun hmem => ?_, [], '"', rest, rfl, rfl, .inr ⟨rfl, rfl⟩⟩
      simpa using List.dropWhile_eq_nil_iff.1 hdrop _ hmem
    · cases h
  next hquote =>
  split at h
  · next hoperator =>
    obtain ⟨rfl, hletter⟩ : c = Escape.mark ∧ rest.head?.any isLetter = true := by
      simpa using hoperator
    unfold readOperator at h
    split at h
    · cases h
    · next hcolon =>
      cases h
      refine ⟨?_, [], Escape.mark, rest, rfl, rfl, .inl ⟨rfl, rfl⟩⟩
      rw [← List.takeWhile_append_dropWhile (p := isLetter) (l := rest)]
      refine .operator (takeWhile_isLetter_ne_nil hletter) List.all_takeWhile fun d hd => ⟨?_, ?_⟩
      · simpa [Option.mem_def.1 hd] using List.head?_dropWhile_not isLetter rest
      · rintro rfl
        obtain ⟨behind, hbehind⟩ := List.head?_eq_some_iff.1 (Option.mem_def.1 hd)
        exact hcolon behind hbehind
  · next hoperator =>
    unfold readBare at h
    split at h
    · next before hrun =>
      cases h
      obtain ⟨behind, hsplit, hbehind⟩ := exists_mark_of_bareRun hrun
      rw [List.reverse_nil, List.nil_append] at hsplit
      exact ⟨hsplit ▸ .escape hbehind, before, Escape.mark, behind, hsplit, rfl, .inl ⟨rfl, rfl⟩⟩
    · next behind hrun =>
      exact absurd hrun
        (bareRun_ne_nil hblank hmark (by simpa using hquote) (by simpa using hoperator))
    · cases h

/-! ## Reading a whole text -/

/-- A text that has tokens is made of them and of blanks. -/
theorem exists_spaced_of_scan (h : scan offset cs = .ok found) :
    ∃ row last, last.all isBlank = true ∧ cs = spacedText row last ∧ found = placed offset row := by
  fun_induction scan offset cs generalizing found with
  | case1 offset =>
    cases h
    exact ⟨[], [], rfl, rfl, rfl⟩
  | case2 offset c rest hblank ih =>
    obtain ⟨row, last, hlast, rfl, rfl⟩ := ih h
    obtain ⟨row', last', hlast', htext, hplaced⟩ := exists_spaced_blank_cons hblank hlast offset row
    exact ⟨row', last', hlast', by simpa using (htext []).symm, hplaced.symm⟩
  | case3 => cases h
  | case4 => cases h
  | case5 offset c rest hblank token after hread stop hlength lexemes hrest =>
    rename_i ih
    cases h
    obtain ⟨row, last, hlast, hafter, rfl⟩ := ih hrest
    refine ⟨⟨[], token, rfl⟩ :: row, last, hlast, ?_, ?_⟩
    · rw [spacedText_cons, ← hafter]
      exact (readToken_spelling hread).1.symm
    · simp [placed, byteSize, stop]

/-- A text that has no tokens is faulty behind some of them. -/
theorem exists_faulty_of_scan {fault : LexFault} {place : Nat}
    (h : scan offset cs = .error (fault, place)) :
    ∃ row gap rest, gap.all isBlank = true ∧ cs = spacedText row (gap ++ rest) ∧
      Faulty fault rest := by
  fun_induction scan offset cs with
  | case1 => cases h
  | case2 offset c rest hblank ih =>
    obtain ⟨row, gap, behind, hgap, rfl, hfaulty⟩ := ih h
    obtain ⟨row', gap', hgap', htext, -⟩ := exists_spaced_blank_cons hblank hgap offset row
    exact ⟨row', gap', behind, hgap', (htext behind).symm, hfaulty⟩
  | case3 offset c rest hblank fault' skipped hread =>
    cases h
    exact ⟨[], [], c :: rest, rfl, rfl, (faulty_of_readToken (by simpa using hblank) hread).1⟩
  | case4 offset c rest hblank token after hread stop hlength e herror =>
    rename_i ih
    cases h
    obtain ⟨row, gap, behind, hgap, hafter, hfaulty⟩ := ih herror
    refine ⟨⟨[], token, rfl⟩ :: row, gap, behind, hgap, ?_, hfaulty⟩
    rw [spacedText_cons, ← hafter]
    exact (readToken_spelling hread).1.symm
  | case5 => cases h

/-! ## Reading again -/

theorem reads_gap {tokens : List Token} (hgap : cs.all isBlank = true) (h : Reads rest tokens) :
    Reads (cs ++ rest) tokens := by
  induction cs with
  | nil => exact h
  | cons c cs ih =>
    obtain ⟨hblank, hgap⟩ : isBlank c = true ∧ cs.all isBlank = true := by simpa using hgap
    intro offset
    obtain ⟨found, hfound, htokens⟩ := ih hgap (offset + c.utf8Size)
    refine ⟨found, ?_, htokens⟩
    rw [List.cons_append, scan, if_pos hblank, hfound]

/-- The token is read off its spelling in front of every text that ends literals. -/
def Stands (token : Token) : Prop :=
  ∀ rest tokens, endsLiteral rest = true → Reads rest tokens →
    Reads (token.spelling ++ rest) (token :: tokens)

/-- A token that was read once is read again, whatever stood behind it the first time. -/
theorem ReadAs.stands (h : ReadAs token) : token.Stands := by
  intro rest tokens hends hrest
  cases h with
  | mark hmark =>
    rw [spelling_ofMark? hmark]
    exact reads_mark hmark hrest
  | quoted hquote => simpa [spelling] using reads_quoted hquote hrest
  | operator hne hall => simpa [spelling_ofOperatorText] using reads_operator hne hall hrest
  | bare hrun => simpa [spelling] using hrun.reads hends hrest

theorem endsLiteral_append_of_isBlank (hgap : cs.all isBlank = true) (h : cs ≠ [] ∨ rest = []) :
    endsLiteral (cs ++ rest) = true := by
  cases cs with
  | nil => simp [h.resolve_left (by simp), endsLiteral]
  | cons c cs =>
    have hblank : isBlank c = true := by simpa using List.all_eq_true.1 hgap c List.mem_cons_self
    have hmark : c ≠ Escape.mark := by rintro rfl; exact absurd hblank (by decide)
    have hbracket : c ≠ '[' := by rintro rfl; exact absurd hblank (by decide)
    simp [endsLiteral, hmark, hbracket, isDelimiter, hblank]

/-- Gaps that are not empty end every literal. -/
theorem endsLiteral_spacedText (hgaps : ∀ s ∈ row, s.gap ≠ []) (hlast : last.all isBlank = true) :
    endsLiteral (spacedText row last) = true := by
  cases row with
  | nil => simpa using endsLiteral_append_of_isBlank hlast (.inr rfl)
  | cons s row =>
    rw [spacedText_cons]
    exact endsLiteral_append_of_isBlank s.blank (.inl (hgaps s List.mem_cons_self))

/-- A row of tokens that stand is read again off its text. -/
theorem reads_spacedText (hrow : ∀ s ∈ row, s.token.Stands) (hgaps : ∀ s ∈ row.tail, s.gap ≠ [])
    (hlast : last.all isBlank = true) : Reads (spacedText row last) (row.map Spaced.token) := by
  induction row with
  | nil => simpa using reads_gap hlast reads_nil
  | cons s row ih =>
    obtain ⟨hs, hrow⟩ := List.forall_mem_cons.1 hrow
    have hrest := ih hrow fun t ht => hgaps t (List.mem_of_mem_tail ht)
    rw [spacedText_cons]
    exact reads_gap s.blank (hs _ _ (endsLiteral_spacedText hgaps hlast) hrest)

end Token

/-! ## Texts and their tokens -/

open Token in
/-- **No character is lost.** A text has tokens or one of two faults, which shows behind some of its
tokens. Its tokens stand in their places, one behind the other, and what is between them is blank;
the end of the input is the last of them and nowhere else. -/
theorem tokenize_outcome (source : List Char) :
    (∃ fault position row gap rest, tokenize source = .error ⟨fault, position⟩ ∧
      fault ∈ [LexFault.invalidEscape, .unterminatedString] ∧ gap.all isBlank = true ∧
      source = spacedText row (gap ++ rest) ∧ Faulty fault rest) ∨
    ∃ found row last,
      let finish : Lexeme := ⟨.endOfInput, byteSize source, byteSize source⟩
      tokenize source = .ok (found ++ [finish]) ∧
      (∀ lexeme ∈ found, lexeme.token ≠ .endOfInput ∧
        slice lexeme.start lexeme.stop source = .ok lexeme.token.spelling) ∧
      (found ++ [finish]).Pairwise (fun a b => a.stop ≤ b.start) ∧
      (∀ before c after, source = before ++ c :: after →
        (∀ lexeme ∈ found, ¬ (lexeme.start ≤ byteSize before ∧ byteSize before < lexeme.stop)) →
        isBlank c = true) ∧
      source = spacedText row last ∧ last.all isBlank = true ∧
      row.map Spaced.token = found.map Lexeme.token := by
  cases hscan : scan 0 source with
  | error e =>
    obtain ⟨fault, place⟩ := e
    left
    obtain ⟨row, gap, rest, hgap, hsource, hfaulty⟩ := exists_faulty_of_scan hscan
    refine ⟨fault, Position.ofOffset source place, row, gap, rest, ?_, ?_, hgap, hsource, hfaulty⟩
    · simp [tokenize, lexemes, hscan]
    · cases hfaulty <;> simp
  | ok found =>
    right
    obtain ⟨row, last, hlast, hsource, hfound⟩ := exists_spaced_of_scan hscan
    have htokens : ∀ lexeme ∈ found, lexeme.token ≠ .endOfInput := by
      intro lexeme hmem
      exact (readAs_of_mem_scan hscan lexeme hmem).ne_endOfInput
    have hends : ∀ lexeme ∈ found, lexeme.stop ≤ byteSize source := by
      intro lexeme hmem
      rw [hfound] at hmem
      simpa [← hsource] using (le_of_mem_placed last lexeme hmem).2
    have hspans := slice_of_mem_scan hscan
    refine ⟨found, row, last, ?_, fun lexeme hmem => ⟨htokens lexeme hmem, hspans lexeme hmem⟩, ?_,
      ?_, hsource, hlast, ?_⟩
    · simp [tokenize, lexemes, hscan]
    · have hplaced : found.Pairwise fun a b => a.stop ≤ b.start := hfound ▸ pairwise_placed 0 row
      refine List.pairwise_append.2 ⟨hplaced, List.pairwise_singleton _ _, ?_⟩
      intro lexeme hmem finish hfinish
      rw [List.mem_singleton.1 hfinish]
      exact hends lexeme hmem
    · intro before c after hsplit hout
      rw [hfound] at hout
      exact isBlank_of_forall_placed 0 hlast (hsource.symm.trans hsplit) (by simpa using hout)
    · rw [hfound, map_token_placed]

namespace Condition

/-- Texts with the same tokens denote the same condition, if both are short enough. -/
theorem parse_eq_ok_of_map_token_eq {limits : Limits} {source other : String}
    {found found' : List Lexeme} {c : Condition} (hfound : lexemes source.toList = .ok found)
    (hother : lexemes other.toList = .ok found')
    (htokens : found'.map Lexeme.token = found.map Lexeme.token)
    (hlength : byteSize other.toList ≤ limits.maxLength) (h : parse limits source zones = .ok c) :
    parse limits other zones = .ok c := by
  obtain ⟨row, n, hrow, hn, hderives⟩ := exists_derives_of_parse h
  cases hrow.symm.trans hfound
  rw [parse_eq_filter hlength hother]
  exact (Context.accepts_of_derives hderives _ hn).filter htokens

end Condition

open Token in
/-- **Blanks between tokens do not matter.** The tokens of a text, written again with other gaps
between them, are read as the same tokens, and the two texts denote the same condition. -/
theorem tokenize_spacedText {source : List Char} {tokens : List Lexeme} {row : List Spaced}
    {last : List Char} (h : tokenize source = .ok tokens)
    (hrow : row.map Spaced.token ++ [.endOfInput] = tokens.map Lexeme.token)
    (hgaps : ∀ s ∈ row.tail, s.gap ≠ []) (hlast : last.all isBlank = true) :
    (∃ tokens', tokenize (spacedText row last) = .ok tokens' ∧
      tokens'.map Lexeme.token = tokens.map Lexeme.token) ∧
    ∀ (limits : Limits) (zones : Zone.Database), byteSize source ≤ limits.maxLength →
      byteSize (spacedText row last) ≤ limits.maxLength →
      ∀ c, Condition.parse limits (String.ofList source) zones = .ok c ↔
        Condition.parse limits (String.ofList (spacedText row last)) zones = .ok c := by
  obtain ⟨found, hfound, hall⟩ := Condition.exists_lexemes_of_tokenize h
  rw [hall] at hrow ⊢
  replace hrow := List.append_cancel_right hrow
  have hstands : ∀ s ∈ row, s.token.Stands := by
    intro s hs
    have hmem : s.token ∈ found.map Lexeme.token := hrow ▸ List.mem_map_of_mem hs
    obtain ⟨lexeme, hlexeme, htoken⟩ := List.mem_map.1 hmem
    exact htoken ▸ (readAs_of_mem_scan (lexemes_eq_ok_iff.1 hfound) lexeme hlexeme).stands
  obtain ⟨found', hscan, htokens⟩ := reads_spacedText hstands hgaps hlast 0
  have hfound' := lexemes_eq_ok_iff.2 hscan
  rw [hrow] at htokens
  constructor
  · refine ⟨_, by rw [tokenize, hfound'], ?_⟩
    simp [htokens]
  · intro limits zones hlength hlength' c
    constructor
    · exact Condition.parse_eq_ok_of_map_token_eq (by simpa using hfound) (by simpa using hfound')
        htokens (by simpa using hlength')
    · exact Condition.parse_eq_ok_of_map_token_eq (by simpa using hfound') (by simpa using hfound)
        htokens.symm (by simpa using hlength)

open Token in
/-- The zone of a date-time and the blank in quotes belong to their tokens, and they stay as they
are. -/
theorem tokenize_spacedText_zoned :
    let source := "(a$eq:2023-01-01T10:00[Europe/Oslo])$or:b$eq:\"x y\"".toList
    let row : List Spaced :=
      [⟨['\t'], .openParen, rfl⟩, ⟨[' '], .literal "a" false, rfl⟩,
        ⟨[' ', '\n'], .operator "$eq:", rfl⟩,
        ⟨[' '], .literal "2023-01-01T10:00[Europe/Oslo]" false, rfl⟩, ⟨['\n'], .closeParen, rfl⟩,
        ⟨[' '], .operator "$or:", rfl⟩, ⟨['\u3000'], .literal "b" false, rfl⟩,
        ⟨[' '], .operator "$eq:", rfl⟩, ⟨[' ', ' '], .literal "x y" true, rfl⟩]
    ∃ tokens, tokenize source = .ok tokens ∧
      row.map Spaced.token ++ [.endOfInput] = tokens.map Lexeme.token ∧
      (∃ tokens', tokenize (spacedText row [' ']) = .ok tokens' ∧
        tokens'.map Lexeme.token = tokens.map Lexeme.token) ∧
      ∀ c, Condition.parse {} (String.ofList source) = .ok c ↔
        Condition.parse {} (String.ofList (spacedText row [' '])) = .ok c := by
  intro source row
  have htokens : tokenize source = .ok [⟨.openParen, 0, 1⟩, ⟨.literal "a" false, 1, 2⟩,
      ⟨.operator "$eq:", 2, 6⟩, ⟨.literal "2023-01-01T10:00[Europe/Oslo]" false, 6, 35⟩,
      ⟨.closeParen, 35, 36⟩, ⟨.operator "$or:", 36, 40⟩, ⟨.literal "b" false, 40, 41⟩,
      ⟨.operator "$eq:", 41, 45⟩, ⟨.literal "x y" true, 45, 50⟩, ⟨.endOfInput, 50, 50⟩] := by
    decide +kernel
  have hgaps : ∀ s ∈ row.tail, s.gap ≠ [] := by decide
  have hlast : [' '].all isBlank = true := rfl
  obtain ⟨hagain, hparse⟩ := tokenize_spacedText htokens (by rfl) hgaps hlast
  exact ⟨_, htokens, rfl, hagain, hparse {} Zone.known (by decide +kernel) (by decide +kernel)⟩

end FilterQuery
