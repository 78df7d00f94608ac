import FilterQuery.Operator
import FilterQuery.Token
import FilterQuery.Proofs.Escape

set_option autoImplicit false

/-! # Lexing written text

`Reads cs row` says that a text has these tokens, wherever in a source it stands. Marks, operators
and quoted literals are read off whatever follows them. A bare literal is not: it runs on until
something ends it, and a bracketed zone name may even look far ahead. `endsLiteral` are the texts
that end every bare literal, and a text that is a bare literal by itself stays one in front of them
(`IsBare.reads`). -/

namespace FilterQuery.Token

open FilterQuery.Text

/-- The text has these tokens, whatever its offset. -/
def Reads (cs : List Char) (row : List Token) : Prop :=
  ∀ offset, ∃ found, scan offset cs = .ok found ∧ found.map Lexeme.token = row

variable {cs rest : List Char} {row : List Token} {c : Char}

theorem reads_nil : Reads [] [] := fun offset => ⟨[], by rw [scan], rfl⟩

/-- A text whose first token is known has it and the tokens of the rest. -/
theorem scan_cons_eq_ok_iff {after : List Char} {token : Token} {offset : Nat}
    {found : List Lexeme} (hblank : isBlank c = false)
    (hread : readToken c rest = .ok (token, after)) :
    scan offset (c :: rest) = .ok found ↔
      ∃ behind, scan (offset + byteSize token.spelling) after = .ok behind ∧
        found = ⟨token, offset, offset + byteSize token.spelling⟩ :: behind := by
  rw [scan, hblank]
  simp only [Bool.false_eq_true, if_false]
  split
  · next fault skipped herror => rw [hread] at herror; cases herror
  · next token' after' hok =>
    rw [hread] at hok
    cases hok
    split
    · next e herror => simp [herror]
    · next lexemes hlexemes => simp [hlexemes, eq_comm]

theorem reads_cons {after : List Char} {token : Token} (hblank : isBlank c = false)
    (hread : readToken c rest = .ok (token, after)) (h : Reads after row) :
    Reads (c :: rest) (token :: row) := by
  intro offset
  obtain ⟨found, hfound, hrow⟩ := h (offset + byteSize token.spelling)
  exact ⟨_, (scan_cons_eq_ok_iff hblank hread).2 ⟨found, hfound, rfl⟩, by simp [hrow]⟩

/-- The first token of a text that starts with no blank. -/
theorem exists_readToken_of_scan {offset : Nat} {found : List Lexeme}
    (h : scan offset (c :: rest) = .ok found) (hblank : isBlank c = false) :
    ∃ token after, readToken c rest = .ok (token, after) ∧
      (found.map Lexeme.token).head? = some token := by
  rw [scan, hblank] at h
  simp only [Bool.false_eq_true, if_false] at h
  split at h
  · cases h
  · next token after hread =>
    split at h
    · cases h
    · cases h
      exact ⟨token, after, hread, rfl⟩

/-! ## Marks, operators and quoted literals -/

theorem reads_mark {token : Token} (hmark : ofMark? c = some token) (h : Reads rest row) :
    Reads (c :: rest) (token :: row) := by
  have hblank : isBlank c = false := by
    unfold ofMark? at hmark
    split at hmark
    case h_6 => cases hmark
    all_goals decide
  exact reads_cons hblank (by rw [readToken, hmark]) h

theorem readToken_operator {letters : List Char} (hne : letters ≠ [])
    (hall : letters.all isLetter = true) :
    readToken Escape.mark (letters ++ ':' :: rest) =
      .ok (ofOperatorText (String.ofList (Escape.mark :: (letters ++ [':']))), rest) := by
  have hletters := List.all_eq_true.1 hall
  have htake : (letters ++ ':' :: rest).takeWhile isLetter = letters := by
    rw [List.takeWhile_append_of_pos hletters]
    simp [show isLetter ':' = false by decide]
  have hdrop : (letters ++ ':' :: rest).dropWhile isLetter = ':' :: rest := by
    rw [List.dropWhile_append_of_pos hletters]
    simp [show isLetter ':' = false by decide]
  obtain ⟨d, ds, rfl⟩ := List.exists_cons_of_ne_nil hne
  have hhead : ((d :: ds ++ ':' :: rest).head?.any isLetter) = true := by
    simpa using hletters d List.mem_cons_self
  rw [readToken, show ofMark? Escape.mark = none by decide]
  simp only [hhead, readOperator, hdrop, htake]
  rfl

theorem reads_operator {letters : List Char} (hne : letters ≠ [])
    (hall : letters.all isLetter = true) (h : Reads rest row) :
    Reads (Escape.mark :: (letters ++ ':' :: rest))
      (ofOperatorText (String.ofList (Escape.mark :: (letters ++ [':']))) :: row) :=
  reads_cons (by decide) (readToken_operator hne hall) h

/-- The letters between the mark and the colon of an operator. -/
theorem exists_letters (op : Operator) : ∃ letters : List Char, letters ≠ [] ∧
    letters.all isLetter = true ∧
    op.token = String.ofList (Escape.mark :: (letters ++ [':'])) := by
  refine ⟨op.token.toList.tail.dropLast, ?_⟩
  cases op <;> decide

theorem readToken_operator_token (op : Operator) (rest : List Char) : ∃ tail,
    op.token.toList ++ rest = Escape.mark :: tail ∧
      readToken Escape.mark tail = .ok (.operator op.token, rest) := by
  have hother : op.token ≠ "$having:" := by cases op <;> decide
  have htoken : ofOperatorText op.token = .operator op.token := if_neg hother
  obtain ⟨letters, hne, hletters, heq⟩ := exists_letters op
  refine ⟨letters ++ ':' :: rest, ?_, ?_⟩
  · rw [heq, String.toList_ofList, List.cons_append, List.append_assoc]
    rfl
  · rw [← htoken, heq]
    exact readToken_operator hne hletters

theorem reads_operator_token (op : Operator) (h : Reads rest row) :
    Reads (op.token.toList ++ rest) (.operator op.token :: row) := by
  obtain ⟨tail, htail, hread⟩ := readToken_operator_token op rest
  rw [htail]
  exact reads_cons (by decide) hread h

theorem reads_having (h : Reads rest row) :
    Reads ("$having:".toList ++ rest) (.having :: row) := by
  have hread : Reads (Escape.mark :: (['h', 'a', 'v', 'i', 'n', 'g'] ++ ':' :: rest)) _ :=
    reads_operator (by decide) (by decide) h
  exact hread

/-- A quoted literal ends at the next quote. -/
theorem readToken_quoted (hquote : '"' ∉ cs) (rest : List Char) :
    readToken '"' (cs ++ '"' :: rest) = .ok (.literal (String.ofList cs) true, rest) := by
  have hcs : ∀ d ∈ cs, (d != '"') = true := by
    intro d hd
    simpa using fun heq : d = '"' => hquote (heq ▸ hd)
  have htake : (cs ++ '"' :: rest).takeWhile (· != '"') = cs := by
    rw [List.takeWhile_append_of_pos hcs]
    simp
  have hdrop : (cs ++ '"' :: rest).dropWhile (· != '"') = '"' :: rest := by
    rw [List.dropWhile_append_of_pos hcs]
    simp
  rw [readToken, show ofMark? '"' = none by decide]
  simp only [readQuoted, hdrop, htake]
  rfl

theorem reads_quoted (hquote : '"' ∉ cs) (h : Reads rest row) :
    Reads ('"' :: (cs ++ '"' :: rest)) (.literal (String.ofList cs) true :: row) :=
  reads_cons (by decide) (readToken_quoted hquote rest) h

/-! ## Bare literals -/

/-- A text in front of which every bare literal ends. A bracket does not, if it can open the name of
a zone. -/
def endsLiteral : List Char → Bool
  | [] => true
  | c :: rest => if c == Escape.mark then rest.head?.any isLetter else isDelimiter c && c != '['

/-- Operators end every bare literal. -/
theorem endsLiteral_operator_token (op : Operator) :
    endsLiteral (op.token.toList ++ rest) = true := by
  obtain ⟨letters, hne, hletters, heq⟩ := exists_letters op
  obtain ⟨d, ds, rfl⟩ := List.exists_cons_of_ne_nil hne
  rw [heq, String.toList_ofList]
  simpa [endsLiteral] using List.all_eq_true.1 hletters d List.mem_cons_self

theorem not_isLetter_of_isEscapable (h : Escape.isEscapable c = true) : isLetter c = false := by
  have hall : ((Escape.mark :: '*' :: '?' :: Escape.structural).all fun d => !isLetter d) = true :=
    by decide
  simpa using List.all_eq_true.1 hall c (Escape.mem_of_isEscapable h)

theorem bareRun_zone (seen : List Char) :
    bareRun true seen (c :: rest) = bareRun (c != ']') (c :: seen) rest := by
  rw [bareRun.eq_def]
  rfl

theorem bareRun_openZone {seen : List Char} (hseen : looksLikeDateTime seen.reverse = true)
    (hclose : ']' ∈ rest) : bareRun false seen ('[' :: rest) = bareRun true ('[' :: seen) rest := by
  rw [bareRun.eq_def]
  simp [show '[' ≠ Escape.mark by decide, hseen, hclose]

theorem bareRun_plain {seen : List Char} (hmark : c ≠ Escape.mark)
    (hdelimiter : isDelimiter c = false) :
    bareRun false seen (c :: rest) = bareRun false (c :: seen) rest := by
  have hbracket : c ≠ '[' := by rintro rfl; exact absurd hdelimiter (by decide)
  rw [bareRun.eq_def]
  simp [hmark, hdelimiter, hbracket]

theorem bareRun_escaped {seen : List Char} (hescapable : Escape.isEscapable c = true) :
    bareRun false seen (Escape.mark :: c :: rest) =
      bareRun false (c :: Escape.mark :: seen) rest := by
  have hletter : isLetter c = false := not_isLetter_of_isEscapable hescapable
  rw [bareRun.eq_def]
  simp [hescapable, hletter]

theorem bareRun_of_endsLiteral {seen : List Char} (h : endsLiteral rest = true) :
    bareRun false seen rest = .ok (seen.reverse, rest) := by
  rw [bareRun.eq_def]
  cases rest with
  | nil => rfl
  | cons c rest =>
    by_cases hmark : c = Escape.mark
    · subst hmark
      cases rest with
      | nil => simp [endsLiteral] at h
      | cons d rest =>
        have hletter : isLetter d = true := by simpa [endsLiteral] using h
        simp [hletter]
    · obtain ⟨hdelimiter, hbracket⟩ : isDelimiter c = true ∧ c ≠ '[' := by
        simpa [endsLiteral, hmark] using h
      simp [hmark, hbracket, hdelimiter]

/-- A literal that takes a whole text takes the same of it in front of a text that ends it. -/
theorem bareRun_append_of_endsLiteral {inZone : Bool} {seen run : List Char}
    (h : bareRun inZone seen cs = .ok (run, [])) (hzone : inZone = true → ']' ∈ cs)
    (hends : endsLiteral rest = true) : bareRun inZone seen (cs ++ rest) = .ok (run, rest) := by
  fun_induction bareRun inZone seen cs with
  | case1 inZone seen =>
    obtain rfl : inZone = false := by simpa using hzone
    obtain rfl : seen.reverse = run := by simpa using h
    exact bareRun_of_endsLiteral hends
  | case2 seen c cs ih =>
    rw [List.cons_append, bareRun_zone]
    refine ih h fun hc => ?_
    -- The zone goes on, so its end is not here.
    rcases List.mem_cons.1 (hzone rfl) with heq | hmem
    · simp [← heq] at hc
    · exact hmem
  | case3 => cases h
  | case4 => simp at h
  | case5 inZone seen c hout hmark next cs _ hescapable ih =>
    obtain rfl : inZone = false := by simpa using hout
    obtain rfl : c = Escape.mark := eq_of_beq hmark
    rw [List.cons_append, List.cons_append, bareRun_escaped hescapable]
    exact ih h (by simp)
  | case6 => cases h
  | case7 inZone seen c cs hout _ hopen ih =>
    obtain rfl : inZone = false := by simpa using hout
    obtain ⟨⟨hbracket, hseen⟩, hclose⟩ : (c = '[' ∧ looksLikeDateTime seen.reverse = true) ∧
        ']' ∈ cs := by simpa using hopen
    subst hbracket
    rw [List.cons_append, bareRun_openZone hseen (List.mem_append_left _ hclose)]
    exact ih h fun _ => hclose
  | case8 => simp at h
  | case9 inZone seen c cs hout hmark _ hdelimiter ih =>
    obtain rfl : inZone = false := by simpa using hout
    rw [List.cons_append, bareRun_plain (by simpa using hmark) (by simpa using hdelimiter)]
    exact ih h (by simp)

/-- The text is one bare literal. -/
def IsBare (cs : List Char) : Prop :=
  ∃ c rest, cs = c :: rest ∧ isBlank c = false ∧
    readToken c rest = .ok (.literal (String.ofList cs) false, [])

theorem readBare_of_readToken {raw : String} {after : List Char}
    (h : readToken c rest = .ok (.literal raw false, after)) :
    ofMark? c = none ∧ c ≠ '"' ∧ (c == Escape.mark && rest.head?.any isLetter) = false ∧
      readBare c rest = .ok (.literal raw false, after) := by
  unfold readToken at h
  split at h
  · next token hmark =>
    cases h
    unfold ofMark? at hmark
    split at hmark <;> cases hmark
  · next hmark =>
    refine ⟨hmark, ?_⟩
    split at h
    · unfold readQuoted at h
      split at h <;> cases h
    · next hquote =>
      refine ⟨by simpa using hquote, ?_⟩
      split at h
      · unfold readOperator at h
        split at h
        · have hliteral := congrArg Prod.fst (Except.ok.inj h)
          simp only [ofOperatorText] at hliteral
          split at hliteral <;> cases hliteral
        · cases h
      · next hoperator => exact ⟨by simpa using hoperator, h⟩

/-- A bare literal takes its whole text. -/
theorem IsBare.bareRun (h : IsBare cs) : Token.bareRun false [] cs = .ok (cs, []) := by
  obtain ⟨c, tail, rfl, -, hread⟩ := h
  obtain ⟨-, -, -, hbare⟩ := readBare_of_readToken hread
  unfold readBare at hbare
  split at hbare
  · cases hbare
  · cases hbare
  · next run after _ hrun =>
    obtain ⟨hraw, rfl⟩ : String.ofList run = String.ofList (c :: tail) ∧ after = [] := by
      simpa using hbare
    rw [hrun, String.ofList_injective hraw]

/-- It is read in front of every text that ends it. -/
theorem IsBare.readToken_append (h : IsBare cs) (hends : endsLiteral rest = true) :
    ∃ c tail, cs ++ rest = c :: tail ∧ isBlank c = false ∧
      readToken c tail = .ok (.literal (String.ofList cs) false, rest) := by
  have hrun := h.bareRun
  obtain ⟨c, tail, rfl, hblank, hread⟩ := h
  obtain ⟨hmark, hquote, hoperator, -⟩ := readBare_of_readToken hread
  refine ⟨c, tail ++ rest, rfl, hblank, ?_⟩
  have hoperator' : (c == Escape.mark && (tail ++ rest).head?.any isLetter) = false := by
    cases tail with
    | nil =>
      -- A mark alone is no literal.
      have : c ≠ Escape.mark := by rintro rfl; simp [Token.bareRun] at hrun
      simp [this]
    | cons d tail => simpa using hoperator
  have hlong := bareRun_append_of_endsLiteral hrun (by simp) hends
  rw [List.cons_append] at hlong
  rw [readToken, hmark]
  simp only [beq_eq_false_iff_ne.2 hquote, hoperator', readBare, hlong]
  rfl

theorem IsBare.reads (h : IsBare cs) (hends : endsLiteral rest = true) (hrest : Reads rest row) :
    Reads (cs ++ rest) (.literal (String.ofList cs) false :: row) := by
  obtain ⟨c, tail, htail, hblank, hread⟩ := h.readToken_append hends
  rw [htail]
  exact reads_cons hblank hread hrest

/-- A trimmed text that has one token, which is a bare literal with the same text. -/
theorem isBare_of_scan {offset : Nat} {found : List Lexeme} (htrim : trim cs = cs)
    (h : scan offset cs = .ok found)
    (htoken : found.map Lexeme.token = [.literal (String.ofList cs) false]) : IsBare cs := by
  cases cs with
  | nil =>
    rw [scan] at h
    cases h
    cases htoken
  | cons c rest =>
    have hblank : isBlank c = false := not_isBlank_of_trim_eq htrim
    obtain ⟨token, after, hread, hhead⟩ := exists_readToken_of_scan h hblank
    obtain rfl : .literal (String.ofList (c :: rest)) false = token := by
      simpa [htoken] using hhead
    -- The token is spelled by the whole text, so nothing is left behind it.
    obtain rfl : after = [] := by simpa [spelling] using (readToken_spelling hread).1
    exact ⟨c, rest, rfl, hblank, hread⟩

/-! ## The ends of bare literals -/

/-- Every token of a text was read where it starts. -/
theorem exists_readToken_of_mem_scan {offset : Nat} {found : List Lexeme}
    (h : scan offset cs = .ok found) : ∀ lexeme ∈ found, ∃ c rest after, isBlank c = false ∧
      readToken c rest = .ok (lexeme.token, after) := by
  fun_induction scan offset cs generalizing found with
  | case1 offset =>
    cases h
    simp
  | case2 offset c rest hblank ih => exact ih h
  | case3 => cases h
  | case4 => cases h
  | case5 offset c rest hblank token after hread stop hlength lexemes hrest =>
    rename_i ih
    cases h
    intro lexeme hmem
    rcases List.mem_cons.1 hmem with rfl | hmem
    · exact ⟨c, rest, after, by simpa using hblank, hread⟩
    · exact ih hrest lexeme hmem

/-- The blank that may be escaped is the space. -/
theorem eq_space_of_isEscapable (h : Escape.isEscapable c = true) (hblank : isBlank c = true) :
    c = ' ' := by
  have hall : ((Escape.mark :: '*' :: '?' :: Escape.structural).all fun d =>
      !isBlank d || d == ' ') = true := by decide
  simpa [hblank] using List.all_eq_true.1 hall c (Escape.mem_of_isEscapable h)

/-- A bare literal ends in no blank but an escaped space. The name of a zone is closed before the
literal ends. -/
theorem eq_space_of_getLast?_bareRun {inZone : Bool} {seen run after : List Char}
    (h : bareRun inZone seen cs = .ok (run, after)) (hzone : inZone = true → ']' ∈ cs)
    (hseen : inZone = false → ∀ d ∈ seen.head?, isBlank d = true → d = ' ') :
    ∀ d ∈ run.getLast?, isBlank d = true → d = ' ' := by
  have stop {inZone : Bool} {seen run rest after : List Char}
      (h : (.ok (seen.reverse, rest) : Except (List Char) _) = .ok (run, after))
      (hout : inZone = false)
      (hseen : inZone = false → ∀ d ∈ seen.head?, isBlank d = true → d = ' ') :
      ∀ d ∈ run.getLast?, isBlank d = true → d = ' ' := by
    cases h
    rw [List.getLast?_reverse]
    exact hseen hout
  fun_induction bareRun inZone seen cs with
  | case1 inZone seen => exact stop h (by simpa using hzone) hseen
  | case2 seen c cs ih =>
    refine ih h (fun hc => ?_) fun hc => ?_
    · rcases List.mem_cons.1 (hzone rfl) with heq | hmem
      · simp [← heq] at hc
      · exact hmem
    · obtain rfl : c = ']' := by simpa using hc
      intro d hd hblank
      obtain rfl : ']' = d := by simpa using hd
      exact absurd hblank (by decide)
  | case3 => cases h
  | case4 inZone seen c hout _ next cs _ => exact stop h (by simpa using hout) hseen
  | case5 inZone seen c hout hmark next cs _ hescapable ih =>
    refine ih h (by simp) fun _ d hd => ?_
    obtain rfl : next = d := by simpa using hd
    exact eq_space_of_isEscapable hescapable
  | case6 => cases h
  | case7 inZone seen c cs hout _ hopen ih =>
    refine ih h (fun _ => ?_) (by simp)
    simp only [Bool.and_eq_true, List.contains_iff_mem] at hopen
    exact hopen.2
  | case8 inZone seen c cs hout _ _ _ => exact stop h (by simpa using hout) hseen
  | case9 inZone seen c cs hout hmark _ hdelimiter ih =>
    refine ih h (by simp) fun _ d hd hblank => ?_
    obtain rfl : c = d := by simpa using hd
    simp [isDelimiter, hblank] at hdelimiter

theorem lexemes_eq_ok_iff {found : List Lexeme} :
    lexemes cs = .ok found ↔ scan 0 cs = .ok found := by
  unfold lexemes
  split
  · next h => simp [h]
  · next h => simp [h]

/-- A bare literal is trimmed only if it ends in an escaped space. -/
theorem trim_of_mem_lexemes {found : List Lexeme} {raw : String} (h : lexemes cs = .ok found)
    (hmem : .literal raw false ∈ found.map Lexeme.token) (hlast : raw.toList.getLast? ≠ some ' ') :
    trim raw.toList = raw.toList := by
  obtain ⟨lexeme, hlexeme, htoken⟩ := List.mem_map.1 hmem
  obtain ⟨c, rest, after, hblank, hread⟩ :=
    exists_readToken_of_mem_scan (lexemes_eq_ok_iff.1 h) lexeme hlexeme
  rw [htoken] at hread
  obtain ⟨-, -, -, hbare⟩ := readBare_of_readToken hread
  obtain ⟨hspelling, hne⟩ := readBare_spelling hbare
  unfold readBare at hbare
  split at hbare
  · cases hbare
  · cases hbare
  · next run behind _ hrun =>
    obtain ⟨rfl, rfl⟩ : String.ofList run = raw ∧ behind = after := by simpa using hbare
    rw [spelling, String.toList_ofList] at hspelling hne
    rw [String.toList_ofList] at hlast ⊢
    refine trim_eq_self (fun d hd => ?_) fun d hd => ?_
    · obtain ⟨first, tail, rfl⟩ := List.exists_cons_of_ne_nil hne
      obtain ⟨rfl, -⟩ := List.cons.inj hspelling
      obtain rfl : first = d := by simpa using hd
      exact hblank
    · by_contra hblank'
      have hspace :=
        eq_space_of_getLast?_bareRun hrun (by simp) (by simp) d hd (by simpa using hblank')
      exact hlast (hspace ▸ hd)

/-! ## Texts that nothing ends -/

/-- Characters that do not end a bare literal, and escapes. -/
inductive Unbroken : List Char → Prop
  | nil : Unbroken []
  | plain {c : Char} {cs : List Char} (hmark : c ≠ Escape.mark)
      (hdelimiter : isDelimiter c = false) (h : Unbroken cs) : Unbroken (c :: cs)
  | escaped {c : Char} {cs : List Char} (hescapable : Escape.isEscapable c = true)
      (h : Unbroken cs) : Unbroken (Escape.mark :: c :: cs)

theorem Unbroken.bareRun (h : Unbroken cs) (seen : List Char) :
    Token.bareRun false seen cs = .ok (seen.reverse ++ cs, []) := by
  induction h generalizing seen with
  | nil => simp [Token.bareRun]
  | plain hmark hdelimiter _ ih => rw [bareRun_plain hmark hdelimiter, ih]; simp
  | escaped hescapable _ ih => rw [bareRun_escaped hescapable, ih]; simp

theorem Unbroken.isBare (h : Unbroken cs) (hne : cs ≠ []) : IsBare cs := by
  obtain ⟨c, rest, rfl⟩ := List.exists_cons_of_ne_nil hne
  have hbare : readBare c rest = .ok (.literal (String.ofList (c :: rest)) false, []) := by
    rw [readBare, h.bareRun]
    rfl
  refine ⟨c, rest, rfl, ?_⟩
  cases h with
  | plain hmark hdelimiter _ =>
    obtain ⟨hblank, hopen, hclose, hleft, hright, hcomma, hquote⟩ :
        isBlank c = false ∧ c ≠ '(' ∧ c ≠ ')' ∧ c ≠ '[' ∧ c ≠ ']' ∧ c ≠ ',' ∧ c ≠ '"' := by
      simpa [isDelimiter] using hdelimiter
    refine ⟨hblank, ?_⟩
    have hnone : ofMark? c = none := by
      unfold ofMark?
      split
      case h_6 => rfl
      all_goals contradiction
    rw [readToken, hnone]
    simpa [hquote, hmark] using hbare
  | escaped hescapable _ =>
    refine ⟨by decide, ?_⟩
    rw [readToken, show ofMark? Escape.mark = none by decide]
    simpa [not_isLetter_of_isEscapable hescapable, show Escape.mark ≠ '"' by decide] using hbare

theorem Unbroken.append {ds : List Char} (h : Unbroken cs) (h' : Unbroken ds) :
    Unbroken (cs ++ ds) := by
  induction h with
  | nil => exact h'
  | plain hmark hdelimiter _ ih => exact .plain hmark hdelimiter ih
  | escaped hescapable _ ih => exact .escaped hescapable ih

theorem unbroken_of_forall (h : ∀ c ∈ cs, c ≠ Escape.mark ∧ isDelimiter c = false) :
    Unbroken cs := by
  induction cs with
  | nil => exact .nil
  | cons c cs ih =>
    obtain ⟨hmark, hdelimiter⟩ := h c List.mem_cons_self
    exact .plain hmark hdelimiter (ih fun d hd => h d (List.mem_cons_of_mem _ hd))

/-- Escaped text is one literal, if it has no quotes and no blanks but spaces. -/
theorem unbroken_escape (hquote : '"' ∉ cs) (hblank : ∀ c ∈ cs, isBlank c = true → c = ' ') :
    Unbroken (Escape.escape cs) := by
  obtain ⟨row, hrow, rfl, hwritten⟩ := Escape.exists_row cs
  rw [← hwritten]
  clear hwritten
  induction row with
  | nil => exact .nil
  | cons s row ih =>
    rw [Escape.allMarked_cons] at hrow
    simp only [List.flatMap_cons, List.mem_append, not_or] at hquote hblank
    have hrest := ih hrow.2 hquote.2 fun c hc => hblank c (.inr hc)
    rw [List.flatMap_cons]
    cases s with
    | escaped c h =>
      rw [Escape.Sign.written_escaped]
      exact hrest.escaped h
    | plain c =>
      obtain ⟨hmark, hstructural⟩ := hrow.1 c rfl
      -- The delimiters are structural characters, the quote and the other blanks.
      have hne : c ≠ '"' := fun heq => hquote.1 (by simp [Escape.Sign.resolved, heq])
      have hspace : isBlank c = false := by
        by_contra hc
        have heq := hblank c (.inl (by simp [Escape.Sign.resolved])) (by simpa using hc)
        exact hstructural (by rw [heq]; decide)
      have hdelimiter : isDelimiter c = false := by
        simp only [Escape.structural, List.mem_cons, not_or] at hstructural
        simp [isDelimiter, hspace, hne, hstructural]
      exact .plain hmark hdelimiter hrest

/-- Otherwise it is not one: such a character has no escape, and ends the literal. -/
theorem not_mem_of_bareRun_escape {seen run : List Char}
    (h : bareRun false seen (Escape.escape cs) = .ok (run, [])) :
    '"' ∉ cs ∧ ∀ c ∈ cs, isBlank c = true → c = ' ' := by
  suffices hall : ∀ c ∈ cs, c ≠ '"' ∧ (isBlank c = true → c = ' ') from
    ⟨fun hquote => (hall _ hquote).1 rfl, fun c hc => (hall c hc).2⟩
  obtain ⟨row, hrow, rfl, hwritten⟩ := Escape.exists_row cs
  rw [← hwritten] at h
  clear hwritten
  induction row generalizing seen with
  | nil => simp
  | cons s row ih =>
    rw [Escape.allMarked_cons] at hrow
    rw [List.flatMap_cons] at h ⊢
    rw [List.forall_mem_append]
    cases s with
    | escaped c hc =>
      rw [Escape.Sign.written_escaped, List.cons_append, List.cons_append, List.nil_append,
        bareRun_escaped hc] at h
      refine ⟨fun d hd => ?_, ih hrow.2 h⟩
      obtain rfl : d = c := by
        by_cases hwild : Escape.isWildcard c = true <;>
          simpa [Escape.Sign.resolved, Escape.resolved, hwild] using hd
      exact ⟨by rintro rfl; exact absurd hc (by decide), eq_space_of_isEscapable hc⟩
    | plain c =>
      obtain ⟨hmark, hstructural⟩ := hrow.1 c rfl
      have hbracket : c ≠ '[' := by rintro rfl; exact hstructural (by decide)
      have hdelimiter : isDelimiter c = false := by
        by_contra hdelimiter
        have hends : endsLiteral (c :: row.flatMap Escape.Sign.written) = true := by
          simpa [endsLiteral, hmark, hbracket] using hdelimiter
        have hrun := (bareRun_of_endsLiteral hends).symm.trans h
        simp at hrun
      refine ⟨fun d hd => ?_, ih hrow.2 (bareRun_plain hmark hdelimiter ▸ h)⟩
      obtain rfl : d = c := by simpa [Escape.Sign.resolved] using hd
      obtain ⟨hblank, -, -, -, -, -, hquote⟩ :
          isBlank d = false ∧ d ≠ '(' ∧ d ≠ ')' ∧ d ≠ '[' ∧ d ≠ ']' ∧ d ≠ ',' ∧ d ≠ '"' := by
        simpa [isDelimiter] using hdelimiter
      exact ⟨hquote, by simp [hblank]⟩

end FilterQuery.Token
