import FilterQuery.Proofs.Layout
import FilterQuery.Proofs.LiteralText

set_option autoImplicit false

/-! # The strings that their texts denote

A string is written as its escaped text, in quotes if the bare text would be of another shape. Only
numbers ever are: every other shape has a structural character behind its first digits, which is
escaped (`Shape.eq_number_of_recognises_escape`).

A comparison with that text is parsed as one with the string exactly if the string is
`Literal.Expressible`. That it has to be is found by counting. Quotes and blanks are as many in the
escaped text as in the string, and as many in a text as in what it is resolved to. Gaps between
tokens, the marks of a quoted literal and trimming can only lose some. So if the string comes back,
nothing was lost, and one bare literal has taken the whole of its text. -/

namespace FilterQuery

open FilterQuery.Text

variable {zones : Zone.Database}

/-! ## Blanks that are not trimmed -/

namespace Text

/-- Trimming that loses no blank does nothing. -/
theorem trim_eq_self_of_count {cs : List Char}
    (h : ∀ c, isBlank c = true → cs.count c ≤ (trim cs).count c) : trim cs = cs := by
  refine trim_eq_self ?_ ?_
  · intro c hc
    obtain ⟨rest, rfl⟩ := List.head?_eq_some_iff.1 hc
    by_contra hblank
    rw [Bool.not_eq_false] at hblank
    have hskip : trim (c :: rest) = trim rest := by simp [trim, trimStart, hblank]
    have hkept := h c hblank
    rw [hskip, List.count_cons_self] at hkept
    have hle := (trim_sublist rest).count_le c
    omega
  · intro c hc
    obtain ⟨front, rfl⟩ := List.getLast?_eq_some_iff.1 hc
    by_contra hblank
    rw [Bool.not_eq_false] at hblank
    have hkept := h c hblank
    rw [List.count_append, List.count_singleton_self] at hkept
    have hle := (@trim_sublist_of_isBlank front c hblank).count_le c
    omega

end Text

/-! ## Shapes of escaped texts -/

namespace Shape

variable {a : Shape} {cs front rest : List Char}

/-- Digits at the start of escaped text have no structural character behind them. -/
theorem firstMark_of_escape_eq {d : Char} (hsplit : Escape.escape cs = front ++ rest)
    (h : firstMark front = some d) : d ∉ Escape.structural := by
  intro hd
  obtain ⟨-, digits, tail, rfl, hdigits⟩ := List.find?_eq_some_iff_append.1 h
  rw [List.append_assoc, List.cons_append] at hsplit
  have hmark := Escape.mark_mem_of_escape_eq hd hsplit
  exact absurd (hdigits _ hmark) (by decide)

/-- What escaped text begins with passes no test but that for numbers: the other outlines have a
structural character behind their first digits. -/
theorem eq_number_of_escape_eq (hsplit : Escape.escape cs = front ++ rest)
    (h : a.recognises front = true) : a = .number := by
  have htable : (typed.all fun a => a.outlines.all fun o =>
      (firstMark o.text).any Escape.isStructural) = true := by decide
  by_contra hne
  obtain ⟨o, ho, hfits⟩ := exists_outline h hne
  have hrow := List.all_eq_true.1 htable a (mem_typed_of_mem_outlines ho)
  have hentry := List.all_eq_true.1 hrow o ho
  obtain ⟨d, hd, hstructural⟩ := (Option.any_eq_true _ _).1 hentry
  exact firstMark_of_escape_eq hsplit (hfits.firstMark_eq hd) (List.contains_iff_mem.1 hstructural)

theorem eq_number_of_recognises_escape (h : a.recognises (Escape.escape cs) = true) :
    a = .number :=
  eq_number_of_escape_eq (List.append_nil _).symm h

theorem isNumber_of_ofText_escape (h : ofText (Escape.escape cs) ≠ .string) :
    isNumber (Escape.escape cs) = true := by
  have hrecognises := recognises_of_ofText rfl h
  rwa [eq_number_of_recognises_escape hrecognises] at hrecognises

/-- An escaped text that is a number has no sign. -/
theorem isDigit_or_eq_of_isNumber_escape (h : isNumber (Escape.escape cs) = true) :
    ∀ c ∈ Escape.escape cs, isDigit c = true ∨ c = '.' := by
  obtain ⟨unsigned, heq | heq, hall⟩ := exists_unsigned_of_isNumber h
  · rwa [heq]
  · have hsign : firstMark (Escape.escape cs) = some '-' := by rw [heq]; rfl
    exact absurd (by decide) (firstMark_of_escape_eq (List.append_nil _).symm hsign)

end Shape

namespace Literal

variable {cs : List Char} {s : String}

theorem mem_of_isDigit_or_eq {c : Char} (h : isDigit c = true ∨ c = '.') :
    c ∈ ['.', '0', '1', '2', '3', '4', '5', '6', '7', '8', '9'] := by
  rcases h with hdigit | rfl
  · exact List.mem_cons_of_mem _ (mem_of_isDigit hdigit)
  · exact List.mem_cons_self

theorem holds_of_numeral (h : ∀ c ∈ cs, isDigit c = true ∨ c = '.') : Holds cs := by
  have hall {c : Char} (hc : c ∈ cs) :
      c ≠ '"' ∧ c ≠ '\x00' ∧ isBlank c = false ∧ lowerAscii c ≠ 'e' := by
    have htable : (['.', '0', '1', '2', '3', '4', '5', '6', '7', '8', '9'].all fun d =>
        d != '"' && (d != '\x00' && (!isBlank d && lowerAscii d != 'e'))) = true := by decide
    simpa using List.all_eq_true.1 htable c (mem_of_isDigit_or_eq (h c hc))
  have hword {word : List Char} (he : 'e' ∈ word) : cs.map lowerAscii ≠ word := by
    rintro rfl
    obtain ⟨c, hc, hlower⟩ := List.mem_map.1 he
    exact (hall hc).2.2.2 hlower
  refine ⟨fun hquote => (hall hquote).1 rfl, fun hnull => (hall hnull).2.1 rfl, ?_, ?_,
    hword (by decide), hword (by decide)⟩
  · intro c hc hblank
    rw [(hall hc).2.2.1] at hblank
    cases hblank
  · intro hlast
    exact absurd (hall (List.mem_of_getLast? hlast)).2.2.1 (by decide)

/-- A string that is written in quotes is empty or a number without a sign. -/
theorem expressible_of_quoted (h : readsAsString (Escape.escape cs) = false) :
    Expressible cs := by
  have hnumeral : ∀ c ∈ Escape.escape cs, isDigit c = true ∨ c = '.' := by
    by_cases hnil : Escape.escape cs = []
    · simp [hnil]
    · refine Shape.isDigit_or_eq_of_isNumber_escape (Shape.isNumber_of_ofText_escape ?_)
      intro hshape
      simp [readsAsString, hnil, hshape] at h
  have hmark : Escape.mark ∉ Escape.escape cs := fun hmem => absurd (hnumeral _ hmem) (by decide)
  rw [Escape.escape_eq_of_not_mem hmark] at hnumeral
  exact (holds_of_numeral hnumeral).expressible

/-! ## Strings that come back -/

/-- A character that escaping and resolving leave alone: a quote or a blank. -/
def isKept (c : Char) : Bool := c == '"' || isBlank c

theorem count_resolve_of_isKept {c : Char} (hc : isKept c = true) (ds : List Char) :
    (Escape.resolve ds).count c = ds.count c ∧ (Escape.escape ds).count c = ds.count c := by
  have hne {d : Char} (hd : isKept d = false) : c ≠ d := by
    rintro rfl
    rw [hc] at hd
    cases hd
  have hmark : c ≠ Escape.mark := hne (by decide)
  have hplace : c ∉ Escape.placeholder := by
    intro hmem
    have hall : (Escape.placeholder.all fun d => !isKept d) = true := by decide
    have hnot := List.all_eq_true.1 hall c hmem
    rw [hc] at hnot
    cases hnot
  have hwild : Escape.isWildcard c = false := by
    simp [Escape.isWildcard, hne (by decide : isKept '*' = false),
      hne (by decide : isKept '?' = false)]
  exact ⟨Escape.count_resolve_of_not_isWildcard hmark hplace hwild ds,
    Escape.count_escape hmark hwild ds⟩

/-- Of an escaped text with one token, which denotes the string, that token is the whole. -/
theorem token_eq_of_denotes {t : Token} {gap last : List Char} (hgap : gap.all isBlank = true)
    (hlast : last.all isBlank = true)
    (htext : Escape.escape s.toList = gap ++ (t.spelling ++ last))
    (hvalue : Condition.Denotes zones .eq t (.string s)) :
    t = .literal (String.ofList (Escape.escape s.toList)) false ∧
      trim (Escape.escape s.toList) = Escape.escape s.toList := by
  obtain @⟨raw, quoted, _, hcoerce⟩ := hvalue
  have hresolve : s.toList = Escape.resolve (trim raw.toList) := by
    have h := toList_of_coerce_eq hcoerce
    rwa [if_neg (by decide)] at h
  -- What is resolved has as many of each as the whole text.
  have hcount {c : Char} (hc : isKept c = true) : (trim raw.toList).count c =
      gap.count c + ((Token.literal raw quoted).spelling.count c + last.count c) := by
    rw [← (count_resolve_of_isKept hc _).1, ← hresolve, ← (count_resolve_of_isKept hc _).2, htext,
      List.count_append, List.count_append]
  have hle (c : Char) : (trim raw.toList).count c ≤ raw.toList.count c :=
    (trim_sublist raw.toList).count_le c
  have hquoted : quoted = false := by
    by_contra hquoted
    rw [Bool.not_eq_false] at hquoted
    have hquote := hcount (c := '"') (by decide)
    have hmore := hle '"'
    simp only [hquoted, Token.spelling, List.count_cons_self, List.count_append] at hquote
    omega
  subst hquoted
  have hspelling : (Token.literal raw false).spelling = raw.toList := rfl
  rw [hspelling] at hcount htext
  have hblank {c : Char} (hc : isBlank c = true) : isKept c = true := by simp [isKept, hc]
  have hnil {ds : List Char} (hds : ds.all isBlank = true)
      (hzero : ∀ c, isBlank c = true → ds.count c = 0) : ds = [] := by
    rw [List.eq_nil_iff_forall_not_mem]
    intro c hc
    have hpos := List.count_pos_iff.2 hc
    rw [hzero c (List.all_eq_true.1 hds c hc)] at hpos
    exact absurd hpos (by decide)
  -- A blank in a gap or lost by trimming would be missing.
  have hsum {c : Char} (hc : isBlank c = true) :
      gap.count c = 0 ∧ last.count c = 0 ∧ raw.toList.count c ≤ (trim raw.toList).count c := by
    have hwhole := hcount (hblank hc)
    have hpart := hle c
    omega
  have hgap' : gap = [] := hnil hgap fun c hc => (hsum hc).1
  have hlast' : last = [] := hnil hlast fun c hc => (hsum hc).2.1
  have hraw : Escape.escape s.toList = raw.toList := by simpa [hgap', hlast'] using htext
  have htrim : trim raw.toList = raw.toList := trim_eq_self_of_count fun c hc => (hsum hc).2.2
  exact ⟨by rw [hraw, String.ofList_toList], by rw [hraw, htrim]⟩

/-- A string whose bare escaped text is one token that denotes it. -/
theorem expressible_of_scan {offset : Nat} {found : List Lexeme} {t : Token}
    (hscan : Token.scan offset (Escape.escape s.toList) = .ok found)
    (htoken : found.map Lexeme.token = [t]) (hvalue : Condition.Denotes zones .eq t (.string s)) :
    Expressible s.toList := by
  obtain ⟨row, last, hlast, htext, hplaced⟩ := Token.exists_spaced_of_scan hscan
  rw [hplaced, Token.map_token_placed] at htoken
  obtain ⟨spaced, rfl, rfl⟩ : ∃ spaced, row = [spaced] ∧ spaced.token = t := by
    simpa [List.map_eq_singleton_iff] using htoken
  rw [Token.spacedText_cons, Token.spacedText_nil] at htext
  obtain ⟨heq, htrim⟩ := token_eq_of_denotes spaced.blank hlast htext hvalue
  have hbare : Token.IsBare (Escape.escape s.toList) := by
    refine Token.isBare_of_scan htrim hscan ?_
    rw [hplaced, Token.map_token_placed, ← heq]
    rfl
  obtain ⟨hquote, hspace⟩ := Token.not_mem_of_bareRun_escape hbare.bareRun
  rw [heq] at hvalue
  obtain ⟨hcoerce⟩ := hvalue
  rw [String.toList_ofList, htrim] at hcoerce
  obtain ⟨htrue, hfalse, hresolve⟩ :=
    stringOrBoolean_eq_string_iff.1 (stringOrBoolean_of_coerce_eq hcoerce)
  rw [if_neg (by decide)] at hresolve
  refine ⟨hquote, (Escape.resolve_escape_iff _).1 hresolve.symm, hspace, fun hend => ?_,
    (map_lowerAscii_escape_iff (by decide)).not.1 htrue,
    (map_lowerAscii_escape_iff (by decide)).not.1 hfalse⟩
  -- A space at the end would have been trimmed.
  rw [← Escape.getLast?_escape] at hend
  obtain ⟨front, hfront⟩ := List.getLast?_eq_some_iff.1 hend
  rw [hfront] at htrim
  have hshort := (@trim_sublist_of_isBlank front ' ' isBlank_space).length_le
  rw [htrim, List.length_append, List.length_singleton] at hshort
  omega

end Literal

/-! ## Comparisons with strings -/

namespace Condition

variable {field : String} {op : Operator} {rest : List Char} {offset : Nat} {found : List Lexeme}

/-- The tokens of a comparison are its field, its operator and those of the rest. -/
theorem exists_scan_of_comparison (hfield : Token.IsBare field.toList)
    (h : Token.scan offset (field.toList ++ (op.token.toList ++ rest)) = .ok found) :
    ∃ offset' behind, Token.scan offset' rest = .ok behind ∧
      found.map Lexeme.token =
        .literal field false :: .operator op.token :: behind.map Lexeme.token := by
  obtain ⟨c, tail, htail, hblank, hread⟩ :=
    hfield.readToken_append (@Token.endsLiteral_operator_token rest op)
  rw [htail, Token.scan_cons_eq_ok_iff hblank hread] at h
  obtain ⟨behind, hbehind, rfl⟩ := h
  obtain ⟨tail, htail, hread⟩ := Token.readToken_operator_token op rest
  rw [htail, Token.scan_cons_eq_ok_iff (by decide) hread] at hbehind
  obtain ⟨behind, hbehind, rfl⟩ := hbehind
  exact ⟨_, behind, hbehind, by simp⟩

/-- A row that starts with a literal and is a comparison ends with the token of its value. -/
theorem Derives.exists_value {n : Nat} {raw : String} {quoted : Bool} {row behind : List Token}
    {v : Value} (h : Derives zones .expression n row (.simple field op (some v)))
    (hrow : row = .literal raw quoted :: behind) :
    ∃ t, behind = [.operator op.token, t] ∧ Denotes zones op t v := by
  cases h with
  | term h =>
    cases h with
    | parentheses _ => cases hrow
    | comparison _ _ _ hvalue =>
      cases hrow
      exact ⟨_, rfl, hvalue⟩

/-- The text of a comparison with a string. -/
def stringText (field s : String) : List Char :=
  field.toList ++ Operator.eq.token.toList ++ (Value.string s).literalText

/-- The text behind the operator of a comparison is one token that denotes the value. -/
theorem exists_token_of_parse {limits : Limits} {v : Value} (hfield : IsField field)
    (h : parse limits (String.ofList (field.toList ++ (op.token.toList ++ rest))) zones =
      .ok (.simple field op (some v))) :
    ∃ offset found t, Token.scan offset rest = .ok found ∧ found.map Lexeme.token = [t] ∧
      Denotes zones op t v := by
  obtain ⟨found, n, hfound, -, hderives⟩ := exists_derives_of_parse h
  rw [String.toList_ofList, Token.lexemes_eq_ok_iff] at hfound
  obtain ⟨offset, behind, hscan, hrow⟩ := exists_scan_of_comparison hfield.isBare hfound
  obtain ⟨t, htoken, hvalue⟩ := hderives.exists_value hrow
  exact ⟨offset, behind, t, hscan, (List.cons.inj htoken).2, hvalue⟩

theorem expressible_of_parse {limits : Limits} {s : String} (hfield : IsField field)
    (h : parse limits (String.ofList (stringText field s)) zones =
      .ok (.simple field .eq (some (.string s)))) : Literal.Expressible s.toList := by
  by_cases hbare : Literal.readsAsString (Escape.escape s.toList) = true
  · have htext : (Value.string s).literalText = Escape.escape s.toList := if_pos hbare
    rw [stringText, htext, List.append_assoc] at h
    obtain ⟨offset, found, t, hscan, htoken, hvalue⟩ := exists_token_of_parse hfield h
    exact Literal.expressible_of_scan hscan htoken hvalue
  · exact Literal.expressible_of_quoted (by simpa using hbare)

theorem parse_of_expressible {limits : Limits} {s : String} (hfield : IsField field)
    (hlength : byteSize (stringText field s) ≤ limits.maxLength)
    (h : Literal.Expressible s.toList) :
    parse limits (String.ofList (stringText field s)) zones =
      .ok (.simple field .eq (some (.string s))) := by
  have htext : stringText field s = (simple field .eq (some (.string s))).compactText := by
    simp [stringText, compactText, pieces, Piece.compact]
  have hvalue : Denotes zones .eq (Value.string s).token (.string s) := by
    refine .intro ?_
    rw [String.toList_ofList]
    exact Literal.coerce_escape h (by simp)
  have hderives := Derives.comparison field false rfl hvalue
  rw [hfield.2.1] at hderives
  rw [htext] at hlength ⊢
  refine parse_compactText_of_derives ?_ ?_ (.term hderives) hlength (Nat.zero_le _)
  · simpa [fields] using hfield
  · simpa [values] using ⟨h.no_quote, h.eq_space⟩

/-- **The strings that their texts denote.** A comparison with the text of a string is parsed as the
comparison with that string, if and only if the string has no quotes, no blanks but spaces and none
of these at its end, does not hold the placeholder, and is not one of the two booleans in any
case. -/
theorem parse_stringText_eq_ok_iff {limits : Limits} {s : String} (hfield : IsField field)
    (hlength : byteSize (stringText field s) ≤ limits.maxLength) :
    parse limits (String.ofList (stringText field s)) zones =
      .ok (.simple field .eq (some (.string s))) ↔ Literal.Expressible s.toList :=
  ⟨expressible_of_parse hfield, parse_of_expressible hfield hlength⟩

/-- A space in front, a price in parentheses, three wildcards and a time behind them. -/
theorem parse_stringText_price :
    let s := " ($5) **?at 12:30-"
    IsField "f" ∧ String.ofList (stringText "f" s) = "f$eq:$ $($$5$)$ $*?at$ 12$:30$-" ∧
      byteSize (stringText "f" s) ≤ ({} : Limits).maxLength ∧ Literal.Expressible s.toList ∧
      parse {} (String.ofList (stringText "f" s)) = .ok (.simple "f" .eq (some (.string s))) := by
  intro s
  have hfield : IsField "f" := ⟨by decide, by decide, by decide +kernel⟩
  have hlength : byteSize (stringText "f" s) ≤ ({} : Limits).maxLength := by decide +kernel
  have hblank : (s.toList.all fun c => !isBlank c || c == ' ') = true := by decide
  have hs : Literal.Expressible s.toList :=
    ⟨by decide, by decide, by simpa [imp_iff_not_or] using hblank, by decide, by decide, by decide⟩
  exact ⟨hfield, by decide +kernel, hlength, hs, (parse_stringText_eq_ok_iff hfield hlength).2 hs⟩

/-- A tab has no escape: the quoted text holds it, and the bare text that is written for the string
ends there. -/
theorem parse_stringText_ne_of_tab :
    parse {} "f$eq:\"a\tb\"" = .ok (.simple "f" .eq (some (.string "a\tb"))) ∧
      String.ofList (stringText "f" "a\tb") = "f$eq:a\tb" ∧ IsField "f" ∧
      byteSize (stringText "f" "a\tb") ≤ ({} : Limits).maxLength ∧
      parse {} (String.ofList (stringText "f" "a\tb")) ≠
        .ok (.simple "f" .eq (some (.string "a\tb"))) := by
  have hfield : IsField "f" := ⟨by decide, by decide, by decide +kernel⟩
  have hlexemes : lexemes "f$eq:\"a\tb\"".toList = .ok [⟨.literal "f" false, 0, 1⟩,
      ⟨.operator "$eq:", 1, 5⟩, ⟨.literal "a\tb" true, 5, 10⟩] := by decide +kernel
  have hvalue : Denotes Zone.known .eq (.literal "a\tb" true) (.string "a\tb") :=
    .intro (by decide +kernel)
  have hderives : Derives Zone.known .expression 0 _ _ := .term (.comparison "f" false rfl hvalue)
  refine ⟨?_, by decide +kernel, hfield, by decide +kernel, fun hparse => ?_⟩
  · rw [parse_eq_filter (by decide) hlexemes]
    exact (Context.accepts_of_derives hderives _ (Nat.zero_le _)).filter rfl
  · have hspace := (expressible_of_parse hfield hparse).eq_space '\t' (by decide) (by decide)
    exact absurd hspace (by decide)

end Condition

end FilterQuery
