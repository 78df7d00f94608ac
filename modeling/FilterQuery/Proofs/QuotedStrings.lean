import FilterQuery.Proofs.DoubleText
import FilterQuery.Proofs.StringText

set_option autoImplicit false

/-! # The strings that are written in quotes

An escaped text passes the test for numbers or none. It is a number exactly if the string is a row
of digits, with a point between two of them or without one (`Shape.isNumber_escape`). These strings
and the empty one are written in quotes (`Value.literalText_string`), and they have to be: behind an
operator their bare text is a number or no token at all (`Condition.parse_bareText_ne_string`).

To a literal with the escaped text of any other string quotes make no difference
(`Literal.coerce_escape_bare`). To a comparison with it they do, if the string has a blank other
than the space: such a blank has no escape, and ends the bare literal. Of the strings that are kept
in quotes, these are all that the choice by shapes misses (`Condition.parse_bareText_eq_ok_iff`). -/

namespace FilterQuery

open FilterQuery.Text

variable {zones : Zone.Database}

/-- Text that starts with no blank is what is left of it by trimming, and blanks. -/
theorem Text.exists_eq_trim_append {cs : List Char} (h : ∀ c ∈ cs.head?, isBlank c = false) :
    ∃ blanks, cs = trim cs ++ blanks ∧ ∀ c ∈ blanks, isBlank c = true := by
  have hstart : trimStart cs = cs := by
    cases cs with
    | nil => rfl
    | cons c cs => exact List.dropWhile_cons_of_neg (by simp [h c rfl])
  refine ⟨(cs.reverse.takeWhile isBlank).reverse, ?_, fun c hc => ?_⟩
  · rw [trim, hstart, trimEnd, ← List.reverse_append, List.takeWhile_append_dropWhile,
      List.reverse_reverse]
  · exact List.mem_takeWhile_imp (List.mem_reverse.1 hc)

/-! ## Plain numerals -/

namespace Literal

variable {cs : List Char}

/-- Digits, with at most one point, which is neither the first character nor the last. -/
def isPlainNumeral (cs : List Char) : Bool :=
  !cs.isEmpty && cs.all (fun c => isDigit c || c == '.') && cs.count '.' ≤ 1 &&
    cs.head? != some '.' && cs.getLast? != some '.'

/-- The empty string and the plain numerals. -/
def takesQuotes (cs : List Char) : Bool := cs.isEmpty || isPlainNumeral cs

theorem isPlainNumeral_iff : isPlainNumeral cs = true ↔
    cs ≠ [] ∧ (∀ c ∈ cs, isDigit c = true ∨ c = '.') ∧ cs.count '.' ≤ 1 ∧
      cs.head? ≠ some '.' ∧ cs.getLast? ≠ some '.' := by
  simp [isPlainNumeral, and_assoc]

theorem allDigits_of_not_mem (hne : cs ≠ []) (hall : ∀ c ∈ cs, isDigit c = true ∨ c = '.')
    (hpoint : '.' ∉ cs) : allDigits cs = true := by
  have hdigits : cs.all isDigit = true := by
    refine List.all_eq_true.2 fun c hc => (hall c hc).resolve_right ?_
    rintro rfl
    exact hpoint hc
  simp [allDigits, hne, hdigits]

/-- A plain numeral is a numeral without a sign: its parts are what is in front of the point and
behind it. -/
theorem exists_numeral_of_isPlainNumeral (h : isPlainNumeral cs = true) :
    ∃ n : Numeral, n.negative = false ∧ n.text = cs := by
  obtain ⟨hne, hall, hcount, hhead, hlast⟩ := isPlainNumeral_iff.1 h
  by_cases hpoint : '.' ∈ cs
  · obtain ⟨whole, fraction, rfl⟩ := List.append_of_mem hpoint
    rw [List.count_append, List.count_cons_self] at hcount
    obtain ⟨hallWhole, hallFraction⟩ := List.forall_mem_append.1 hall
    have hwhole : allDigits whole = true := by
      refine allDigits_of_not_mem ?_ hallWhole (List.count_eq_zero.1 (by omega))
      rintro rfl
      exact hhead rfl
    have hfraction : allDigits fraction = true := by
      refine allDigits_of_not_mem ?_ (List.forall_mem_cons.1 hallFraction).2
        (List.count_eq_zero.1 (by omega))
      rintro rfl
      exact hlast (by simp)
    exact ⟨⟨false, whole, some fraction, hwhole, by simpa using hfraction⟩, rfl, rfl⟩
  · exact ⟨⟨false, cs, none, allDigits_of_not_mem hne hall hpoint, by simp⟩, rfl, rfl⟩

end Literal

theorem Numeral.isPlainNumeral_text {n : Numeral} (h : n.negative = false) :
    Literal.isPlainNumeral n.text = true := by
  have hrow {cs : List Char} (hcs : allDigits cs = true) :
      cs ≠ [] ∧ (∀ c ∈ cs, isDigit c = true) ∧ '.' ∉ cs := by
    have hdigits : ∀ c ∈ cs, isDigit c = true := fun _ => Shape.isDigit_of_allDigits hcs
    refine ⟨?_, hdigits, not_mem_of_isDigit hdigits (by decide)⟩
    rintro rfl
    cases hcs
  obtain ⟨hwhole, hdigits, hpoint⟩ := hrow n.allDigits_whole
  have hhead (rest : List Char) : (n.whole ++ rest).head? ≠ some '.' := by
    rw [List.head?_append_of_ne_nil _ hwhole]
    exact fun hmem => hpoint (List.mem_of_mem_head? hmem)
  rw [Literal.isPlainNumeral_iff]
  cases hfraction : n.fraction with
  | none =>
    have htext : n.text = n.whole := by rw [text, h, unsigned, hfraction]; rfl
    rw [htext]
    refine ⟨hwhole, fun c hc => .inl (hdigits c hc), ?_, ?_, ?_⟩
    · simp [List.count_eq_zero.2 hpoint]
    · simpa using hhead []
    · exact fun hmem => hpoint (List.mem_of_getLast? hmem)
  | some row =>
    have htext : n.text = n.whole ++ '.' :: row := by rw [text, h, unsigned, hfraction]; rfl
    obtain ⟨hne, hdigits', hpoint'⟩ := hrow (n.allDigits_fraction row hfraction)
    rw [htext]
    refine ⟨by simp, ?_, ?_, hhead _, ?_⟩
    · intro c hc
      rcases List.mem_append.1 hc with hc | hc
      · exact .inl (hdigits c hc)
      · exact (List.mem_cons.1 hc).symm.imp_left (hdigits' c)
    · simp [List.count_append, List.count_eq_zero.2 hpoint, List.count_eq_zero.2 hpoint']
    · rw [List.append_cons]
      exact getLast?_ne_of_not_mem hne hpoint'

/-! ## Shapes of escaped strings -/

namespace Shape

variable {cs : List Char}

theorem isNumber_escape (cs : List Char) :
    isNumber (Escape.escape cs) = Literal.isPlainNumeral cs := by
  rw [Bool.eq_iff_iff]
  constructor
  · intro h
    have hchars := isDigit_or_eq_of_isNumber_escape h
    have hself : Escape.escape cs = cs :=
      Escape.escape_eq_of_not_mem fun hmem => absurd (hchars _ hmem) (by decide)
    rw [hself] at h hchars
    obtain ⟨n, rfl⟩ := Numeral.exists_text_eq h
    refine n.isPlainNumeral_text ?_
    obtain ⟨-, htext⟩ | ⟨hsign, -⟩ := n.text_cases
    · rw [htext] at hchars
      exact absurd (hchars '-' List.mem_cons_self) (by decide)
    · exact hsign
  · intro h
    have htable : (['.', '0', '1', '2', '3', '4', '5', '6', '7', '8', '9'].all fun d =>
        !Escape.isEscapable d) = true := by decide
    have hself : Escape.escape cs = cs := by
      refine Escape.escape_eq_self fun c hc => ?_
      have hmem := Literal.mem_of_isDigit_or_eq ((Literal.isPlainNumeral_iff.1 h).2.1 c hc)
      simpa using List.all_eq_true.1 htable c hmem
    obtain ⟨n, -, rfl⟩ := Literal.exists_numeral_of_isPlainNumeral h
    rw [hself]
    exact n.isNumber_text

theorem ofText_escape (cs : List Char) :
    ofText (Escape.escape cs) = if Literal.isPlainNumeral cs then .number else .string := by
  rw [← isNumber_escape]
  split
  · next hnumber => exact ofText_of_recognises hnumber
  · next hnumber =>
    by_contra hshape
    exact hnumber (isNumber_of_ofText_escape hshape)

/-- Escaped text with no blanks but spaces loses at most one by trimming, and its mark stays. -/
theorem ofText_trim_escape (hspace : ∀ c ∈ cs, isBlank c = true → c = ' ')
    (h : Literal.isPlainNumeral cs = false) : ofText (trim (Escape.escape cs)) = .string := by
  obtain ⟨blanks, hsplit, hblanks⟩ :=
    exists_eq_trim_append (Escape.not_isBlank_head?_escape hspace)
  by_contra hshape
  have hnumber := recognises_of_ofText rfl hshape
  rw [eq_number_of_escape_eq hsplit hnumber] at hnumber
  have hmark : Escape.mark ∉ Escape.escape cs := by
    intro hmem
    rw [hsplit] at hmem
    rcases List.mem_append.1 hmem with hmem | hmem
    · obtain ⟨unsigned, heq | heq, hall⟩ := exists_unsigned_of_isNumber hnumber
      · exact absurd (hall _ (heq ▸ hmem)) (by decide)
      · rw [heq, List.mem_cons] at hmem
        exact absurd (hall _ (hmem.resolve_left (by decide))) (by decide)
    · exact absurd (hblanks _ hmem) (by decide)
  obtain rfl : blanks = [] := by
    by_contra hne
    obtain ⟨c, rest, rfl⟩ := List.exists_cons_of_ne_nil hne
    have hc : c ∈ cs := by
      rw [← Escape.escape_eq_of_not_mem hmark, hsplit]
      simp
    obtain rfl := hspace c hc (hblanks c List.mem_cons_self)
    have hfront := Escape.mark_mem_of_escape_eq (by decide) hsplit
    rw [hsplit] at hmark
    exact hmark (List.mem_append_left _ hfront)
  rw [List.append_nil] at hsplit
  rw [← hsplit] at hnumber
  have hnumeral : isNumber (Escape.escape cs) = true := hnumber
  rw [isNumber_escape, h] at hnumeral
  cases hnumeral

end Shape

namespace Literal

theorem readsAsString_escape (cs : List Char) :
    readsAsString (Escape.escape cs) = !takesQuotes cs := by
  have hempty : (Escape.escape cs).isEmpty = cs.isEmpty := by
    rw [Bool.eq_iff_iff, List.isEmpty_iff, List.isEmpty_iff]
    constructor
    · intro hnil
      have hself : Escape.escape cs = cs := Escape.escape_eq_of_not_mem (by simp [hnil])
      rw [← hself, hnil]
    · rintro rfl
      rfl
  rw [readsAsString, takesQuotes, Shape.ofText_escape, hempty]
  cases cs.isEmpty <;> cases isPlainNumeral cs <;> rfl

/-- The bare literal of a string that is no plain numeral denotes what the quoted one does. -/
theorem coerce_escape_bare {cs : List Char} (h : isPlainNumeral cs = false) (op : Operator) :
    coerce zones (Escape.escape cs) false op = coerce zones (Escape.escape cs) true op := by
  simp only [coerce, Shape.ofText_escape, h, Bool.false_eq_true, if_false, if_true]

end Literal

theorem Value.literalText_string (s : String) : (Value.string s).literalText =
    if Literal.takesQuotes s.toList then '"' :: (Escape.escape s.toList ++ ['"'])
      else Escape.escape s.toList := by
  simp only [literalText, Literal.readsAsString_escape]
  cases Literal.takesQuotes s.toList <;> rfl

/-! ## Comparisons with and without quotes -/

namespace Condition

variable {limits : Limits} {field s : String} {op : Operator}

/-- A comparison with the escaped text of a string. -/
def bareText (field : String) (op : Operator) (s : String) : List Char :=
  field.toList ++ (op.token.toList ++ Escape.escape s.toList)

/-- A comparison with the escaped text of a string in quotes. -/
def quotedText (field : String) (op : Operator) (s : String) : List Char :=
  field.toList ++ (op.token.toList ++ '"' :: (Escape.escape s.toList ++ ['"']))

theorem stringText_eq (field s : String) : stringText field s =
    if Literal.takesQuotes s.toList then quotedText field .eq s else bareText field .eq s := by
  rw [stringText, Value.literalText_string, List.append_assoc]
  split <;> rfl

theorem byteSize_bareText_le (field : String) (op : Operator) (s : String) :
    byteSize (bareText field op s) ≤ byteSize (quotedText field op s) := by
  simp only [bareText, quotedText, byteSize_append, byteSize]
  omega

theorem byteSize_le_of_parse {source : String} {c : Condition}
    (h : parse limits source zones = .ok c) :
    byteSize source.toList ≤ limits.maxLength := by
  simp only [parse] at h
  split at h
  · cases h
  · next hlength => exact Nat.not_lt.1 hlength

/-- No comparison with the bare text of a string that takes quotes is one with a string. -/
theorem parse_bareText_ne_string (hfield : IsField field)
    (h : Literal.takesQuotes s.toList = true) (op : Operator) (text : String) :
    parse limits (String.ofList (bareText field op s)) zones ≠
      .ok (.simple field op (some (.string text))) := by
  intro hparse
  obtain ⟨offset, found, t, hscan, htoken, hvalue⟩ := exists_token_of_parse hfield hparse
  rcases Bool.or_eq_true_iff.1 h with hempty | hnumeral
  · rw [List.isEmpty_iff.1 hempty, Escape.escape, Token.scan] at hscan
    cases hscan
    cases htoken
  · rw [← Shape.isNumber_escape] at hnumeral
    obtain ⟨n, hn⟩ := Numeral.exists_text_eq hnumeral
    obtain ⟨found', hscan', htokens⟩ := n.reads_text offset
    rw [← hn, hscan'] at hscan
    obtain rfl := Except.ok.inj hscan
    obtain rfl : Token.literal (String.ofList n.text) false = t := by
      simpa [htokens] using htoken
    obtain ⟨hcoerce⟩ := hvalue
    rw [String.toList_ofList, n.plainText.trim_eq] at hcoerce
    have hshape : Shape.string = Shape.ofText n.text := Literal.shape_of_coerce hcoerce
    rw [Shape.ofText_of_recognises (a := .number) n.isNumber_text] at hshape
    cases hshape

/-- The string of a comparison with a quoted text has no quotes itself: they would end it. -/
theorem not_mem_of_parse_quotedText (hfield : IsField field)
    (h : parse limits (String.ofList (quotedText field .eq s)) zones =
      .ok (.simple field .eq (some (.string s)))) : '"' ∉ s.toList := by
  intro hmem
  have hescaped : '"' ∈ Escape.escape s.toList := by
    rw [← List.count_pos_iff, (Literal.count_resolve_of_isKept (by decide) _).2]
    exact List.count_pos_iff.2 hmem
  obtain ⟨front, back, hsplit, hfront⟩ := List.eq_append_cons_of_mem hescaped
  obtain ⟨offset, found, t, hscan, htoken, hvalue⟩ := exists_token_of_parse hfield h
  rw [hsplit, List.append_assoc, List.cons_append,
    Token.scan_cons_eq_ok_iff (by decide) (Token.readToken_quoted hfront _)] at hscan
  obtain ⟨behind, -, rfl⟩ := hscan
  obtain ⟨rfl, -⟩ := List.cons.inj htoken
  obtain ⟨hcoerce⟩ := hvalue
  have hresolve := Literal.toList_of_coerce_eq hcoerce
  rw [if_neg (by decide), String.toList_ofList] at hresolve
  have hcount := (Literal.count_resolve_of_isKept (c := '"') (by decide) (trim front)).1
  rw [← hresolve] at hcount
  have hle := (trim_sublist front).count_le '"'
  rw [← hcount, List.count_eq_zero.2 hfront] at hle
  exact absurd (List.count_pos_iff.2 hmem) (by omega)

/-- A comparison with the bare text of any other string is the one with its quoted text, if the
string has neither quotes nor blanks but spaces. -/
theorem exists_parse_bareText_and_quotedText (hfield : IsField field) (hop : op.takesValue = true)
    (h : Literal.takesQuotes s.toList = false) (hquote : '"' ∉ s.toList)
    (hspace : ∀ c ∈ s.toList, isBlank c = true → c = ' ')
    (hlength : byteSize (quotedText field op s) ≤ limits.maxLength) :
    ∃ v, v.shape = .string ∧
      parse limits (String.ofList (bareText field op s)) zones = .ok (.simple field op (some v)) ∧
      parse limits (String.ofList (quotedText field op s)) zones =
        .ok (.simple field op (some v)) := by
  have hne : Escape.escape s.toList ≠ [] := by
    intro hnil
    have hreads := Literal.readsAsString_escape s.toList
    rw [hnil, h] at hreads
    cases hreads
  have hreads := ((Token.unbroken_escape hquote hspace).isBare hne).reads rfl Token.reads_nil
  rw [List.append_nil] at hreads
  have hquote' : '"' ∉ Escape.escape s.toList := fun hmem =>
    hquote (Escape.mem_of_mem_escape hmem (by decide))
  have hdenotes (quoted : Bool) : Denotes zones op
      (.literal (String.ofList (Escape.escape s.toList)) quoted)
      (Literal.stringOrBoolean (trim (Escape.escape s.toList)) op) := by
    refine .intro ?_
    rw [String.toList_ofList]
    cases quoted with
    | true => rfl
    | false => simp [Literal.coerce, Shape.ofText_trim_escape hspace (Bool.or_eq_false_iff.1 h).2]
  exact ⟨_, Literal.shape_stringOrBoolean _ op,
    parse_comparison_of_reads hfield hop hreads (hdenotes false)
      ((byteSize_bareText_le field op s).trans hlength),
    parse_comparison_of_reads hfield hop (Token.reads_quoted hquote' Token.reads_nil)
      (hdenotes true) hlength⟩

/-- A string that is kept in quotes is kept without them, if and only if it takes none and has no
blanks but spaces. -/
theorem parse_bareText_eq_ok_iff (hfield : IsField field)
    (hquoted : parse limits (String.ofList (quotedText field .eq s)) zones =
      .ok (.simple field .eq (some (.string s)))) :
    parse limits (String.ofList (bareText field .eq s)) zones =
        .ok (.simple field .eq (some (.string s))) ↔
      Literal.takesQuotes s.toList = false ∧ ∀ c ∈ s.toList, isBlank c = true → c = ' ' := by
  constructor
  · intro hbare
    obtain ⟨offset, found, t, hscan, htoken, hvalue⟩ := exists_token_of_parse hfield hbare
    refine ⟨?_, (Literal.expressible_of_scan hscan htoken hvalue).eq_space⟩
    by_contra htakes
    exact parse_bareText_ne_string hfield (by simpa using htakes) .eq s hbare
  · rintro ⟨htakes, hspace⟩
    have hlength := byteSize_le_of_parse hquoted
    rw [String.toList_ofList] at hlength
    obtain ⟨v, -, hbare, hsame⟩ := exists_parse_bareText_and_quotedText hfield rfl htakes
      (not_mem_of_parse_quotedText hfield hquoted) hspace hlength
    rw [hquoted] at hsame
    cases hsame
    exact hbare

end Condition

namespace Literal

open Condition (IsField parse bareText quotedText)

/-- **The shapes of literals exclude each other, and quotes are chosen by shape.** A text passes at
most one of the six tests. In whatever order they are made, the first one passed is that of its
shape, and a bare literal denotes values of this shape only. An escaped text passes no test but that
for numbers, and this one if the string is a plain numeral. A string is written in quotes if it is
empty or a plain numeral, and bare otherwise. Without its quotes, no comparison with the former is
one with a string; with them it is one with that string. To a literal with the text of the latter
quotes make no difference, nor do they to a comparison, if the string has neither quotes nor blanks
but spaces. Of all strings that are kept in quotes, the others are kept bare, except those with a
blank that is no space. -/
theorem recognises_unique_and_parse_bareText_iff (zones : Zone.Database) (cs : List Char)
    (s : String) :
    (∀ a b : Shape, a.recognises cs = true → b.recognises cs = true → a = b) ∧
    (∀ shapes : List Shape, shapes.Perm Shape.typed →
      Shape.firstOf shapes cs = Shape.ofText cs ∧
        ∀ op v, coerce zones cs false op = .ok v → v.shape = Shape.firstOf shapes cs) ∧
    (∀ a : Shape, a.recognises (Escape.escape s.toList) = true →
      a = .number ∧ isPlainNumeral s.toList = true) ∧
    ((Value.string s).literalText =
      if takesQuotes s.toList then '"' :: (Escape.escape s.toList ++ ['"'])
        else Escape.escape s.toList) ∧
    (takesQuotes s.toList = true → ∀ limits field, IsField field →
      (∀ op text, parse limits (String.ofList (bareText field op s)) zones ≠
        .ok (.simple field op (some (.string text)))) ∧
      (byteSize (quotedText field .eq s) ≤ limits.maxLength →
        parse limits (String.ofList (quotedText field .eq s)) zones =
          .ok (.simple field .eq (some (.string s))))) ∧
    (takesQuotes s.toList = false →
      (∀ op, coerce zones (Escape.escape s.toList) false op =
        coerce zones (Escape.escape s.toList) true op) ∧
      ('"' ∉ s.toList → (∀ c ∈ s.toList, isBlank c = true → c = ' ') →
        ∀ limits field op, IsField field → op.takesValue = true →
        byteSize (quotedText field op s) ≤ limits.maxLength →
        ∃ v, v.shape = .string ∧
          parse limits (String.ofList (bareText field op s)) zones =
            .ok (.simple field op (some v)) ∧
          parse limits (String.ofList (quotedText field op s)) zones =
            .ok (.simple field op (some v)))) ∧
    (∀ limits field, IsField field →
      parse limits (String.ofList (quotedText field .eq s)) zones =
        .ok (.simple field .eq (some (.string s))) →
      (parse limits (String.ofList (bareText field .eq s)) zones =
          .ok (.simple field .eq (some (.string s))) ↔
        takesQuotes s.toList = false ∧ ∀ c ∈ s.toList, isBlank c = true → c = ' ')) := by
  refine ⟨fun a b => Shape.eq_of_recognises, ?_, ?_, Value.literalText_string s, ?_, ?_,
    fun limits field => Condition.parse_bareText_eq_ok_iff⟩
  · intro shapes hperm
    have hfirst : Shape.firstOf shapes cs = Shape.ofText cs :=
      (Shape.firstOf_perm hperm cs).trans (Shape.firstOf_typed cs)
    refine ⟨hfirst, fun op v hcoerce => ?_⟩
    rw [hfirst]
    exact shape_of_coerce hcoerce
  · intro a ha
    obtain rfl := Shape.eq_number_of_recognises_escape ha
    exact ⟨rfl, Shape.isNumber_escape s.toList ▸ ha⟩
  · intro h limits field hfield
    refine ⟨Condition.parse_bareText_ne_string hfield h, fun hlength => ?_⟩
    have htext : Condition.stringText field s = quotedText field .eq s := by
      rw [Condition.stringText_eq, if_pos h]
    rw [← htext] at hlength ⊢
    refine Condition.parse_of_expressible hfield hlength (expressible_of_quoted ?_)
    rw [readsAsString_escape, h]
    rfl
  · intro h
    refine ⟨coerce_escape_bare (Bool.or_eq_false_iff.1 h).2, ?_⟩
    intro hquote hspace limits field op hfield hop hlength
    exact Condition.exists_parse_bareText_and_quotedText hfield hop h hquote hspace hlength

/-- A text of each shape. The tests made in reverse find the year, the number is quoted, and the
escaped year is a string with quotes and without. -/
theorem recognises_unique_year_and_price :
    (Shape.typed.zip ["-3.5", "2023-11-02T1é", "2023-12-01", "08:30:15.250", "1995-",
      "--02-29"]).all (fun sample => sample.1.recognises sample.2.toList) = true ∧
    Shape.firstOf Shape.typed.reverse "1995-".toList = .year ∧
    (Value.string "12.5").literalText = "\"12.5\"".toList ∧
    (∀ op text, parse {} (String.ofList (bareText "f" op "12.5")) ≠
      .ok (.simple "f" op (some (.string text)))) ∧
    parse {} "f$eq:\"12.5\"" = .ok (.simple "f" .eq (some (.string "12.5"))) ∧
    ∃ v, v.shape = .string ∧
      parse {} "f$gt:1995$-" = .ok (.simple "f" .gt (some v)) ∧
      parse {} "f$gt:\"1995$-\"" = .ok (.simple "f" .gt (some v)) := by
  have hfield : IsField "f" := ⟨by decide, by decide, by decide +kernel⟩
  obtain ⟨-, horder, -, htext, hprice, -⟩ :=
    recognises_unique_and_parse_bareText_iff Zone.known "1995-".toList "12.5"
  obtain ⟨-, -, -, -, -, hyear, -⟩ :=
    recognises_unique_and_parse_bareText_iff Zone.known [] "1995-"
  obtain ⟨hbarePrice, hquotedPrice⟩ := hprice (by decide +kernel) {} "f" hfield
  have hall : ("1995-".toList.all fun c => !isBlank c || c == ' ') = true := by decide
  have hspace : ∀ c ∈ "1995-".toList, isBlank c = true → c = ' ' := by
    intro c hc hblank
    simpa [hblank] using List.all_eq_true.1 hall c hc
  refine ⟨by decide +kernel, ?_, htext.trans (by decide +kernel), hbarePrice, ?_, ?_⟩
  · exact (horder _ (List.reverse_perm _)).1.trans (by decide +kernel)
  · exact hquotedPrice (by decide +kernel)
  · exact (hyear (by decide +kernel)).2 (by decide) hspace {} "f" .gt hfield rfl (by decide +kernel)

/-- A string with a tab is neither empty nor a numeral, and is written bare. It is kept in quotes
only: without them the literal ends at the tab. -/
theorem parse_bareText_ne_of_tab :
    takesQuotes "a\tb".toList = false ∧ (Value.string "a\tb").literalText = "a\tb".toList ∧
    parse {} "f$eq:\"a\tb\"" = .ok (.simple "f" .eq (some (.string "a\tb"))) ∧
    ∀ text, parse {} "f$eq:a\tb" ≠ .ok (.simple "f" .eq (some (.string text))) := by
  have hfield : IsField "f" := ⟨by decide, by decide, by decide +kernel⟩
  have hquoted : String.ofList (quotedText "f" .eq "a\tb") = "f$eq:\"a\tb\"" := by decide +kernel
  have hlexemes : lexemes "f$eq:a\tb".toList = .ok [⟨.literal "f" false, 0, 1⟩,
      ⟨.operator "$eq:", 1, 5⟩, ⟨.literal "a" false, 5, 6⟩, ⟨.literal "b" false, 7, 8⟩] := by
    decide +kernel
  refine ⟨by decide +kernel, by decide +kernel, ?_, fun text hparse => ?_⟩
  · have hvalue : Condition.Denotes Zone.known .eq
        (.literal (String.ofList (Escape.escape "a\tb".toList)) true) (.string "a\tb") :=
      .intro (by decide +kernel)
    rw [← hquoted]
    exact Condition.parse_comparison_of_reads hfield rfl
      (Token.reads_quoted (by decide +kernel) Token.reads_nil) hvalue (by decide +kernel)
  · obtain ⟨row, n, hrow, -, hderives⟩ := Condition.exists_derives_of_parse hparse
    rw [hlexemes] at hrow
    cases hrow
    obtain ⟨t, htoken, -⟩ := hderives.exists_value rfl
    cases htoken

end Literal

end FilterQuery
