import FilterQuery.Proofs.Operands
import FilterQuery.Proofs.ValueText

set_option autoImplicit false

/-! # What a bare text stands for in a query

A bare literal that is read as a text goes through trimming and resolving before it becomes a
literal of the query. It should stand for what its signs denote, `Escape.decode`. Trimming takes the
space off an escape at the end, an escaped wildcard stays doubled, and `Escape.ReadOnce` excludes
the texts that are resolved twice; in all other cases the literal stands for what is denoted
(`Session.writes_decode_iff`). -/

namespace FilterQuery

open FilterQuery.Text

variable {zones : Zone.Database}

/-! ## Trimming -/

namespace Text

theorem trim_sublist (cs : List Char) : (trim cs).Sublist cs := by
  have hend := (List.dropWhile_sublist (l := (trimStart cs).reverse) isBlank).reverse
  rw [List.reverse_reverse] at hend
  exact hend.trans (List.dropWhile_sublist isBlank)

/-- Trimming takes a blank off the end. -/
theorem trim_sublist_of_isBlank {cs : List Char} {c : Char} (hc : isBlank c = true) :
    (trim (cs ++ [c])).Sublist cs := by
  rw [trim, trimStart, List.dropWhile_append]
  split
  · simp [hc, trimEnd]
  · rw [trimEnd, List.reverse_append, List.reverse_singleton, List.singleton_append,
      List.dropWhile_cons_of_pos hc]
    exact trim_sublist cs

end Text

namespace Escape

/-- A text of which nothing is trimmed and every sign is resolved once. -/
structure ReadAsWritten (cs : List Char) : Prop extends ReadOnce cs where
  getLast?_ne_space : cs.getLast? ≠ some ' '

/-- A bare literal, which is trimmed only if it ends in a space, is resolved to what it denotes
exactly if it is read as it is written and has no escaped wildcard. -/
theorem resolve_trim_eq_decode_iff {cs : List Char}
    (htrim : cs.getLast? ≠ some ' ' → trim cs = cs) :
    resolve (trim cs) = decode cs ↔
      ReadAsWritten cs ∧ ∀ s ∈ signs cs, s.isEscapedWildcard = false := by
  by_cases hspace : cs.getLast? = some ' '
  · refine iff_of_false (fun h => ?_) fun h => h.1.getLast?_ne_space hspace
    obtain ⟨front, rfl⟩ := List.getLast?_eq_some_iff.1 hspace
    -- The text denotes all its spaces, and the one at the end is trimmed.
    have hresolved := congrArg (List.count ' ') h
    rw [count_resolve_of_not_isWildcard (by decide) (by decide) (by decide),
      count_decode (by decide), List.count_append, List.count_singleton_self] at hresolved
    have hshorter := (@trim_sublist_of_isBlank front ' ' isBlank_space).count_le ' '
    omega
  · rw [htrim hspace, resolve_eq_decode_iff]
    exact ⟨fun h => ⟨⟨h.1, hspace⟩, h.2⟩, fun h => ⟨h.1.toReadOnce, h.2⟩⟩

end Escape

/-! ## Texts as literals of the query -/

namespace Literal

variable {cs : List Char} {op : Operator} {text : String}

/-- No literal of another shape is read as a text. -/
theorem stringOrBoolean_of_coerce_eq {quoted : Bool}
    (h : coerce zones cs quoted op = .ok (.string text)) :
    stringOrBoolean cs op = .string text := by
  have hshape : Shape.string = if quoted then .string else Shape.ofText cs := shape_of_coerce h
  unfold coerce at h
  rw [← hshape] at h
  exact Except.ok.inj h

/-- A literal that is read as a text is resolved; a pattern without wildcards is looked for
anywhere. -/
theorem toList_of_coerce_eq {quoted : Bool} (h : coerce zones cs quoted op = .ok (.string text)) :
    text.toList =
      if op = .like then Escape.containing (Escape.resolve cs) else Escape.resolve cs :=
  (stringOrBoolean_eq_string_iff.1 (stringOrBoolean_of_coerce_eq h)).2.2

end Literal

namespace Session

open Condition

variable {limits : Limits} {source raw text : String} {c : Condition} {row : List Lexeme}
  {s t : Session} {before after : List (Operator × Token)} {op : Operator}

theorem trim_of_operands (hrow : lexemes source.toList = .ok row)
    (hplace : operands none (row.map Lexeme.token) = before ++ (op, .literal raw false) :: after) :
    raw.toList.getLast? ≠ some ' ' → trim raw.toList = raw.toList := by
  have hmem : (op, Token.literal raw false) ∈ operands none (row.map Lexeme.token) := by
    simp [hplace]
  exact Token.trim_of_mem_lexemes hrow (mem_of_mem_operands hmem)

/-- A bare text is trimmed and resolved, and under `like` it is then read as a pattern. -/
theorem writes_bareText (hparse : parse limits source zones = .ok c)
    (hrow : lexemes source.toList = .ok row) (haccept : s.accept c = .ok t)
    (hplace : operands none (row.map Lexeme.token) = before ++ (op, .literal raw false) :: after)
    (htext : Literal.coerce zones (trim raw.toList) false op = .ok (.string text)) :
    Writes zones s t before after
      (if op = .like then likePattern (Escape.containing (Escape.resolve (trim raw.toList)))
        else Escape.resolve (trim raw.toList)) := by
  refine writes_of_parse hparse hrow haccept hplace ?_
  have hmem : (op, Token.literal raw false) ∈ operands none (row.map Lexeme.token) := by
    simp [hplace]
  rw [operandPayload?_text hmem htext, Literal.toList_of_coerce_eq htext]
  by_cases hop : op = .like <;> simp only [hop, if_true, if_false]

/-- **What an escape stands for outside patterns.** Wherever in a filter a bare text is compared
with or listed, the session writes one literal for it. That literal stands for what the text
denotes, with every escape for the character behind its mark, if and only if no wildcard in it is
escaped, no `$$` stands in front of a structural character without a mark, the placeholder does not
occur in it, and it does not end in an escaped space. -/
theorem writes_decode_iff (hparse : parse limits source zones = .ok c)
    (hrow : lexemes source.toList = .ok row) (haccept : s.accept c = .ok t)
    (hplace : operands none (row.map Lexeme.token) = before ++ (op, .literal raw false) :: after)
    (htext : Literal.coerce zones (trim raw.toList) false op = .ok (.string text))
    (hop : op ≠ .like) :
    ∃ written, Writes zones s t before after written ∧
      (written = Escape.decode raw.toList ↔
        Escape.ReadAsWritten raw.toList ∧
          ∀ sign ∈ Escape.signs raw.toList, sign.isEscapedWildcard = false) := by
  have hwrites := writes_bareText hparse hrow haccept hplace htext
  rw [if_neg hop] at hwrites
  exact ⟨_, hwrites, Escape.resolve_trim_eq_decode_iff (trim_of_operands hrow hplace)⟩

/-- A quote, a space and parentheses in a list on the members of a collection. -/
theorem writes_decode_inList : ∃ catalog s c row t,
    let source := "$having:employees(lastName$in:[O'Neil$ $(jr$),a$$b]$and:email$ne:x$-y)"
    Catalog.build Example.company = .ok catalog ∧ Session.start catalog "Department" = .ok s ∧
    parse {} source = .ok c ∧ lexemes source.toList = .ok row ∧ s.accept c = .ok t ∧
    operands none (row.map Lexeme.token) = [(.oneOf, .literal "O'Neil$ $(jr$)" false),
      (.oneOf, .literal "a$$b" false), (.ne, .literal "x$-y" false)] ∧
    Writes Zone.known s t [] [(.oneOf, .literal "a$$b" false), (.ne, .literal "x$-y" false)]
      "O'Neil (jr)".toList := by
  have hrun : (Example.accepted? "Department"
      "$having:employees(lastName$in:[O'Neil$ $(jr$),a$$b]$and:email$ne:x$-y)").isSome = true := by
    decide +kernel
  have hlexemes : lexemes
      "$having:employees(lastName$in:[O'Neil$ $(jr$),a$$b]$and:email$ne:x$-y)".toList =
      .ok [⟨.having, 0, 8⟩, ⟨.literal "employees" false, 8, 17⟩, ⟨.openParen, 17, 18⟩,
        ⟨.literal "lastName" false, 18, 26⟩, ⟨.operator "$in:", 26, 30⟩, ⟨.openBracket, 30, 31⟩,
        ⟨.literal "O'Neil$ $(jr$)" false, 31, 45⟩, ⟨.comma, 45, 46⟩,
        ⟨.literal "a$$b" false, 46, 50⟩, ⟨.closeBracket, 50, 51⟩, ⟨.operator "$and:", 51, 56⟩,
        ⟨.literal "email" false, 56, 61⟩, ⟨.operator "$ne:", 61, 65⟩,
        ⟨.literal "x$-y" false, 65, 69⟩, ⟨.closeParen, 69, 70⟩] := by decide +kernel
  obtain ⟨t, ht⟩ := Option.isSome_iff_exists.1 hrun
  obtain ⟨catalog, s, c, hcatalog, hs, hc, haccept⟩ := Example.exists_of_accepted? ht
  have htext : Literal.coerce Zone.known (trim "O'Neil$ $(jr$)".toList) false .oneOf =
      .ok (.string "O'Neil (jr)") := by decide +kernel
  obtain ⟨written, hwrites, hdecode⟩ :=
    @writes_decode_iff _ _ _ _ _ _ _ _ _ [] _ _ hc hlexemes haccept rfl htext (by decide)
  have hread : Escape.ReadAsWritten "O'Neil$ $(jr$)".toList :=
    ⟨⟨by decide, by decide⟩, by decide⟩
  rw [hdecode.2 ⟨hread, by decide⟩] at hwrites
  exact ⟨catalog, s, c, _, t, hcatalog, hs, hc, hlexemes, haccept, by decide, hwrites⟩

/-- An escaped wildcard is denoted once, and written twice. -/
theorem writes_escaped_wildcard_twice : ∃ catalog s c t,
    Catalog.build Example.company = .ok catalog ∧ Session.start catalog "Employee" = .ok s ∧
    parse {} "lastName$eq:a$*b" = .ok c ∧ s.accept c = .ok t ∧
    String.ofList t.whereText = "LOWER(em_0.lastName) = LOWER('a**b')" ∧
    Escape.decode "a$*b".toList = "a*b".toList := by
  have hrun : (Example.accepted? "Employee" "lastName$eq:a$*b").map
      (fun t => String.ofList t.whereText) = some "LOWER(em_0.lastName) = LOWER('a**b')" := by
    decide +kernel
  obtain ⟨t, ht, hwhere⟩ := Option.map_eq_some_iff.1 hrun
  obtain ⟨catalog, s, c, hcatalog, hs, hc, haccept⟩ := Example.exists_of_accepted? ht
  exact ⟨catalog, s, c, t, hcatalog, hs, hc, haccept, hwhere, by decide⟩

end Session

end FilterQuery
