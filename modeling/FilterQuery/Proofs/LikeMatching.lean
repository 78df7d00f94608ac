import FilterQuery.Proofs.LikePattern
import Mathlib.Data.List.SplitBy

set_option autoImplicit false

/-! # What a pattern matches

There are two readers of a text under `like`. The database reads its pattern: `%` stands for any
text, `_` for any one character, and a backslash takes the meaning off the character behind it
(`accepts`). The author of the filter goes by the runs of equal characters in the resolved text
(`Reads`): a wildcard alone stands for other characters, two and more of them for themselves, half
as often, and everything else for itself. Both accept the same subjects.

A run takes its piece of the subject whatever stands behind it (`accepts_runPattern_append`,
`reads_run_append`), so the two readers are compared run by run. -/

namespace FilterQuery.Like

open Escape

/-! ## The reader of the pattern -/

/-- The characters that have a meaning in a pattern. -/
def isReserved (c : Char) : Bool := c == '\\' || c == '%' || c == '_'

/-- Every backslash stands in front of a reserved character, and none at the end. -/
def isWellFormed : List Char → Bool
  | [] => true
  | c :: pattern =>
    if c = '\\' then
      match pattern with
      | [] => false
      | d :: pattern => isReserved d && isWellFormed pattern
    else isWellFormed pattern

/-- Whether the pattern matches the whole subject. A backslash at the end matches nothing. -/
def accepts : (pattern subject : List Char) → Bool
  | [], subject => subject.isEmpty
  | c :: pattern, subject =>
    if c = '%' then subject.tails.any (accepts pattern)
    else if c = '_' then !subject.isEmpty && accepts pattern subject.tail
    else if c = '\\' then
      match pattern with
      | [] => false
      | d :: pattern => subject.head? == some d && accepts pattern subject.tail
    else subject.head? == some c && accepts pattern subject.tail

example : accepts "a\\%_%".toList "a%xyz".toList = true ∧
    accepts "%\\_".toList "ab".toList = false ∧ accepts "a\\".toList "a".toList = false := by decide

variable {c : Char} {n : Nat} {pattern subject rest cs : List Char}

theorem accepts_any : accepts ('%' :: pattern) subject = true ↔
    ∃ piece rest, subject = piece ++ rest ∧ accepts pattern rest = true := by
  have hany : accepts ('%' :: pattern) subject = subject.tails.any (accepts pattern) := by
    cases pattern <;> rfl
  rw [hany, List.any_eq_true]
  constructor
  · rintro ⟨rest, hmem, haccepts⟩
    obtain ⟨piece, rfl⟩ := (List.mem_tails _ _).1 hmem
    exact ⟨piece, rest, rfl, haccepts⟩
  · rintro ⟨piece, rest, rfl, haccepts⟩
    exact ⟨rest, (List.mem_tails _ _).2 (List.suffix_append piece rest), haccepts⟩

theorem accepts_one : accepts ('_' :: pattern) subject = true ↔
    ∃ d rest, subject = d :: rest ∧ accepts pattern rest = true := by
  cases pattern <;> cases subject <;> simp [accepts]

/-- A character that is escaped where it has to be matches itself. -/
theorem accepts_patternChar_append : accepts (patternChar c ++ pattern) subject = true ↔
    ∃ rest, subject = c :: rest ∧ accepts pattern rest = true := by
  have hhead : (subject.head? == some c && accepts pattern subject.tail) = true ↔
      ∃ rest, subject = c :: rest ∧ accepts pattern rest = true := by
    cases subject with
    | nil => simp
    | cons d rest => simp [and_assoc]
  unfold patternChar
  split
  · rwa [List.cons_append, List.singleton_append, accepts, if_neg (by decide), if_neg (by decide),
      if_pos rfl]
  · next hplain =>
    obtain ⟨⟨hbackslash, hpercent⟩, hunderscore⟩ : (c ≠ '\\' ∧ c ≠ '%') ∧ c ≠ '_' := by
      simpa using hplain
    rw [← hhead]
    cases pattern <;> simp [accepts, hbackslash, hpercent, hunderscore]

theorem accepts_chars_append : accepts (cs.flatMap patternChar ++ pattern) subject = true ↔
    ∃ rest, subject = cs ++ rest ∧ accepts pattern rest = true := by
  induction cs generalizing subject with
  | nil => simp
  | cons c cs ih =>
    rw [List.flatMap_cons, List.append_assoc, accepts_patternChar_append]
    constructor
    · rintro ⟨behind, rfl, hbehind⟩
      obtain ⟨rest, rfl, hrest⟩ := ih.1 hbehind
      exact ⟨rest, rfl, hrest⟩
    · rintro ⟨rest, rfl, hrest⟩
      exact ⟨cs ++ rest, rfl, ih.2 ⟨rest, rfl, hrest⟩⟩

theorem isWellFormed_patternChar_append :
    isWellFormed (patternChar c ++ pattern) = isWellFormed pattern := by
  unfold patternChar
  split
  · next hreserved =>
    have hc : isReserved c = true := by simpa [isReserved] using hreserved
    simp [isWellFormed, hc]
  · next hplain =>
    have hc : c ≠ '\\' := by
      rintro rfl
      exact hplain rfl
    cases pattern <;> simp [isWellFormed, hc]

theorem isWellFormed_chars_append :
    isWellFormed (cs.flatMap patternChar ++ pattern) = isWellFormed pattern := by
  induction cs with
  | nil => rfl
  | cons c cs ih => rw [List.flatMap_cons, List.append_assoc, isWellFormed_patternChar_append, ih]

/-! ## The reader of the text -/

/-- What a maximal run of equal characters matches. -/
inductive Covers : (run piece : List Char) → Prop
  | any (piece : List Char) : Covers ['*'] piece
  | one (c : Char) : Covers ['?'] [c]
  | wildcards {c : Char} {n : Nat} (hc : isWildcard c = true) (hn : 2 ≤ n) :
    Covers (List.replicate n c) (List.replicate ((n + 1) / 2) c)
  | other {run : List Char} (h : ∀ c ∈ run, isWildcard c = false) : Covers run run

variable {piece : List Char}

theorem covers_one_iff : Covers ['?'] piece ↔ ∃ d, piece = [d] := by
  constructor
  · intro h
    generalize hrun : ['?'] = run at h
    cases h with
    | any => cases hrun
    | one d => exact ⟨d, rfl⟩
    | @wildcards c n hc hn =>
      have hlength := congrArg List.length hrun
      rw [List.length_replicate] at hlength
      exact absurd hlength (by simp; omega)
    | other h =>
      subst hrun
      exact absurd (h '?' List.mem_cons_self) (by decide)
  · rintro ⟨d, rfl⟩
    exact .one d

theorem covers_wildcards_iff (hc : isWildcard c = true) (hn : 2 ≤ n) :
    Covers (List.replicate n c) piece ↔ piece = List.replicate ((n + 1) / 2) c := by
  constructor
  · intro h
    generalize hrun : List.replicate n c = run at h
    have hlength := congrArg List.length hrun
    rw [List.length_replicate] at hlength
    cases h with
    | any | one => exact absurd hlength (by simp; omega)
    | @wildcards d m hd hm =>
      obtain rfl : n = m := by simpa using hlength
      obtain ⟨-, hzero | rfl⟩ := List.replicate_inj.1 hrun
      · omega
      · rfl
    | other h =>
      subst hrun
      rw [h c (List.mem_replicate.2 ⟨by omega, rfl⟩)] at hc
      cases hc
  · rintro rfl
    exact .wildcards hc hn

theorem covers_other_iff (hc : isWildcard c = false) :
    Covers (List.replicate n c) piece ↔ piece = List.replicate n c := by
  constructor
  · intro h
    generalize hrun : List.replicate n c = run at h
    -- Every other run starts with a wildcard.
    have hmem : ∀ d ∈ run, isWildcard d = false := by
      subst hrun
      intro d hd
      rwa [List.eq_of_mem_replicate hd]
    cases h with
    | any => exact absurd (hmem '*' List.mem_cons_self) (by decide)
    | one => exact absurd (hmem '?' List.mem_cons_self) (by decide)
    | @wildcards d m hd hm =>
      rw [hmem d (List.mem_replicate.2 ⟨by omega, rfl⟩)] at hd
      cases hd
    | other h => rfl
  · rintro rfl
    exact .other fun d hd => by rwa [List.eq_of_mem_replicate hd]

/-- The subject falls into pieces, one for each maximal run of the text. -/
def Reads (text subject : List Char) : Prop :=
  ∃ pieces, subject = pieces.flatten ∧ List.Forall₂ Covers (text.splitBy (· == ·)) pieces

theorem reads_nil : Reads [] subject ↔ subject = [] := by
  constructor
  · rintro ⟨pieces, rfl, hpieces⟩
    cases hpieces
    rfl
  · rintro rfl
    exact ⟨[], rfl, .nil⟩

theorem splitBy_run_append (hn : n ≠ 0) (hrest : rest.head? ≠ some c) :
    (List.replicate n c ++ rest).splitBy (· == ·) =
      List.replicate n c :: rest.splitBy (· == ·) := by
  have hchain : (List.replicate n c).IsChain fun a b => (a == b) = true :=
    (List.isChain_replicate_of_rel n (beq_self_eq_true c))
  rw [List.splitBy_append, List.splitBy_of_isChain (by simpa using hn) hchain,
    List.singleton_append]
  intro a ha b hb
  obtain rfl := List.eq_of_mem_replicate (List.mem_of_getLast? ha)
  simpa using fun heq : a = b => hrest (heq ▸ hb)

/-- The first run takes a piece off the front of the subject. -/
theorem reads_run_append (hn : n ≠ 0) (hrest : rest.head? ≠ some c) :
    Reads (List.replicate n c ++ rest) subject ↔
      ∃ piece after, subject = piece ++ after ∧ Covers (List.replicate n c) piece ∧
        Reads rest after := by
  rw [Reads, splitBy_run_append hn hrest]
  constructor
  · rintro ⟨pieces, rfl, hpieces⟩
    obtain ⟨piece, behind, hpiece, hbehind, rfl⟩ := List.forall₂_cons_left_iff.1 hpieces
    exact ⟨piece, behind.flatten, rfl, hpiece, behind, rfl, hbehind⟩
  · rintro ⟨piece, _, rfl, hpiece, behind, rfl, hbehind⟩
    exact ⟨piece :: behind, rfl, .cons hpiece hbehind⟩

/-- Texts are made of maximal runs. -/
theorem maximalRun_induction {P : List Char → Prop} (nil : P [])
    (run : ∀ c n rest, n ≠ 0 → rest.head? ≠ some c → P rest → P (List.replicate n c ++ rest)) :
    ∀ text, P text
  | [] => nil
  | c :: text => by
    have hequal : text.takeWhile (· == c) = List.replicate (text.takeWhile (· == c)).length c := by
      refine List.eq_replicate_of_mem fun d hd => ?_
      simpa using List.mem_takeWhile_imp hd
    have hrest : (text.dropWhile (· == c)).head? ≠ some c := by
      intro heq
      simpa [heq] using List.head?_dropWhile_not (· == c) text
    have htext := run c _ _ (Nat.succ_ne_zero (text.takeWhile (· == c)).length) hrest
      (maximalRun_induction nil run (text.dropWhile (· == c)))
    rwa [List.replicate_succ, ← hequal, List.cons_append, List.takeWhile_append_dropWhile] at htext
termination_by text => text.length
decreasing_by exact Nat.lt_succ_of_le (length_dropWhile_le _ text)

/-! ## Run by run -/

/-- The pattern of a maximal run. -/
def runPattern (c : Char) (n : Nat) : List Char :=
  if isWildcard c then patternRow c n else (List.replicate n c).flatMap patternChar

theorem likePattern_run_append (hn : n ≠ 0) (hrest : rest.head? ≠ some c) :
    likePattern (List.replicate n c ++ rest) = runPattern c n ++ likePattern rest := by
  unfold runPattern
  split
  · next hc => exact likePattern_replicate_append hc hn hrest
  · next hc =>
    clear hn hrest
    induction n with
    | zero => rfl
    | succ n ih =>
      rw [List.replicate_succ, List.cons_append, likePattern, if_neg hc, ih, List.flatMap_cons,
        List.append_assoc]

/-- Wildcards that stand for themselves need no escape. -/
theorem flatMap_patternChar_replicate (hc : isWildcard c = true) :
    (List.replicate n c).flatMap patternChar = List.replicate n c := by
  induction n with
  | zero => rfl
  | succ n ih =>
    rw [List.replicate_succ, List.flatMap_cons, ih, patternChar_of_isWildcard hc,
      List.singleton_append]

/-- A wildcard alone has a wildcard for its pattern, and any other run the characters that it
stands for. -/
theorem runPattern_cases (hn : n ≠ 0) :
    (n = 1 ∧ c = '*' ∧ runPattern c n = ['%']) ∨ (n = 1 ∧ c = '?' ∧ runPattern c n = ['_']) ∨
      ∃ m, runPattern c n = (List.replicate m c).flatMap patternChar ∧
        ∀ piece, Covers (List.replicate n c) piece ↔ piece = List.replicate m c := by
  cases hc : isWildcard c with
  | false =>
    refine .inr (.inr ⟨n, ?_, fun piece => covers_other_iff hc⟩)
    rw [runPattern, hc]
    rfl
  | true =>
    by_cases hone : n = 1
    · subst hone
      rcases List.mem_pair.1 (mem_pair_of_isWildcard hc) with rfl | rfl
      · exact .inr (.inl ⟨rfl, rfl, rfl⟩)
      · exact .inl ⟨rfl, rfl, rfl⟩
    · refine .inr (.inr ⟨(n + 1) / 2, ?_, fun piece => covers_wildcards_iff hc (by omega)⟩)
      have hhalf : n / 2 + n % 2 = (n + 1) / 2 := by omega
      rw [runPattern, hc, if_pos rfl, patternRow, if_neg hone, hhalf,
        flatMap_patternChar_replicate hc]

theorem isWellFormed_runPattern_append (hn : n ≠ 0) :
    isWellFormed (runPattern c n ++ pattern) = isWellFormed pattern := by
  rcases @runPattern_cases c n hn with ⟨-, -, hpattern⟩ | ⟨-, -, hpattern⟩ | ⟨m, hpattern, -⟩
  · cases pattern <;> simp [hpattern, isWellFormed]
  · cases pattern <;> simp [hpattern, isWellFormed]
  · rw [hpattern, isWellFormed_chars_append]

/-- The pattern of a run takes the pieces off the subject that the run covers. -/
theorem accepts_runPattern_append (hn : n ≠ 0) :
    accepts (runPattern c n ++ pattern) subject = true ↔
      ∃ piece rest, subject = piece ++ rest ∧ Covers (List.replicate n c) piece ∧
        accepts pattern rest = true := by
  rcases @runPattern_cases c n hn with ⟨rfl, rfl, hpattern⟩ | ⟨rfl, rfl, hpattern⟩ |
    ⟨m, hpattern, hcovers⟩
  · rw [hpattern, List.singleton_append, accepts_any]
    have hany : ∀ piece, Covers (List.replicate 1 '*') piece := .any
    simp only [hany, true_and]
  · rw [hpattern, List.singleton_append, accepts_one]
    constructor
    · rintro ⟨d, rest, rfl, hrest⟩
      exact ⟨[d], rest, rfl, .one d, hrest⟩
    · rintro ⟨piece, rest, rfl, hpiece, hrest⟩
      obtain ⟨d, rfl⟩ := covers_one_iff.1 hpiece
      exact ⟨d, rest, rfl, hrest⟩
  · rw [hpattern, accepts_chars_append]
    simp [hcovers]

/-- **A text matches what its pattern matches.** The pattern of a resolved text is well formed, and
it matches the subjects that fall into pieces which the maximal runs of the text match. -/
theorem accepts_likePattern (text subject : List Char) :
    isWellFormed (likePattern text) = true ∧
      (accepts (likePattern text) subject = true ↔ Reads text subject) := by
  induction text using maximalRun_induction generalizing subject with
  | nil => simp [likePattern, isWellFormed, accepts, reads_nil]
  | run c n rest hn hrest ih =>
    rw [likePattern_run_append hn hrest, isWellFormed_runPattern_append hn,
      accepts_runPattern_append hn, reads_run_append hn hrest]
    exact ⟨(ih []).1, by simp only [(ih _).2]⟩

end FilterQuery.Like
