import FilterQuery.Proofs.Layout
import FilterQuery.Proofs.Parse

set_option autoImplicit false

/-! # Parsing undoes compact printing

`Printable` are the conditions that the syntax of filters can express: their fields are bare
literals, their values are writable, and their groups have two members. The tokens of such a
condition derive it, nested as deep as the condition is, so that the grammar gives the result of the
parser on its compact text.

The derived condition is the one that the text shows. It is the condition itself exactly if every
leap second in it ends its minute. -/

namespace FilterQuery

open FilterQuery.Text

variable {zones : Zone.Database}

/-- A leap second in the value ends its minute. -/
def Value.leapEndsMinute : Value → Bool
  | .time t => t.leapEndsMinute
  | .dateTime dt => dt.time.leapEndsMinute
  | .instant i => i.utc.time.leapEndsMinute
  | _ => true

theorem Value.shown_eq_self_iff (v : Value) : v.shown = v ↔ v.leapEndsMinute = true := by
  cases v with
  | time t => simpa [shown, leapEndsMinute] using t.shown_eq_self_iff
  | dateTime dt =>
    obtain ⟨date, time⟩ := dt
    simpa [shown, leapEndsMinute, LocalDateTime.shown] using time.shown_eq_self_iff
  | instant i =>
    obtain ⟨date, time⟩ := i
    simpa [shown, leapEndsMinute, Instant.shown, LocalDateTime.shown] using time.shown_eq_self_iff
  | _ => simp [shown, leapEndsMinute]

namespace Condition

/-! ## Walks over conditions -/

mutual

/-- The levels of nesting: groups, negations and both kinds of having condition are one each. -/
def nesting : Condition → Nat
  | .simple .. | .oneOf .. | .noneOf .. => 0
  | .not c => nesting c + 1
  | .group _ first second more => max (max (nesting first) (nesting second)) (nestingAll more) + 1
  | .having _ sub => nesting sub + 1
  | .aggregate .. => 1

/-- The levels of the condition that is nested deepest. -/
def nestingAll : List Condition → Nat
  | [] => 0
  | c :: cs => max (nesting c) (nestingAll cs)

end

mutual

/-- The condition that the text of a condition shows. -/
def shown : Condition → Condition
  | .simple field op value => .simple field op (value.map Value.shown)
  | .oneOf field vs => .oneOf field (vs.map Value.shown)
  | .noneOf field vs => .noneOf field (vs.map Value.shown)
  | .not c => .not (shown c)
  | .group join first second more => .group join (shown first) (shown second) (shownAll more)
  | .having field sub => .having field (shown sub)
  | .aggregate field function op bound => .aggregate field function op bound.shown

/-- What the texts of all conditions show. -/
def shownAll : List Condition → List Condition
  | [] => []
  | c :: cs => shown c :: shownAll cs

end

/-! ## Printable conditions -/

/-- The conditions that the syntax of filters can express. -/
inductive Printable : Condition → Prop
  | nullity {field : String} {op : Operator} (hfield : IsField field)
      (hop : op.takesNothing = true) : Printable (.simple field op none)
  | comparison {field : String} {op : Operator} {v : Value} (hfield : IsField field)
      (hop : op.takesValue = true) (hv : v.Writable op) : Printable (.simple field op (some v))
  | oneOf {field : String} {vs : List Value} (hfield : IsField field) (hne : vs ≠ [])
      (hvs : ∀ v ∈ vs, v.Writable .oneOf) : Printable (.oneOf field vs)
  | noneOf {field : String} {vs : List Value} (hfield : IsField field) (hne : vs ≠ [])
      (hvs : ∀ v ∈ vs, v.Writable .noneOf) : Printable (.noneOf field vs)
  | not {c : Condition} (h : Printable c) : Printable (.not c)
  | group {left right : Condition} (join : Connective) (hleft : Printable left)
      (hright : Printable right) : Printable (.group join left right [])
  | having {field : String} {c : Condition} (hfield : IsField field) (h : Printable c) :
      Printable (.having field c)
  | aggregate {field : String} {op : Operator} (function : Aggregate) (bound : Int64)
      (hfield : IsField field) (hop : op.isComparison = true) :
      Printable (.aggregate field function op (.long bound))

theorem map_shown_eq_self_iff (vs : List Value) :
    vs.map Value.shown = vs ↔ ∀ v ∈ vs, v.leapEndsMinute = true := by
  induction vs with
  | nil => simp
  | cons v vs ih => simp [v.shown_eq_self_iff, ih]

/-- A printable condition is shown as it is, if its values are. -/
theorem Printable.shown_eq_self_iff {c : Condition} (h : Printable c) :
    c.shown = c ↔ ∀ v ∈ c.values, v.leapEndsMinute = true := by
  induction h with
  | nullity => simp [shown, values]
  | comparison => simp [shown, values, Value.shown_eq_self_iff]
  | oneOf | noneOf => simpa [shown, values] using map_shown_eq_self_iff _
  | not _ ih => simpa [shown, values] using ih
  | group _ _ _ ihleft ihright =>
    simp [shown, shownAll, values, valuesAll, ihleft, ihright, or_imp, forall_and]
  | having _ _ ih => simpa [shown, values] using ih
  | aggregate => simp [shown, values, Value.shown, Value.leapEndsMinute]

/-! ## The tokens of printable conditions -/

variable {op : Operator}

theorem spelled_of_writable {v : Value} (h : v.Writable op) : v.Spelled := by
  cases v with
  | string s => exact ⟨h.1.no_quote, h.1.eq_space⟩
  | _ => trivial

theorem Printable.isField {c : Condition} (h : Printable c) :
    ∀ field ∈ c.fields, IsField field := by
  induction h with
  | nullity hfield | comparison hfield | oneOf hfield | noneOf hfield | aggregate _ _ hfield =>
    simpa [fields] using hfield
  | not _ ih => exact ih
  | group _ _ _ ihleft ihright =>
    simpa [fields, fieldsAll, or_imp, forall_and] using ⟨ihleft, ihright⟩
  | having hfield _ ih => exact List.forall_mem_cons.2 ⟨hfield, ih⟩

theorem Printable.spelled {c : Condition} (h : Printable c) : ∀ v ∈ c.values, v.Spelled := by
  induction h with
  | nullity => simp [values]
  | comparison _ _ hv => simpa [values] using spelled_of_writable hv
  | oneOf _ _ hvs | noneOf _ _ hvs => exact fun v hv => spelled_of_writable (hvs v hv)
  | not _ ih => exact ih
  | group _ _ _ ihleft ihright =>
    simpa [values, valuesAll, or_imp, forall_and] using ⟨ihleft, ihright⟩
  | having _ _ ih => exact ih
  | aggregate => simp [values, Value.Spelled]

/-- The tokens of a list of values derive what is shown of them, if each of them does. -/
theorem denotesList_valueTokens {vs : List Value} (hne : vs ≠ [])
    (hvs : ∀ v ∈ vs, Denotes zones op v.token v.shown) :
    DenotesList zones op (valueTokens vs) (vs.map Value.shown) := by
  induction vs with
  | nil => exact absurd rfl hne
  | cons v vs ih =>
    obtain ⟨hv, hvs⟩ := List.forall_mem_cons.1 hvs
    cases vs with
    | nil => exact .one hv
    | cons w vs => exact .more hv (ih (by simp) hvs)

theorem denotesNumber_long (bound : Int64) :
    DenotesNumber zones op (.literal (String.ofList (intText bound.toInt)) false)
      (.long bound) := by
  have htrim : trim (intText bound.toInt) = intText bound.toInt := (PlainText.int _).trim_eq
  refine .intro ?_ ?_
  · rw [String.toList_ofList, htrim]
    exact Shape.isNumber_intText _
  · rw [String.toList_ofList, htrim]
    exact Literal.coerce_text (v := .long bound) trivial (by simp)

/-- The tokens of a printable condition derive what its text shows. -/
theorem Printable.derives {c : Condition} (h : Printable c) :
    Derives zones .term c.nesting c.tokens c.shown := by
  induction h with
  | @nullity field op hfield hop =>
    have hderives : Derives zones .term 0 _ _ := .nullity field false hop
    rwa [hfield.2.1] at hderives
  | @comparison field op v hfield hop hv =>
    have hderives : Derives zones .term 0 _ _ :=
      .comparison field false hop (Value.denotes_token hv)
    rwa [hfield.2.1] at hderives
  | @oneOf field vs hfield hne hvs =>
    have hderives : Derives zones .term 0 _ _ := .oneOf field false
      (denotesList_valueTokens hne fun v hv => Value.denotes_token (hvs v hv))
    rwa [hfield.2.1] at hderives
  | @noneOf field vs hfield hne hvs =>
    have hderives : Derives zones .term 0 _ _ := .noneOf field false
      (denotesList_valueTokens hne fun v hv => Value.denotes_token (hvs v hv))
    rwa [hfield.2.1] at hderives
  | not _ ih => exact .not ih
  | @group left right join _ _ ihleft ihright =>
    have hderives := Derives.parentheses (.join join (.term ihleft) ihright)
    simpa [nesting, nestingAll, shown, shownAll, tokens, moreTokens] using hderives
  | @having field c hfield _ ih =>
    have hderives := Derives.having field false (.term ih)
    rwa [hfield.2.1] at hderives
  | @aggregate field op function bound hfield hop =>
    have hname : trimmed function.name = function.name := by cases function <;> decide
    have hfunction : Aggregate.ofName? (trimmed function.name) = some function := by
      rw [hname, Aggregate.ofName?_name]
    have hderives : Derives zones .term 1 _ _ :=
      .aggregate function.name field false false op hfunction hop (denotesNumber_long bound)
    rwa [hfield.2.1] at hderives

/-- The lexemes of compact text derive what it shows, nested as deep as the condition. -/
theorem Printable.exists_lexemes {c : Condition} (h : Printable c) :
    ∃ found, lexemes (String.ofList c.compactText).toList = .ok found ∧
      Derives zones .expression c.nesting (found.map Lexeme.token) c.shown := by
  have hlays := lays_tokens h.isField h.spelled
  obtain ⟨found, hfound, htokens⟩ := exists_lexemes_of_reads hlays.compact
  exact ⟨found, hfound, htokens ▸ .term h.derives⟩

/-- The text is parsed as the condition that it shows. -/
theorem Printable.parse_eq_shown {c : Condition} {limits : Limits} (h : Printable c)
    (hlength : byteSize c.compactText ≤ limits.maxLength) (hdepth : c.nesting ≤ limits.maxDepth) :
    parse limits (String.ofList c.compactText) zones = .ok c.shown :=
  parse_compactText_of_derives h.isField h.spelled (.term h.derives) hlength hdepth

/-- **Parsing undoes compact printing**, up to leap seconds. Within limits that hold its text and
its nesting, the compact text of a printable condition is parsed as the condition that it shows. So
it is parsed as the condition itself if and only if every leap second in it ends its minute. -/
theorem parse_compactText_eq_ok_iff {c : Condition} {limits : Limits} (h : Printable c)
    (hlength : byteSize c.compactText ≤ limits.maxLength) (hdepth : c.nesting ≤ limits.maxDepth) :
    parse limits (String.ofList c.compactText) zones = .ok c.shown ∧
      (parse limits (String.ofList c.compactText) zones = .ok c ↔
        ∀ v ∈ c.values, v.leapEndsMinute = true) := by
  have hparse : parse limits (String.ofList c.compactText) zones = _ :=
    h.parse_eq_shown hlength hdepth
  refine ⟨hparse, ?_⟩
  rw [hparse, ← h.shown_eq_self_iff]
  exact ⟨Except.ok.inj, congrArg Except.ok⟩

/-- A pattern, a list with a leap second at the end of a minute, and a function over members. -/
theorem parse_compactText_nested :
    let midnight : Time :=
      ⟨23, 59, 59, 1500000000, by decide, by decide, by decide, by decide⟩
    let c : Condition := .group .or (.not (.simple "a.b" .like (some (.string "(x*"))))
      (.having "m" (.group .and (.oneOf "t" [.string "x y", .time midnight])
        (.aggregate "p" .sum .gte (.long (-5))) [])) []
    Printable c ∧ byteSize c.compactText ≤ ({} : Limits).maxLength ∧
      c.nesting ≤ ({} : Limits).maxDepth ∧ parse {} (String.ofList c.compactText) = .ok c := by
  intro midnight c
  have hpattern : Value.Writable .like (.string "(x*") :=
    ⟨⟨by decide, by decide, by simp; decide, by decide, by decide, by decide⟩, by decide⟩
  have htext : Value.Writable .oneOf (.string "x y") :=
    ⟨⟨by decide, by decide, by simp; decide, by decide, by decide, by decide⟩, by decide⟩
  have hvalues : ∀ v ∈ [Value.string "x y", .time midnight], v.Writable .oneOf := by
    simpa using ⟨htext, trivial⟩
  have hleft : Printable (.not (.simple "a.b" .like (some (.string "(x*")))) :=
    .not (.comparison ⟨by decide, by decide, by decide +kernel⟩ rfl hpattern)
  have hlist : Printable (.oneOf "t" [.string "x y", .time midnight]) :=
    .oneOf ⟨by decide, by decide, by decide +kernel⟩ (by simp) hvalues
  have hsum : Printable (.aggregate "p" .sum .gte (.long (-5))) :=
    .aggregate .sum (-5) ⟨by decide, by decide, by decide +kernel⟩ rfl
  have hc : Printable c :=
    .group .or hleft
      (.having ⟨by decide, by decide, by decide +kernel⟩ (.group .and hlist hsum))
  have hlength : byteSize c.compactText ≤ ({} : Limits).maxLength := by decide +kernel
  have hdepth : c.nesting ≤ ({} : Limits).maxDepth := by decide
  refine ⟨hc, hlength, hdepth, (parse_compactText_eq_ok_iff hc hlength hdepth).2.2 ?_⟩
  decide

/-- The instant 1880-01-01T12:00:60 of Tokyo, whose clock was nine hours, 18 minutes and 59 seconds
ahead: its leap second starts a minute of UTC, and its text is read as the second behind it. -/
theorem parse_compactText_ne_of_leap_second :
    let noon : Instant := ⟨⟨1880, 1, 1, by decide, by decide, by decide, by decide⟩,
      ⟨2, 42, 0, 1000000000, by decide, by decide, by decide, by decide⟩⟩
    let c : Condition := .simple "a" .eq (some (.instant noon))
    parse {} "a$eq:1880-01-01T12:00:60[Asia/Tokyo]" = .ok c ∧ Printable c ∧
      byteSize c.compactText ≤ ({} : Limits).maxLength ∧ c.nesting ≤ ({} : Limits).maxDepth ∧
      parse {} (String.ofList c.compactText) ≠ .ok c := by
  intro noon c
  have hlexemes : lexemes "a$eq:1880-01-01T12:00:60[Asia/Tokyo]".toList =
      .ok [⟨.literal "a" false, 0, 1⟩, ⟨.operator "$eq:", 1, 5⟩,
        ⟨.literal "1880-01-01T12:00:60[Asia/Tokyo]" false, 5, 36⟩] := by decide +kernel
  have hvalue : Denotes Zone.known .eq (.literal "1880-01-01T12:00:60[Asia/Tokyo]" false)
      (.instant noon) := .intro (by decide +kernel)
  have hderives : Derives Zone.known .expression 0 _ c := .term (.comparison "a" false rfl hvalue)
  have hc : Printable c :=
    .comparison ⟨by decide, by decide, by decide +kernel⟩ rfl
      (by decide : noon.utc.date.hasPlainYear = true)
  have hlength : byteSize c.compactText ≤ ({} : Limits).maxLength := by decide +kernel
  have hdepth : c.nesting ≤ ({} : Limits).maxDepth := by decide
  refine ⟨?_, hc, hlength, hdepth, fun hparse => ?_⟩
  · rw [parse_eq_filter (by decide) hlexemes]
    exact (Context.accepts_of_derives hderives _ (Nat.zero_le _)).filter rfl
  · rw [hc.parse_eq_shown hlength hdepth] at hparse
    have hshown :=
      hc.shown_eq_self_iff.1 (Except.ok.inj hparse) (.instant noon) (by simp [c, values])
    exact absurd hshown (by decide)

end Condition

end FilterQuery
