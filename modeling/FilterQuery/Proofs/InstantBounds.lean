import FilterQuery.Proofs.ParsedConditions
import FilterQuery.Proofs.ZoneGaps

set_option autoImplicit false

/-! # Instants of filters

The years of a literal have four digits, and no offset of a clock is a whole day. So the instants of
a filter that was parsed are near the years 0000 to 9999 (`Condition.near_of_parse`), far away from
the ends of the range of years: every clock can show them. -/

namespace FilterQuery

open FilterQuery.Text

variable {zones : Zone.Database}

/-- An instant at most two days away from the years of four digits. -/
def Instant.Near (i : Instant) : Prop :=
  -62167219200 - 172800 ≤ i.unixSeconds ∧ i.unixSeconds ≤ 253402300800 + 172800

/-! ## Offsets -/

namespace Zone

variable {z : Zone} {dt : LocalDateTime}

theorem mem_of_mem_offsetsFrom {clock offset o : Int} {behindStart : Int → Bool}
    {ts : List Transition} (h : o ∈ offsetsFrom clock behindStart offset ts) :
    o ∈ offset :: ts.map Transition.offset := by
  induction ts generalizing offset behindStart with
  | nil =>
    rw [offsetsFrom] at h
    split_ifs at h
    · exact h
    · cases h
  | cons t ts ih =>
    rw [offsetsFrom] at h
    rcases List.mem_append.1 h with h | h
    · split_ifs at h
      · exact List.mem_cons.2 (.inl (List.mem_singleton.1 h))
      · cases h
    · exact List.mem_cons_of_mem _ (ih h)

/-- An instant of a date-time is as far from it as an offset of the zone says. -/
theorem exists_of_mem_instants {i : Instant} (h : i ∈ z.instants dt) :
    ∃ offset ∈ z.offsets, i = ⟨dt.shift (-offset)⟩ := by
  simp only [instants] at h
  split_ifs at h
  · obtain ⟨offset, hoffset, rfl⟩ := List.mem_map.1 h
    exact ⟨offset, mem_of_mem_offsetsFrom hoffset, rfl⟩
  · cases h

theorem offsetAt_mem_offsets (seconds : Int) : z.offsetAt seconds ∈ z.offsets := by
  have hfold : ∀ (ts : List Transition) (offset : Int),
      ts.foldl (fun current t => if t.start ≤ seconds then t.offset else current) offset ∈
        offset :: ts.map Transition.offset := by
    intro ts
    induction ts with
    | nil => simp
    | cons t ts ih =>
      intro offset
      rcases List.mem_cons.1 (ih (if t.start ≤ seconds then t.offset else offset)) with h | h
      · rw [List.foldl_cons, h]
        split_ifs <;> simp
      · exact List.mem_cons_of_mem _ (List.mem_cons_of_mem _ h)
  exact hfold z.transitions z.initial

end Zone

namespace Instant

variable {zone : Zone} {cs before : List Char} {dt : LocalDateTime} {i : Instant}

theorem near_of_shift (hlow : 0 ≤ dt.date.year) (hhigh : dt.date.year < 10000) {seconds : Int}
    (hmin : -172800 ≤ seconds) (hmax : seconds ≤ 172800) : Near ⟨dt.shift seconds⟩ := by
  obtain ⟨hfirst, hlast⟩ := LocalDateTime.toSeconds_of_year hlow (by omega)
  have hshift := dt.toSeconds_shift seconds
  simp only [Near, unixSeconds]
  omega

/-- Every clock can show an instant that is near. -/
theorem inRange_localAt (h : i.Near) (hzone : zone.BelowDay) (seconds : Int) :
    (i.localAt (zone.offsetAt seconds)).inRange = true := by
  obtain ⟨hlow, hhigh⟩ := hzone _ (zone.offsetAt_mem_offsets seconds)
  have hshift := i.utc.toSeconds_shift (zone.offsetAt seconds)
  simp only [Near, unixSeconds] at h
  exact LocalDateTime.inRange_of_toSeconds (by rw [localAt]; omega) (by rw [localAt]; omega)

/-! ## Reading -/

theorem near_of_ofTimestamp? (h : ofTimestamp? cs = some i) : i.Near := by
  unfold ofTimestamp? Reading.whole? at h
  split at h
  · next hread =>
    cases h
    obtain ⟨-, -, offset, seconds, -, -, -, hoffset, dt, ⟨hlow, hhigh⟩, rfl⟩ :=
      Reading.cases_of_timestamp? hread
    obtain ⟨⟨hmin, hmax⟩, -⟩ := Reading.cases_of_strictOffset? hoffset
    exact near_of_shift hlow hhigh (by omega) (by omega)
  · cases h

theorem near_of_resolve (hzone : zone.BelowDay) (hlow : 0 ≤ dt.date.year)
    (hhigh : dt.date.year < 10000) {text : String} (h : resolve zone dt text = .ok i) :
    i.Near := by
  obtain ⟨hfirst, hlast⟩ := LocalDateTime.toSeconds_of_year hlow (by omega)
  have hmem : i ∈ zone.instants dt ∨ i ∈ zone.instants (dt.later 3600) := by
    unfold resolve at h
    split at h
    · next hinstants =>
      cases h
      exact .inl (hinstants ▸ List.mem_cons_self)
    · split at h
      · cases h
      · next later hlater =>
        have heq : dt.later 3600 = later := by
          rw [LocalDateTime.plusHour?_of_toSeconds (by omega) (by omega)] at hlater
          exact Option.some.inj hlater
        split at h
        · next hinstants =>
          cases h
          exact .inr (heq ▸ hinstants ▸ List.mem_cons_self)
        · cases h
  have hlater := dt.toSeconds_later 3600
  rcases hmem with hmem | hmem
  all_goals
    obtain ⟨offset, hoffset, rfl⟩ := Zone.exists_of_mem_instants hmem
    obtain ⟨hmin, hmax⟩ := hzone offset hoffset
    simp only [Near, unixSeconds, LocalDateTime.toSeconds_shift]
    omega

/-- An offset at the end of a text has at most eighteen hours. -/
theorem lt_of_readOffset {sign : Char} {digits : List Char} {offset : Int}
    (h : readOffset sign digits = .ok offset) : -86400 < offset ∧ offset < 86400 := by
  simp only [readOffset] at h
  split at h
  · cases h
  · cases h
  · split at h
    · next hfields =>
      simp only [Bool.and_eq_true, decide_eq_true_eq] at hfields
      obtain ⟨⟨-, hhours⟩, hminutes⟩ := hfields
      simp only [maxOffsetHours] at hhours
      cases h
      split_ifs <;> omega
    · cases h

/-- The zone behind a date-time is one of the database or an offset, or that of the caller. -/
theorem belowDay_of_splitZone {own : Option Zone} (hzone : zone.BelowDay)
    (h : splitZone zones cs = .ok (before, own)) : (own.getD zone).BelowDay := by
  unfold splitZone at h
  split at h
  · split at h
    · split at h
      · next hnamed =>
        cases h
        exact zones.belowDay hnamed
      · cases h
    · cases h
  · cases h
    exact (Zone.regular_fixed (by decide) (by decide)).belowDay
  · split at h
    · cases h
      exact hzone
    · split at h
      · split at h
        · cases h
        · next hoffset =>
          cases h
          obtain ⟨hlow, hhigh⟩ := lt_of_readOffset hoffset
          exact (Zone.regular_fixed hlow hhigh).belowDay
      · cases h
        exact hzone

theorem near_of_read (hzone : zone.BelowDay) (hcs : Shape.isDateTime cs = true)
    (h : read zone cs zones = .ok i) : i.Near := by
  unfold read at h
  split at h
  · next hstrict =>
    cases h
    exact near_of_ofTimestamp? hstrict
  · split at h
    · cases h
    · next before own hsplit =>
      split at h
      · cases h
      · next dt hlocal =>
        obtain ⟨date, time, rfl, hdate, htime⟩ := Shape.isDateTime_iff.1 hcs
        obtain ⟨hlow, hhigh⟩ :=
          year_of_readLocal? hdate (isPrefix_of_splitZone hdate htime hsplit) hlocal
        exact near_of_resolve (belowDay_of_splitZone hzone hsplit) hlow hhigh h

end Instant

/-! ## Filters -/

/-- Only date-times with a zone denote instants, and the zone of the caller is UTC. -/
theorem Literal.near_of_coerce {cs : List Char} {quoted : Bool} {op : Operator} {i : Instant}
    (h : coerce zones cs quoted op = .ok (.instant i)) : i.Near := by
  have hshape : Shape.dateTime = if quoted then .string else Shape.ofText cs := shape_of_coerce h
  unfold coerce at h
  rw [← hshape] at h
  simp only at h
  split_ifs at h hshape
  · split at h
    · next hread =>
      cases h
      exact Instant.near_of_read (Zone.regular_fixed (by decide) (by decide)).belowDay
        (Shape.recognises_of_ofText hshape.symm (by decide)) hread
    · cases h
  · obtain ⟨dt, -, hdt⟩ := Option.map_eq_some_iff.1 (orInvalid_eq_ok_iff.1 h)
    cases hdt

namespace Condition

/-- Instants that a condition compares a field with are near. The conditions in it are not looked
at. -/
def ComparesNear (c : Condition) : Prop :=
  ∀ field op i, c = .simple field op (some (.instant i)) → i.Near

theorem comparesNear_of_ne {c : Condition}
    (h : ∀ field op i, c ≠ .simple field op (some (.instant i))) : c.ComparesNear :=
  fun field op i heq => absurd heq (h field op i)

theorem near_of_derives {phrase : Phrase} {n : Nat} {row : List Token} {c : Condition}
    (h : Derives zones phrase n row c) : ∀ node ∈ c.nodes, node.ComparesNear := by
  induction h with
  | term _ ih => exact ih
  | join join _ _ ihleft ihright =>
    rw [nodes, List.forall_mem_cons, List.forall_mem_append, List.forall_mem_append]
    exact ⟨comparesNear_of_ne (by simp), ⟨ihleft, ihright⟩, by simp [nodesAll]⟩
  | not _ ih =>
    rw [nodes, List.forall_mem_cons]
    exact ⟨comparesNear_of_ne (by simp), ih⟩
  | parentheses _ ih => exact ih
  | having name quoted _ ih =>
    rw [nodes, List.forall_mem_cons]
    exact ⟨comparesNear_of_ne (by simp), ih⟩
  | aggregate | nullity | oneOf | noneOf =>
    rw [nodes, List.forall_mem_singleton]
    exact comparesNear_of_ne (by simp)
  | comparison field quoted hop h =>
    rw [nodes, List.forall_mem_singleton]
    rintro _ _ i ⟨⟩
    obtain ⟨hv⟩ := h
    exact Literal.near_of_coerce hv

theorem near_of_parse {limits : Limits} {source : String} {c : Condition}
    (h : parse limits source zones = .ok c) : ∀ node ∈ c.nodes, node.ComparesNear := by
  obtain ⟨row, n, -, -, hderives⟩ := exists_derives_of_parse h
  exact near_of_derives hderives

end Condition

end FilterQuery
