import FilterQuery.Calendar.Instant

set_option autoImplicit false

/-! # Time zones

A zone is a row of offsets from UTC, each valid from one transition to the next. Every instant has
one local date-time in a zone. A local date-time has one instant, two where the clock went back, or
none in the gap where it went forward.

The local date-time of a span of the zone lies in it exactly when the date-time minus the offset of
the span is an instant of the span; `instants` collects these, earliest first.

Which zones have a name is the matter of a `Database`, and every reader of zone names is given one.
-/

namespace FilterQuery

/-- From `start` on, in seconds since 1970-01-01T00:00:00Z, the clock is `offset` seconds ahead of
UTC. -/
structure Transition where
  start : Int
  offset : Int
  deriving DecidableEq, Repr

structure Zone where
  name : String
  /-- The offset before the first transition. -/
  initial : Int
  /-- The transitions in ascending order. -/
  transitions : List Transition
  deriving DecidableEq, Repr

namespace Zone

/-- A clock that is always `offset` seconds ahead of UTC. -/
def fixed (name : String) (offset : Int) : Zone := ⟨name, offset, []⟩

def utc : Zone := fixed "UTC" 0

/-- The offset in force at an instant. -/
def offsetAt (z : Zone) (seconds : Int) : Int :=
  z.transitions.foldl (fun current t => if t.start ≤ seconds then t.offset else current) z.initial

/-- The offsets under which a local date-time exists, given the offset in force and whether the
local date-time lies behind the start of its span. -/
def offsetsFrom (clock : Int) (behindStart : Int → Bool) (offset : Int) :
    List Transition → List Int
  | [] => if behindStart (clock - offset) then [offset] else []
  | next :: rest =>
    let here :=
      if behindStart (clock - offset) && clock - offset < next.start then [offset] else []
    here ++ offsetsFrom clock (fun seconds => next.start ≤ seconds) next.offset rest

/-- The offsets under which a local date-time exists in the zone, those of earlier instants first.
-/
def localOffsets (z : Zone) (clock : Int) : List Int :=
  offsetsFrom clock (fun _ => true) z.initial z.transitions

/-- The instants at which the clock of the zone shows a local date-time, earliest first. There is
none if one of them would leave the range of years. -/
def instants (z : Zone) (dt : LocalDateTime) : List Instant :=
  let found := (z.localOffsets dt.toSeconds).map fun offset => ⟨dt.shift (-offset)⟩
  if found.all (fun i : Instant => i.utc.inRange) then found else []

/-! ## Databases -/

/-- All offsets that the clock ever has. -/
def offsets (z : Zone) : List Int := z.initial :: z.transitions.map Transition.offset

/-- The clock is never a whole day away from UTC. -/
def BelowDay (z : Zone) : Prop := ∀ offset ∈ z.offsets, -86400 < offset ∧ offset < 86400

instance (z : Zone) : Decidable z.BelowDay := inferInstanceAs (Decidable (∀ _ ∈ _, _))

/-- The zones that a filter or a configuration may name. -/
structure Database where
  /-- The zone of a name; names match exactly. -/
  find? : String → Option Zone
  belowDay : ∀ {name : String} {z : Zone}, find? name = some z → z.BelowDay
  /-- A name can be found behind the last opening bracket of a text. -/
  unbracketed : ∀ {name : String} {z : Zone}, find? name = some z → '[' ∉ name.toList

end Zone

end FilterQuery
