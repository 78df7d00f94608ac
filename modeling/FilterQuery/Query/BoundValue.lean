import FilterQuery.Calendar.Zone
import FilterQuery.Catalog
import FilterQuery.Failure
import FilterQuery.Json

set_option autoImplicit false

/-! # Bound values

A value that reaches the query as a named parameter and not as text. An instant is bound in the form
in which the attribute stores points in time, seen from a zone where that matters. -/

namespace FilterQuery

/-- An instant together with the offset of the clock that shows it. -/
structure OffsetDateTime where
  instant : Instant
  /-- Seconds ahead of UTC. -/
  offset : Int
  deriving DecidableEq

/-- A date-time, or a fault if it lies outside the representable years. -/
def LocalDateTime.representable (dt : LocalDateTime) : Except Fault LocalDateTime :=
  if dt.inRange then .ok dt else .error .timeOutOfRange

/-- The date-time on the clock, followed by the offset. Close to the ends of the range the instant
can be representable and the date-time on the clock not; it has no text then. -/
def OffsetDateTime.text (t : OffsetDateTime) : Except Fault (List Char) := do
  let clock ← (t.instant.localAt t.offset).representable
  return clock.text ++ offsetText t.offset

inductive BoundValue where
  | boolean (b : Bool)
  | instant (i : Instant)
  | offsetDateTime (t : OffsetDateTime)
  | zonedDateTime (t : OffsetDateTime) (zone : String)
  | localDateTime (dt : LocalDateTime)
  | localDate (d : Date)
  | localTime (t : Time)
  | offsetTime (t : Time) (offset : Int)
  | timestamp (i : Instant)
  deriving DecidableEq

namespace BoundValue

/-- The form of an instant that an attribute of the type stores; `none` if the type holds no point
in time. -/
def ofInstant (i : Instant) (type : ScalarType) (zone : Zone) : Except Fault (Option BoundValue) :=
  let offset := zone.offsetAt i.unixSeconds
  let clock := i.localAt offset
  match type with
  | .instant => .ok (some (.instant i))
  | .timestamp => .ok (some (.timestamp i))
  | .offsetDateTime => .ok (some (.offsetDateTime ⟨i, 0⟩))
  | .zonedDateTime => .ok (some (.zonedDateTime ⟨i, offset⟩ zone.name))
  | .localDateTime => clock.representable.map fun dt => some (.localDateTime dt)
  | .date => clock.representable.map fun dt => some (.localDate dt.date)
  | .time => .ok (some (.localTime clock.time))
  | .offsetTime => .ok (some (.offsetTime clock.time offset))
  | .string | .integer | .float | .boolean => .ok none

/-- The value with its kind. -/
def toJson : BoundValue → Except Fault Json
  | .boolean b => .ok (.tagged "boolean" (.bool b))
  | .instant i => .ok (.tagged "instant" (.text i.text))
  | .offsetDateTime t => t.text.map fun text => .tagged "offsetDateTime" (.text text)
  | .zonedDateTime t zone => t.text.map fun text =>
    .tagged "zonedDateTime" (.object [("value", .text text), ("zone", .string zone)])
  | .localDateTime dt => .ok (.tagged "localDateTime" (.text dt.text))
  | .localDate d => .ok (.tagged "localDate" (.text d.text))
  | .localTime t => .ok (.tagged "localTime" (.text t.text))
  | .offsetTime t offset =>
    .ok (.tagged "offsetTime" (.object [("time", .text t.text), ("offsetSeconds", .int offset)]))
  | .timestamp i => .ok (.tagged "timestamp" (.text i.text))

end BoundValue

end FilterQuery
