import FilterQuery.Calendar.Time

set_option autoImplicit false

/-! # Instants

An instant is a point on the time line, given by its date-time in UTC. -/

namespace FilterQuery

structure Instant where
  utc : LocalDateTime
  deriving DecidableEq

namespace Instant

/-- Seconds since 1970-01-01T00:00:00Z; a leap second counts as the second it follows. -/
def unixSeconds (i : Instant) : Int := i.utc.toSeconds

/-- Nanoseconds of the second, 10⁹ or more in a leap second. -/
def nanos (i : Instant) : Nat := i.utc.time.nano

/-- The instant so many seconds and nanoseconds after 1970-01-01T00:00:00Z, if it is in range. -/
def ofUnix? (seconds : Int) (nanos : Nat) : Option Instant :=
  if h : nanos < 2 * nanosPerSecond then
    (Date.ofDays? (seconds / secondsPerDay)).bind fun date =>
      if date.inRange then
        some ⟨⟨date, Time.ofSecondOfDay (seconds % secondsPerDay).toNat nanos h⟩⟩
      else none
  else none

/-- The date-time on a clock that is `offset` seconds ahead of UTC. -/
def localAt (i : Instant) (offset : Int) : LocalDateTime := i.utc.shift offset

/-- The UTC date-time followed by `Z`. -/
def text (i : Instant) : List Char := i.utc.text ++ ['Z']

end Instant

/-- A fixed offset as `±HH:MM`, rounded to the nearest minute; `Z` if it is zero. -/
def offsetText (offset : Int) : List Char :=
  if offset = 0 then ['Z']
  else
    let minutes := (offset.natAbs + 30) / 60
    (if offset < 0 then '-' else '+') ::
      (Text.padded 2 (minutes / 60) ++ ':' :: Text.padded 2 (minutes % 60))

end FilterQuery
