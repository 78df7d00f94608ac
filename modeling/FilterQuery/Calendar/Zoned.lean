import FilterQuery.Calendar.Reading
import FilterQuery.Calendar.Zone.Table
import FilterQuery.Failure

set_option autoImplicit false

/-! # Reading instants

An instant is written as a strict timestamp, or as a local date-time with its zone behind it: a zone
name in brackets, `Z`, or an offset `±HH:MM`, `±HHMM` or `±HH`. A local date-time without a zone is
read in the zone of the caller. The caller also has the database in which names are looked up; the
table of `Zone.known` stands in for one.

The zone is taken off the end first, so a fault in it wins over one in the date-time. A local
date-time that does not exist in its zone is tried again one hour later. -/

namespace FilterQuery

open FilterQuery.Text

/-- Why a text is no date, time or instant. -/
inductive DateTimeError where
  | invalidFormat (text : String)
  | unknownZone (name : String)
  | invalidOffset (text : String)
  | nonexistentLocalTime (text : String)
  deriving DecidableEq, Repr

def DateTimeError.message : DateTimeError → String
  | .invalidFormat text => s!"unrecognized date/time format: '{text}'"
  | .unknownZone name => s!"unknown time zone '{name}'"
  | .invalidOffset text => s!"invalid zone offset '{text}'"
  | .nonexistentLocalTime text => s!"local time '{text}' does not exist in the given zone"

namespace Instant

/-! ## The zone behind a date-time -/

/-- Hours and minutes of an offset behind its sign: five bytes with a colon in the middle, four
bytes, or two. Lengths count bytes, and four bytes are cut in the middle whatever they are. -/
def offsetFields? (digits : List Char) : Except Fault (Option (List Char × List Char)) :=
  if byteSize digits = 5 then
    match splitAtByte 2 digits with
    | some (hours, ':' :: minutes) => .ok (some (hours, minutes))
    | _ => .ok none
  else if byteSize digits = 4 then
    match splitAtByte 2 digits with
    | some (hours, minutes) => .ok (some (hours, minutes))
    | none => .error .splitCharacter
  else if byteSize digits = 2 then .ok (some (digits, ['0', '0']))
  else .ok none

/-- The largest number of hours in an offset. -/
def maxOffsetHours : Nat := 18

/-- The seconds of an offset, given its sign and what follows it. -/
def readOffset (sign : Char) (digits : List Char) : Except (Failure DateTimeError) Int :=
  let invalid := refuse (.invalidOffset (String.ofList (sign :: digits)))
  match offsetFields? digits with
  | .error fault => stopWith fault
  | .ok none => invalid
  | .ok (some (hours, minutes)) =>
    if (hours ++ minutes).all isDigit && ofDigits hours ≤ maxOffsetHours &&
        ofDigits minutes ≤ 59 then
      let seconds : Nat := 3600 * ofDigits hours + 60 * ofDigits minutes
      .ok (if sign = '-' then -seconds else seconds)
    else invalid

def isSign (c : Char) : Bool := c == '+' || c == '-'

/-- Take the zone off the end of a text; `none` stands for the zone of the caller. A sign can only
introduce an offset behind the `T`. -/
def splitZone (zones : Zone.Database) (cs : List Char) :
    Except (Failure DateTimeError) (List Char × Option Zone) :=
  match cs.getLast? with
  | some ']' =>
    match splitLast (· == '[') cs.dropLast with
    | some (before, _ :: name) =>
      match zones.find? (String.ofList name) with
      | some zone => .ok (before, some zone)
      | none => refuse (.unknownZone (String.ofList name))
    | _ => refuse (.invalidFormat (String.ofList cs))
  | some 'Z' => .ok (cs.dropLast, some Zone.utc)
  | _ =>
    match splitFirst 'T' cs with
    | none => .ok (cs, none)
    | some (date, time) =>
      match splitLast isSign time with
      | some (before, sign :: digits) =>
        match readOffset sign digits with
        | .error e => .error e
        | .ok offset => .ok (date ++ 'T' :: before, some (Zone.fixed "" offset))
      | _ => .ok (cs, none)

/-! ## The local date-time -/

/-- The clock in front of the fraction: five bytes down to minutes, eight down to seconds. -/
def readClock? (cs : List Char) : Option Reading.Clock :=
  if byteSize cs = 5 then Reading.whole? Reading.hourMinute? cs
  else if byteSize cs = 8 then Reading.whole? Reading.hourMinuteSecond? cs
  else none

/-- Nanoseconds of a fraction of at most nine digits, which may also be empty. -/
def readFraction? (digits : List Char) : Option Nat :=
  if digits.length ≤ 9 && digits.all isDigit then
    some (ofDigits digits * Nat.pow 10 (9 - digits.length))
  else none

/-- A date, `T`, a clock and an optional fraction. -/
def readLocal? (cs : List Char) : Option LocalDateTime := do
  let (date, time) ← splitFirst 'T' cs
  let date ← Date.read? date
  let (clock, fraction) := (splitFirst '.' time).getD (time, [])
  let clock ← readClock? clock
  let nano ← readFraction? fraction
  let time ← clock.time? nano
  return ⟨date, time⟩

/-! ## The instant -/

/-- The first instant at which the clock of a zone shows `dt`, or else one hour later. -/
def resolve (zone : Zone) (dt : LocalDateTime) (text : String) :
    Except (Failure DateTimeError) Instant :=
  match zone.instants dt with
  | instant :: _ => .ok instant
  | [] =>
    match dt.plusHour? with
    | none => stopWith .timeOutOfRange
    | some later =>
      match zone.instants later with
      | instant :: _ => .ok instant
      | [] => refuse (.nonexistentLocalTime text)

/-- Read an instant; a local date-time without a zone belongs to `zone`. -/
def read (zone : Zone) (cs : List Char) (zones : Zone.Database := Zone.known) :
    Except (Failure DateTimeError) Instant :=
  match ofTimestamp? cs with
  | some instant => .ok instant
  | none =>
    match splitZone zones cs with
    | .error e => .error e
    | .ok (before, ownZone) =>
      match readLocal? before with
      | none => refuse (.invalidFormat (String.ofList cs))
      | some dt => resolve (ownZone.getD zone) dt (String.ofList cs)

end Instant

end FilterQuery
