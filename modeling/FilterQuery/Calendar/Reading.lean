import FilterQuery.Calendar.Instant
import FilterQuery.Text.Blank
import FilterQuery.Text.Bytes
import FilterQuery.Text.Replace

set_option autoImplicit false

/-! # Reading dates and times

A reader takes a value off the front of a text and returns the characters behind it. The numbers of
a date or a time are lenient: blanks may stand in front of each, one digit may stand where two are
usual, and a year with a sign may have any number of digits. The strict date-time of
`Instant.ofTimestamp?` (`2023-11-02T15:22:45.5+01:00`) has none of that freedom. -/

namespace FilterQuery

open FilterQuery.Text

namespace Reading

/-! ## Numbers and marks -/

/-- One to `most` digits. -/
def digits? (most : Nat) (cs : List Char) : Option (Nat × List Char) :=
  let row := (cs.take most).takeWhile isDigit
  if row.isEmpty then none else some (ofDigits row, cs.drop row.length)

/-- Exactly `count` digits. -/
def exactDigits? (count : Nat) (cs : List Char) : Option (Nat × List Char) :=
  if areDigits count (cs.take count) then some (ofDigits (cs.take count), cs.drop count) else none

/-- A mark that has to stand here. -/
def mark? (c : Char) : List Char → Option (List Char)
  | [] => none
  | d :: rest => if d = c then some rest else none

/-- A field of one or two digits behind blanks. -/
def field? (cs : List Char) : Option (Nat × List Char) := digits? 2 (trimStart cs)

/-- A year behind blanks: up to four digits, or a sign and any number of them. -/
def year? (cs : List Char) : Option (Int × List Char) :=
  match trimStart cs with
  | '-' :: rest => (digits? rest.length rest).map fun (n, rest) => (-(n : Int), rest)
  | '+' :: rest => (digits? rest.length rest).map fun (n, rest) => ((n : Int), rest)
  | rest => (digits? 4 rest).map fun (n, rest) => ((n : Int), rest)

/-- The fraction of a second behind its point: one digit or more, of which nine count. -/
def fraction? (cs : List Char) : Option (Nat × List Char) :=
  let row := cs.takeWhile isDigit
  if row.isEmpty then none
  else
    let counted := row.take 9
    some (ofDigits counted * Nat.pow 10 (9 - counted.length), cs.dropWhile isDigit)

/-- A fraction with its point, or nothing. -/
def optionalFraction? : List Char → Option (Nat × List Char)
  | '.' :: rest => fraction? rest
  | cs => some (0, cs)

/-! ## Dates and times -/

/-- The date of these fields, if it exists and its year is in range. -/
def dateInRange? (year : Int) (month day : Nat) : Option Date :=
  (Date.of? year month day).filter Date.inRange

/-- A year, a month and a day with hyphens between them. -/
def date? (cs : List Char) : Option (Date × List Char) := do
  let (year, cs) ← year? cs
  let cs ← mark? '-' cs
  let (month, cs) ← field? cs
  let cs ← mark? '-' cs
  let (day, cs) ← field? cs
  let date ← dateInRange? year month day
  return (date, cs)

/-- A clock reading: hours, minutes and seconds, not yet checked. -/
structure Clock where
  hour : Nat
  minute : Nat
  second : Nat
  deriving DecidableEq, Repr

/-- The time of a clock reading and a fraction of a second. -/
def Clock.time? (clock : Clock) (nano : Nat) : Option Time :=
  Time.ofClock? clock.hour clock.minute clock.second nano

/-- Hours and minutes. -/
def hourMinute? (cs : List Char) : Option (Clock × List Char) := do
  let (hour, cs) ← field? cs
  let cs ← mark? ':' cs
  let (minute, cs) ← field? cs
  return (⟨hour, minute, 0⟩, cs)

/-- Hours, minutes and seconds. -/
def hourMinuteSecond? (cs : List Char) : Option (Clock × List Char) := do
  let (clock, cs) ← hourMinute? cs
  let cs ← mark? ':' cs
  let (second, cs) ← field? cs
  return ({ clock with second }, cs)

/-- A time down to minutes. -/
def shortTime? (cs : List Char) : Option (Time × List Char) := do
  let (clock, cs) ← hourMinute? cs
  let time ← clock.time? 0
  return (time, cs)

/-- A time down to seconds, with an optional fraction. -/
def fullTime? (cs : List Char) : Option (Time × List Char) := do
  let (clock, cs) ← hourMinuteSecond? cs
  let (nano, cs) ← optionalFraction? cs
  let time ← clock.time? nano
  return (time, cs)

/-- Use up the whole text. -/
def whole? {α : Type} (reader : List Char → Option (α × List Char)) (cs : List Char) : Option α :=
  match reader cs with
  | some (a, []) => some a
  | _ => none

/-- A date, `T` and a time. -/
def dateTime? (time? : List Char → Option (Time × List Char)) (cs : List Char) :
    Option (LocalDateTime × List Char) := do
  let (date, cs) ← date? cs
  let cs ← mark? 'T' cs
  let (time, cs) ← time? cs
  return (⟨date, time⟩, cs)

/-! ## Strict timestamps -/

/-- The offset of a strict timestamp: `Z`, or a sign, two digits, a colon and two digits. The minus
sign U+2212 is as good as a hyphen. -/
def strictOffset? (cs : List Char) : Option (Int × List Char) :=
  match cs with
  | [] => none
  | c :: rest =>
    if c = 'Z' ∨ c = 'z' then some (0, rest)
    else do
      let sign : Int ←
        if c = '+' then some 1
        else if c = '-' ∨ c = Char.ofNat 0x2212 then some (-1)
        else none
      let (hours, rest) ← exactDigits? 2 rest
      let rest ← mark? ':' rest
      let (minutes, rest) ← exactDigits? 2 rest
      if hours < 24 ∧ minutes < 60 then
        some (sign * (3600 * hours + 60 * minutes : Nat), rest)
      else none

/-- The separator of date and time in a strict timestamp. -/
def strictSeparator? : List Char → Option (List Char)
  | c :: rest => if c = 'T' ∨ c = 't' ∨ c = ' ' then some rest else none
  | [] => none

/-- A strict timestamp: every field has its full width, and an offset follows. -/
def timestamp? (cs : List Char) : Option (Instant × List Char) := do
  let (year, cs) ← exactDigits? 4 cs
  let cs ← mark? '-' cs
  let (month, cs) ← exactDigits? 2 cs
  let cs ← mark? '-' cs
  let (day, cs) ← exactDigits? 2 cs
  let cs ← strictSeparator? cs
  let (hour, cs) ← exactDigits? 2 cs
  let cs ← mark? ':' cs
  let (minute, cs) ← exactDigits? 2 cs
  let cs ← mark? ':' cs
  let (second, cs) ← exactDigits? 2 cs
  let (nano, cs) ← optionalFraction? cs
  let (offset, cs) ← strictOffset? cs
  let date ← Date.of? year month day
  let time ← Time.ofClock? hour minute second nano
  return (⟨LocalDateTime.shift ⟨date, time⟩ (-offset)⟩, cs)

end Reading

/-- The instant of a strict timestamp. -/
def Instant.ofTimestamp? (cs : List Char) : Option Instant := Reading.whole? Reading.timestamp? cs

/-- A date by itself. -/
def Date.read? (cs : List Char) : Option Date := Reading.whole? Reading.date? cs

/-- A time by itself: five characters are hours and minutes, more go down to seconds. -/
def Time.read? (cs : List Char) : Option Time :=
  Reading.whole? (if cs.length = 5 then Reading.shortTime? else Reading.fullTime?) cs

/-- A date-time by itself, down to seconds or to minutes. -/
def LocalDateTime.read? (cs : List Char) : Option LocalDateTime :=
  (Reading.whole? (Reading.dateTime? Reading.fullTime?) cs).or
    (Reading.whole? (Reading.dateTime? Reading.shortTime?) cs)

end FilterQuery
