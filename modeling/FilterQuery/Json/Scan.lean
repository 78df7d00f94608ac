import FilterQuery.Catalog.Definition
import FilterQuery.Number.Decimal
import FilterQuery.Text.Bytes

set_option autoImplicit false

/-! # Scanning JSON text

The reader of schema documents goes through its text once, from front to back, and stops at the
first fault: the text ends too early, it is no JSON, or it has another shape than expected. The
functions here take one piece of JSON off the front of a text.

A value that the document does not care about is *skipped*, one that has to be looked at is *read*.
Reading is stricter: it refuses surrogates without their counterpart, numbers beyond the range of
doubles and deep nesting. -/

namespace FilterQuery.JsonScan

open FilterQuery.Text

/-- The outcome of taking something off a text. -/
abbrev Scan := Except DocumentFault

def truncated {α : Type} : Scan α := .error .truncated

def malformed {α : Type} : Scan α := .error .malformed

def mismatched {α : Type} : Scan α := .error .mismatched

/-- The blanks of JSON, fewer than those of a filter. -/
def isSpace (c : Char) : Bool := c == ' ' || c == '\n' || c == '\t' || c == '\r'

def skipSpace (cs : List Char) : List Char := cs.dropWhile isSpace

/-- Pass the rest of a keyword. -/
def keyword : List Char → List Char → Scan (List Char)
  | [], cs => .ok cs
  | _ :: _, [] => truncated
  | k :: ks, c :: cs => if k = c then keyword ks cs else malformed

/-! ## Strings -/

def hexValue? (c : Char) : Option Nat :=
  if isDigit c then some (digitValue c)
  else if 'a' ≤ c && c ≤ 'f' then some (c.toNat - 'a'.toNat + 10)
  else if 'A' ≤ c && c ≤ 'F' then some (c.toNat - 'A'.toNat + 10)
  else none

/-- The number that four hexadecimal digits spell. -/
def hex4 (cs : List Char) : Scan (Nat × List Char) :=
  if byteSize cs < 4 then truncated
  else
    match (cs.take 4).mapM hexValue? with
    | some [a, b, c, d] => .ok (((a * 16 + b) * 16 + c) * 16 + d, cs.drop 4)
    | _ => malformed

/-- First half of a pair of surrogates. -/
def isHighSurrogate (n : Nat) : Bool := 0xD800 ≤ n && n ≤ 0xDBFF

/-- Second half of a pair of surrogates. -/
def isLowSurrogate (n : Nat) : Bool := 0xDC00 ≤ n && n ≤ 0xDFFF

/-- The character of an escaped code unit, together with its counterpart if it is a surrogate. -/
def unicodeEscape (cs : List Char) : Scan (Char × List Char) := do
  let (n, cs) ← hex4 cs
  if isLowSurrogate n then malformed
  else if isHighSurrogate n then
    let cs ← keyword ['\\', 'u'] cs
    let (m, cs) ← hex4 cs
    if isLowSurrogate m then
      return (Char.ofNat (0x10000 + (n - 0xD800) * 0x400 + (m - 0xDC00)), cs)
    else malformed
  else return (Char.ofNat n, cs)

/-- The character of an escape behind its backslash. A skipped string takes any four digits. -/
def escapeSequence (skipped : Bool) : List Char → Scan (Char × List Char)
  | [] => truncated
  | c :: cs =>
    match c with
    | '"' => .ok ('"', cs)
    | '\\' => .ok ('\\', cs)
    | '/' => .ok ('/', cs)
    | 'b' => .ok ('\x08', cs)
    | 'f' => .ok ('\x0c', cs)
    | 'n' => .ok ('\n', cs)
    | 'r' => .ok ('\r', cs)
    | 't' => .ok ('\t', cs)
    | 'u' =>
      if skipped then (hex4 cs).map fun (_, rest) => ('?', rest)
      else unicodeEscape cs
    | _ => malformed

/-- The characters of a string behind its opening quote; `fuel` bounds their number. -/
def stringFrom (skipped : Bool) : (fuel : Nat) → List Char → Scan (List Char × List Char)
  | 0, _ => truncated
  | _ + 1, [] => truncated
  | fuel + 1, c :: cs =>
    if c = '"' then .ok ([], cs)
    else if c = '\\' then do
      let (d, cs) ← escapeSequence skipped cs
      let (rest, cs) ← stringFrom skipped fuel cs
      return (d :: rest, cs)
    else if c.toNat < 0x20 then malformed
    else do
      let (rest, cs) ← stringFrom skipped fuel cs
      return (c :: rest, cs)

/-- A string behind its opening quote. -/
def string (skipped : Bool) (cs : List Char) : Scan (String × List Char) := do
  let (chars, cs) ← stringFrom skipped (cs.length + 1) cs
  return (String.ofList chars, cs)

/-! ## Numbers -/

/-- One digit or more. A number that breaks off is truncated if it is read, and malformed if it is
skipped. -/
def digitRow (skipped : Bool) (cs : List Char) : Scan (List Char × List Char) :=
  let row := cs.takeWhile isDigit
  if row.isEmpty then
    if cs.isEmpty && !skipped then truncated else malformed
  else .ok (row, cs.dropWhile isDigit)

/-- The digits in front of the point, without leading zeros. -/
def wholePart (skipped : Bool) (cs : List Char) : Scan (List Char × List Char) := do
  let (row, cs) ← digitRow skipped cs
  if row.head? == some '0' && 1 < row.length then malformed else return (row, cs)

/-- The digits behind the point, if there is one. -/
def fractionPart (skipped : Bool) : List Char → Scan (List Char × List Char)
  | '.' :: cs => digitRow skipped cs
  | cs => .ok ([], cs)

/-- The exponent, if there is one. -/
def exponentPart (skipped : Bool) : List Char → Scan (Int × List Char)
  | c :: cs =>
    if c = 'e' ∨ c = 'E' then do
      let (sign, cs) : Int × List Char := match cs with
        | '+' :: cs => (1, cs)
        | '-' :: cs => (-1, cs)
        | cs => (1, cs)
      let (row, cs) ← digitRow skipped cs
      return (sign * ofDigits row, cs)
    else .ok (0, c :: cs)
  | [] => .ok (0, [])

/-- Append digits to the number `n` as long as it fits into 64 bits; returns the number and the
digits that are left. -/
def leadingDigits (n : Nat) : List Char → Nat × List Char
  | [] => (n, [])
  | c :: cs =>
    let next := 10 * n + digitValue c
    if next < UInt64.size then leadingDigits next cs else (n, c :: cs)

/-- The largest exponent for which a power of ten is a double. -/
def maxPowerOfTen : Nat := 308

/-- Whether a number is beyond the range of doubles. Numbers are scaled and not rounded once: the
leading digits and the power of ten are taken as doubles, and their product counts. -/
def isBeyondRange (whole fraction : List Char) (exponent : Int) : Bool :=
  let (n, dropped) := leadingDigits 0 whole
  let (n, unread) := leadingDigits n fraction
  let places : Int := exponent + dropped.length + unread.length - fraction.length
  if n = 0 then false
  else
    match places with
    | .negSucc _ => false
    | .ofNat p =>
      maxPowerOfTen < p ||
        Binary64.roundMagnitude (Binary64.roundNat n * Binary64.roundNat (Nat.pow 10 p)) 1
          == Binary64.infinity

/-- A number behind its sign. -/
def number (skipped : Bool) (cs : List Char) : Scan (List Char) := do
  let (whole, cs) ← wholePart skipped cs
  let (fraction, cs) ← fractionPart skipped cs
  let (exponent, cs) ← exponentPart skipped cs
  if !skipped && isBeyondRange whole fraction exponent then malformed
  else return cs

/-! ## Values of any shape -/

/-- As much of a value as a schema document can ask about. -/
inductive Outline where
  | null
  | string (s : String)
  /-- An object by its keys and values. -/
  | object (members : List (String × Outline))
  | other

/-- Reads a value off the front of a text. -/
abbrev ValueScan := List Char → Scan (Outline × List Char)

/-- The items of an array behind its bracket; `first` tells whether none has been read. -/
def items (value : ValueScan) : (fuel : Nat) → (first : Bool) → List Char → Scan (List Char)
  | 0, _, _ => truncated
  | fuel + 1, first, cs =>
    match skipSpace cs with
    | [] => truncated
    | ']' :: cs => .ok cs
    | c :: cs => do
      let start ← if first then pure (c :: cs) else if c = ',' then pure cs else malformed
      let (_, cs) ← value start
      items value fuel false cs

/-- The key of a member and the colon behind it. -/
def memberKey (skipped : Bool) (cs : List Char) : Scan (String × List Char) :=
  match skipSpace cs with
  | [] => truncated
  | '"' :: cs => string skipped cs
  | _ => malformed

/-- The colon between a key and its value. -/
def colon (cs : List Char) : Scan (List Char) :=
  match skipSpace cs with
  | [] => truncated
  | ':' :: cs => .ok cs
  | _ => malformed

/-- The members of an object behind its brace. -/
def members (skipped : Bool) (value : ValueScan) :
    (fuel : Nat) → (first : Bool) → List Char → Scan (List (String × Outline) × List Char)
  | 0, _, _ => truncated
  | fuel + 1, first, cs =>
    match skipSpace cs with
    | [] => truncated
    | '}' :: cs => .ok ([], cs)
    | c :: cs => do
      let start ← if first then pure (c :: cs) else if c = ',' then pure cs else malformed
      let (key, cs) ← memberKey skipped start
      let cs ← colon cs
      let (v, cs) ← value cs
      let (rest, cs) ← members skipped value fuel false cs
      return ((key, v) :: rest, cs)

/-- A value of any shape; `inner` takes the values nested in it, if they may nest. -/
def valueAt (skipped : Bool) (inner : Option ValueScan) (cs : List Char) :
    Scan (Outline × List Char) :=
  match skipSpace cs with
  | [] => truncated
  | c :: cs =>
    match c with
    | 'n' => (keyword ['u', 'l', 'l'] cs).map (Outline.null, ·)
    | 't' => (keyword ['r', 'u', 'e'] cs).map (Outline.other, ·)
    | 'f' => (keyword ['a', 'l', 's', 'e'] cs).map (Outline.other, ·)
    | '"' => (string skipped cs).map fun (s, cs) => (Outline.string s, cs)
    | '-' => (number skipped cs).map (Outline.other, ·)
    | '[' =>
      match inner with
      | none => malformed
      | some value => (items value (cs.length + 1) true cs).map (Outline.other, ·)
    | '{' =>
      match inner with
      | none => malformed
      | some value => (members skipped value (cs.length + 1) true cs).map fun (ms, cs) =>
          (Outline.object ms, cs)
    | _ => if isDigit c then (number skipped (c :: cs)).map (Outline.other, ·) else malformed

/-- A value whose arrays and objects nest at most `levels` deep. -/
def value (skipped : Bool) : (levels : Nat) → ValueScan
  | 0 => valueAt skipped none
  | levels + 1 => valueAt skipped (some (value skipped levels))

/-- Pass a value of any shape and depth. -/
def skipValue (cs : List Char) : Scan (List Char) := (value true cs.length cs).map (·.2)

end FilterQuery.JsonScan
