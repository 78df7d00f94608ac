set_option autoImplicit false

/-! # ASCII digits and letters, and the numbers they spell

The grammar of the language is written in ASCII: digits, letters and a few marks. Digits of other
scripts are ordinary text, so every test here is on the ASCII range alone. -/

namespace FilterQuery.Text

def isDigit (c : Char) : Bool := '0' ≤ c && c ≤ '9'

def isLetter (c : Char) : Bool := ('a' ≤ c && c ≤ 'z') || ('A' ≤ c && c ≤ 'Z')

/-- The ASCII capitals become small letters; every other character stays. -/
def lowerAscii (c : Char) : Char :=
  if 'A' ≤ c && c ≤ 'Z' then Char.ofNat (c.toNat + 32) else c

/-- The value of a digit. -/
def digitValue (c : Char) : Nat := c.toNat - '0'.toNat

/-- The digit of a value below ten. -/
def digitChar (n : Nat) : Char := Char.ofNat ('0'.toNat + n % 10)

/-- The number that a row of digits spells, most significant digit first. -/
def ofDigits (cs : List Char) : Nat := cs.foldl (fun n c => 10 * n + digitValue c) 0

/-- One or more digits and nothing else. -/
def allDigits (cs : List Char) : Bool := !cs.isEmpty && cs.all isDigit

/-- Exactly `n` digits. -/
def areDigits (n : Nat) (cs : List Char) : Bool := cs.length == n && cs.all isDigit

/-- Decimal digits of `n`, most significant first, at least `width` of them. -/
def padded (width n : Nat) : List Char :=
  let digits := Nat.toDigits 10 n
  List.replicate (width - digits.length) '0' ++ digits

/-- Decimal digits of `n`. -/
def natDigits (n : Nat) : List Char := Nat.toDigits 10 n

/-- An unsigned number below `bound`: an optional plus sign and one or more digits. -/
def readUnsigned (bound : Nat) (cs : List Char) : Option Nat :=
  let digits := match cs with
    | '+' :: rest => rest
    | _ => cs
  if allDigits digits && ofDigits digits < bound then some (ofDigits digits) else none

end FilterQuery.Text
