set_option autoImplicit false

/-! # Double-precision numbers

A double is the 64-bit word of the IEEE-754 format `binary64`. The library reads, compares and
writes doubles and never computes with them, so the word itself is the number: its fields are taken
out in natural-number arithmetic, and no machine operation on floating-point values is involved.

A finite number is `significand · 2 ^ (scale - 1074)` up to its sign. -/

namespace FilterQuery

structure Binary64 where
  bits : UInt64
  deriving DecidableEq, Repr

namespace Binary64

/-- Number of bits of the stored fraction. -/
def fractionBits : Nat := 52

/-- One in the lowest place of the exponent field, which is above the fraction. -/
def fractionUnit : Nat := Nat.pow 2 fractionBits

/-- One in the place of the sign, which is the topmost. -/
def signUnit : Nat := Nat.pow 2 63

/-- The exponent field of infinities and of values that are no number. -/
def specialExponent : Nat := 2047

def isNegative (x : Binary64) : Bool := signUnit ≤ x.bits.toNat

/-- The word without its sign. -/
def magnitudeBits (x : Binary64) : Nat := x.bits.toNat % signUnit

def exponentField (x : Binary64) : Nat := x.magnitudeBits / fractionUnit

def fractionField (x : Binary64) : Nat := x.magnitudeBits % fractionUnit

def isFinite (x : Binary64) : Bool := x.exponentField < specialExponent

def isNaN (x : Binary64) : Bool := x.exponentField == specialExponent && x.fractionField != 0

def isZero (x : Binary64) : Bool := x.magnitudeBits == 0

/-- The significand of a finite number, with the leading bit that the word leaves out. -/
def significand (x : Binary64) : Nat :=
  if x.exponentField = 0 then x.fractionField else fractionUnit + x.fractionField

/-- The power of two of a finite number, counted from the smallest one. -/
def scale (x : Binary64) : Nat := x.exponentField - 1

/-- The number with the given sign and magnitude word. -/
def ofMagnitude (negative : Bool) (magnitude : Nat) : Binary64 :=
  ⟨UInt64.ofNat ((if negative then signUnit else 0) + magnitude)⟩

/-- The magnitude word of infinity. -/
def infinity : Nat := specialExponent * fractionUnit

/-- Equality of the numbers: the zeros are equal, and what is no number equals nothing. -/
def numEq (x y : Binary64) : Bool :=
  !x.isNaN && !y.isNaN && (x.bits == y.bits || (x.isZero && y.isZero))

end Binary64

end FilterQuery
