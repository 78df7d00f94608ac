import FilterQuery.Number.Binary64
import FilterQuery.Text.Ascii

set_option autoImplicit false

/-! # Decimal texts of doubles

Reading rounds a decimal to the nearest double, a tie going to the even significand, and a decimal
beyond the range to infinity. Writing takes the fewest digits that read back as the same double and,
of two candidates with so many digits, the nearer one, upwards on a tie. The text is positional:
there is never an exponent.

Both directions are exact. Every finite double is a multiple of `2 ^ (-1076)`, hence a whole number
of units of `10 ^ (-1076)`, and so are the ends of the interval of reals that round to it. -/

namespace FilterQuery.Binary64

open FilterQuery.Text

/-! ## Reading -/

/-- The quotient rounded to the nearest natural number, a tie to the even one. -/
def roundQuotient (num den : Nat) : Nat :=
  let q := num / den
  let doubled := 2 * (num % den)
  if doubled < den then q
  else if den < doubled then q + 1
  else q + q % 2

/-- The scale at which `num / den` has a significand of 53 bits; zero for the numbers too small for
that. In units of the smallest double the number is `num * 2 ^ 1074 / den`. -/
def scaleOf (num den : Nat) : Nat := (num * Nat.pow 2 1074 / den).log2 - fractionBits

/-- The magnitude word of the double nearest to `num / den`. The carry of a significand that rounds
up to the next power of two lands in the exponent field, where it belongs. -/
def roundMagnitude (num den : Nat) : Nat :=
  let s := scaleOf num den
  let word := s * fractionUnit + roundQuotient (num * Nat.pow 2 1074) (den * Nat.pow 2 s)
  min word infinity

/-- The double nearest to a natural number in range. It is a natural number itself. -/
def roundNat (n : Nat) : Nat :=
  let x := ofMagnitude false (roundMagnitude n 1)
  x.significand * Nat.pow 2 x.scale / Nat.pow 2 1074

/-- The double that `whole.fraction` spells, both given as digits. -/
def ofDecimal (negative : Bool) (whole fraction : List Char) : Binary64 :=
  ofMagnitude negative (roundMagnitude (ofDigits (whole ++ fraction)) (Nat.pow 10 fraction.length))

/-! ## Writing -/

/-- A decimal number `digits · 10 ^ exponent`. -/
structure Decimal where
  digits : Nat
  exponent : Int
  deriving DecidableEq, Repr

/-- Decimal places that are enough for every finite double and for the ends of its interval. -/
def unitPlaces : Nat := 1076

/-- The magnitude in units of `10 ^ (-1076)`. -/
def units (x : Binary64) : Nat := 4 * x.significand * Nat.pow 2 x.scale * Nat.pow 5 unitPlaces

/-- Distance to the upper end of the interval of reals that round to the number. -/
def upperGap (x : Binary64) : Nat := 2 * Nat.pow 2 x.scale * Nat.pow 5 unitPlaces

/-- Distance to the lower end: half as wide below a power of two, where the doubles get denser. -/
def lowerGap (x : Binary64) : Nat :=
  if x.fractionField = 0 ∧ 1 < x.exponentField then Nat.pow 2 x.scale * Nat.pow 5 unitPlaces
  else x.upperGap

/-- Whether a number of units reads back as `x`: the ends belong to an even significand. -/
def readsBack (x : Binary64) (n : Nat) : Bool :=
  let lo := x.units - x.lowerGap
  let hi := x.units + x.upperGap
  if x.significand % 2 = 0 then lo ≤ n && n ≤ hi else lo < n && n < hi

/-- The neighbour of `x` on the grid of multiples of `step` that reads back and is nearer; upwards
on a tie. -/
def onGrid? (x : Binary64) (step : Nat) : Option Nat :=
  let below := x.units / step
  let down := x.readsBack (below * step)
  let up := x.readsBack ((below + 1) * step)
  if up && (!down || step ≤ 2 * (x.units % step)) then some (below + 1)
  else if down then some below
  else none

/-- Try finer and finer grids below `10 ^ places` units. -/
def shortestFrom (x : Binary64) : Nat → Decimal
  | 0 => ⟨x.units, -unitPlaces⟩
  | places + 1 =>
    match x.onGrid? (Nat.pow 10 places) with
    | some digits => ⟨digits, (places : Int) - unitPlaces⟩
    | none => shortestFrom x places

/-- The shortest decimal that reads back as the finite number `x`. -/
def shortest (x : Binary64) : Decimal := x.shortestFrom (natDigits x.units).length

/-- Positional notation of a decimal. -/
def Decimal.positional (d : Decimal) : List Char :=
  let digits := natDigits d.digits
  match d.exponent with
  | .ofNat n => digits ++ List.replicate n '0'
  | .negSucc n =>
    let places := n + 1
    let filled := List.replicate (places + 1 - digits.length) '0' ++ digits
    let wholeLength := filled.length - places
    -- Trailing zeros behind the point carry nothing.
    let fraction := ((filled.drop wholeLength).reverse.dropWhile (· == '0')).reverse
    if fraction.isEmpty then filled.take wholeLength
    else filled.take wholeLength ++ '.' :: fraction

/-- The text of a double. A finite number always shows a fraction, `.0` if need be. -/
def text (x : Binary64) : List Char :=
  if x.isNaN then ['N', 'a', 'N']
  else
    let unsigned :=
      if !x.isFinite then ['i', 'n', 'f']
      else
        let digits := if x.isZero then ['0'] else x.shortest.positional
        if digits.contains '.' then digits else digits ++ ['.', '0']
    if x.isNegative then '-' :: unsigned else unsigned

end FilterQuery.Binary64
