import FilterQuery.Number.Decimal
import Mathlib.Tactic.Linarith
import Mathlib.Tactic.Ring

set_option autoImplicit false

/-! # Rounding to doubles

A decimal is read as the double nearest to it. In units of the smallest double, `num / den` is
`num * 2 ^ 1074 / den`, and its scale is the power of two at which the quotient has 53 bits. All
comparisons are multiplied out, so that they are about natural numbers.

The reals that round to a finite number are an interval around it. `Reaches` says that a quotient is
in that interval, and `roundMagnitude_eq` that it is then rounded to the number. Below a power of
two the scale of the quotient may be one less than that of the number; the significand rounds up to
the next power of two there, and the carry makes up for it. The numbers that round to infinity start
half a step above the largest double (`roundMagnitude_lt_infinity_iff`). -/

namespace FilterQuery.Binary64

variable {x : Binary64} {num den g n : Nat}

/-! ## Words and their parts -/

/-- A word is its sign and its magnitude. -/
theorem ofMagnitude_magnitudeBits (x : Binary64) :
    ofMagnitude x.isNegative x.magnitudeBits = x := by
  obtain ⟨bits⟩ := x
  have hlt : bits.toNat < 2 * signUnit := bits.toNat_lt
  have hword : (if isNegative ⟨bits⟩ then signUnit else 0) + magnitudeBits ⟨bits⟩ = bits.toNat := by
    simp only [isNegative, magnitudeBits, decide_eq_true_eq]
    split
    · next hsign =>
      rw [Nat.mod_eq_sub_mod hsign, Nat.mod_eq_of_lt (by omega)]
      omega
    · next hsign => rw [Nat.mod_eq_of_lt (by omega), Nat.zero_add]
  rw [ofMagnitude, hword, UInt64.ofNat_toNat]

theorem magnitudeBits_ofMagnitude (negative : Bool) (h : n < signUnit) :
    (ofMagnitude negative n).magnitudeBits = n := by
  have hlt : (if negative then signUnit else 0) + n < UInt64.size := by
    have hsize : UInt64.size = signUnit + signUnit := by decide
    split <;> omega
  rw [magnitudeBits, ofMagnitude, UInt64.toNat_ofNat_of_lt' hlt]
  split
  · rw [Nat.add_mod_left, Nat.mod_eq_of_lt h]
  · rw [Nat.zero_add, Nat.mod_eq_of_lt h]

theorem isFinite_iff (x : Binary64) : x.isFinite = true ↔ x.magnitudeBits < infinity := by
  rw [isFinite, decide_eq_true_eq, exponentField, infinity]
  exact Nat.div_lt_iff_lt_mul (by decide)

/-- The word of a magnitude counts the significands from the smallest number on. -/
theorem magnitudeBits_eq (x : Binary64) :
    x.magnitudeBits = x.scale * fractionUnit + x.significand := by
  have hparts : fractionUnit * x.exponentField + x.fractionField = x.magnitudeBits :=
    Nat.div_add_mod _ _
  rw [← hparts, scale, significand]
  split
  · next hzero => simp [hzero]
  · next hpos =>
    obtain ⟨e, he⟩ := Nat.exists_eq_succ_of_ne_zero hpos
    rw [he]
    simp only [Nat.succ_eq_add_one, Nat.add_sub_cancel]
    ring

theorem significand_lt (x : Binary64) : x.significand < 2 * fractionUnit := by
  have hfraction : x.fractionField < fractionUnit := Nat.mod_lt _ (by decide)
  rw [significand]
  split <;> omega

/-- Only the numbers of the smallest scale have fewer than 53 bits. -/
theorem le_significand (h : x.scale ≠ 0) : fractionUnit ≤ x.significand := by
  rw [scale] at h
  rw [significand, if_neg (by omega)]
  exact Nat.le_add_right _ _

theorem significand_pos (h : x.isZero = false) : 0 < x.significand := by
  have hword := x.magnitudeBits_eq
  have hne : x.magnitudeBits ≠ 0 := by simpa [isZero] using h
  by_contra hzero
  have hscale : x.scale = 0 := by
    by_contra hscale
    have hle := le_significand hscale
    have hunit : 0 < fractionUnit := by decide
    omega
  rw [hscale] at hword
  omega

/-! ## Rounded quotients -/

/-- A quotient half a step below a number, or nearer, rounds to that number at least; a tie counts
for an even number only. -/
theorem le_roundQuotient (hden : 0 < den) (h : 2 * (g * den) ≤ 2 * num + den)
    (htie : 2 * (g * den) = 2 * num + den → g % 2 = 0) : g ≤ roundQuotient num den := by
  have hdiv : num / den * den + num % den = num := Nat.div_add_mod' num den
  have hmod := Nat.mod_lt num hden
  simp only [roundQuotient]
  generalize num / den = q at hdiv ⊢
  generalize num % den = r at hdiv hmod ⊢
  -- Were the result smaller, a whole step would be too much for the remainder.
  have hstep (k : Nat) (hk : q + k ≤ g) : q * den + k * den ≤ g * den := by
    rw [← Nat.add_mul]
    exact Nat.mul_le_mul_right den hk
  by_contra hsmall
  split_ifs at hsmall with hlt hgt
  · have hone := hstep 1 (by omega)
    omega
  · have htwo := hstep 2 (by omega)
    omega
  · have hone := hstep 1 (by omega)
    by_cases hnext : g = q + 1
    · have heven := htie (by rw [hnext, Nat.add_mul]; omega)
      omega
    · have htwo := hstep 2 (by omega)
      omega

/-- A quotient half a step above a number, or nearer, rounds to that number at most. -/
theorem roundQuotient_le (hden : 0 < den) (h : 2 * num ≤ 2 * (g * den) + den)
    (htie : 2 * num = 2 * (g * den) + den → g % 2 = 0) : roundQuotient num den ≤ g := by
  have hdiv : num / den * den + num % den = num := Nat.div_add_mod' num den
  have hmod := Nat.mod_lt num hden
  simp only [roundQuotient]
  generalize num / den = q at hdiv ⊢
  generalize num % den = r at hdiv hmod ⊢
  have hstep (k : Nat) (hk : g + k ≤ q) : g * den + k * den ≤ q * den := by
    rw [← Nat.add_mul]
    exact Nat.mul_le_mul_right den hk
  by_contra hlarge
  split_ifs at hlarge with hlt hgt
  · have hone := hstep 1 (by omega)
    omega
  · have hzero := hstep 0 (by omega)
    omega
  · by_cases hsame : g = q
    · have heven := htie (by rw [hsame]; omega)
      omega
    · have hone := hstep 1 (by omega)
      omega

theorem roundQuotient_le_of_le (hden : 0 < den) (h : num ≤ g * den) : roundQuotient num den ≤ g :=
  roundQuotient_le hden (by omega) (by omega)

theorem le_roundQuotient_of_le (hden : 0 < den) (h : g * den ≤ num) : g ≤ roundQuotient num den :=
  le_roundQuotient hden (by omega) (by omega)

/-! ## Scales -/

variable {s t : Nat}

theorem two_mul_scaled_le (den : Nat) (h : s < t) :
    2 * (fractionUnit * (den * Nat.pow 2 s)) ≤ fractionUnit * (den * Nat.pow 2 t) := by
  have hpow : Nat.pow 2 s * 2 ≤ Nat.pow 2 t := Nat.pow_le_pow_right Nat.two_pos h
  calc 2 * (fractionUnit * (den * Nat.pow 2 s))
      = fractionUnit * (den * (Nat.pow 2 s * 2)) := by ring
    _ ≤ fractionUnit * (den * Nat.pow 2 t) :=
        Nat.mul_le_mul_left _ (Nat.mul_le_mul_left _ hpow)

/-- At its scale a quotient has at most 53 bits. -/
theorem lt_scaleOf (num : Nat) (hden : 0 < den) :
    num * Nat.pow 2 1074 < 2 * (fractionUnit * (den * Nat.pow 2 (scaleOf num den))) := by
  unfold scaleOf
  generalize num * Nat.pow 2 1074 = a
  have hquotient : a / den < 2 ^ (fractionBits + ((a / den).log2 - fractionBits) + 1) :=
    lt_of_lt_of_le Nat.lt_log2_self (Nat.pow_le_pow_right (by decide) (by omega))
  rw [Nat.div_lt_iff_lt_mul hden, Nat.pow_succ, Nat.pow_add] at hquotient
  refine lt_of_lt_of_eq hquotient ?_
  simp only [fractionUnit, Nat.pow_eq]
  ring

/-- At its scale a quotient has 53 bits, but for the smallest scale. -/
theorem le_scaleOf (hden : 0 < den) (h : scaleOf num den ≠ 0) :
    fractionUnit * (den * Nat.pow 2 (scaleOf num den)) ≤ num * Nat.pow 2 1074 := by
  unfold scaleOf at h ⊢
  generalize num * Nat.pow 2 1074 = a at h ⊢
  have hne : a / den ≠ 0 := by
    intro hzero
    rw [hzero] at h
    exact h rfl
  have hquotient : 2 ^ (fractionBits + ((a / den).log2 - fractionBits)) ≤ a / den := by
    rw [show fractionBits + ((a / den).log2 - fractionBits) = (a / den).log2 by omega]
    exact Nat.log2_self_le hne
  rw [Nat.le_div_iff_mul_le hden, Nat.pow_add] at hquotient
  refine le_of_eq_of_le ?_ hquotient
  simp only [fractionUnit, Nat.pow_eq]
  ring

/-- There is one scale only at which a quotient has 53 bits. -/
theorem scaleOf_eq (hden : 0 < den)
    (hlt : num * Nat.pow 2 1074 < 2 * (fractionUnit * (den * Nat.pow 2 s)))
    (hle : s ≠ 0 → fractionUnit * (den * Nat.pow 2 s) ≤ num * Nat.pow 2 1074) :
    scaleOf num den = s := by
  rcases Nat.lt_trichotomy (scaleOf num den) s with hless | heq | hmore
  · have hstep := two_mul_scaled_le den hless
    have hbelow := lt_scaleOf num hden
    have habove := hle (by omega)
    omega
  · exact heq
  · have hstep := two_mul_scaled_le den hmore
    have habove := le_scaleOf hden (Nat.ne_zero_of_lt hmore)
    omega

/-! ## The interval of a number -/

/-- Distance from a number to the lower end of its interval, in quarters of a step. Below a power of
two the steps are half as wide. -/
def lowerQuarters (x : Binary64) : Nat :=
  if x.fractionField = 0 ∧ 1 < x.exponentField then 1 else 2

/-- A number lies in the interval of `x`, the steps of which are given: not more than half a step
from it, and nearer if the significand is odd. -/
structure Reaches (x : Binary64) (a step : Nat) : Prop where
  lower : 4 * (x.significand * step) ≤ 4 * a + x.lowerQuarters * step
  upper : 4 * a ≤ 4 * (x.significand * step) + 2 * step
  lower_tie : 4 * (x.significand * step) = 4 * a + x.lowerQuarters * step → x.significand % 2 = 0
  upper_tie : 4 * a = 4 * (x.significand * step) + 2 * step → x.significand % 2 = 0

theorem lowerQuarters_cases (x : Binary64) :
    x.lowerQuarters = 1 ∨ x.lowerQuarters = 2 := by
  unfold lowerQuarters
  split
  · exact .inl rfl
  · exact .inr rfl

/-- The smallest significand of a scale is a power of two. -/
theorem lowerQuarters_eq_one (hscale : x.scale ≠ 0) (h : x.significand = fractionUnit) :
    x.lowerQuarters = 1 := by
  have hexponent : 1 < x.exponentField := by
    rw [scale] at hscale
    omega
  rw [significand, if_neg (by omega)] at h
  exact if_pos ⟨by omega, hexponent⟩

namespace Reaches

variable {a step : Nat}

theorem roundQuotient_eq (hstep : 0 < step) (h : x.Reaches a step) :
    roundQuotient a step = x.significand := by
  obtain ⟨hlower, hupper, hlowerTie, hupperTie⟩ := h
  refine le_antisymm (roundQuotient_le hstep (by omega) fun htie => hupperTie (by omega)) ?_
  rcases x.lowerQuarters_cases with hone | htwo
  · rw [hone] at hlower
    exact le_roundQuotient hstep (by omega) (by omega)
  · rw [htwo] at hlower hlowerTie
    exact le_roundQuotient hstep (by omega) fun htie => hlowerTie (by omega)

theorem lt_two_mul (hstep : 0 < step) (h : x.Reaches a step) : a < 2 * (fractionUnit * step) := by
  have hupper := h.upper
  have hlargest : (x.significand + 1) * step ≤ 2 * fractionUnit * step :=
    Nat.mul_le_mul_right step x.significand_lt
  rw [Nat.add_mul, Nat.mul_assoc] at hlargest
  omega

/-- What is less than all numbers of the scale reaches the smallest of them only. -/
theorem significand_eq (hscale : x.scale ≠ 0) (h : x.Reaches a step)
    (hless : a < fractionUnit * step) : x.significand = fractionUnit := by
  by_contra hne
  have hlower := h.lower
  have hnext : (fractionUnit + 1) * step ≤ x.significand * step :=
    Nat.mul_le_mul_right step (lt_of_le_of_ne (le_significand hscale) (Ne.symm hne))
  rw [Nat.add_mul] at hnext
  rcases x.lowerQuarters_cases with hquarters | hquarters <;> rw [hquarters] at hlower <;> omega

/-- Just below a power of two, a number is among those of the scale below and rounds up to that
power. -/
theorem roundQuotient_half (hstep : 0 < step) (hscale : x.scale ≠ 0) (h : x.Reaches a (2 * step))
    (hless : a < fractionUnit * (2 * step)) :
    fractionUnit * step ≤ a ∧ roundQuotient a step = 2 * fractionUnit := by
  have hpower := h.significand_eq hscale hless
  have hlower := h.lower
  rw [lowerQuarters_eq_one hscale hpower, hpower] at hlower
  have hone : 1 * step ≤ fractionUnit * step := Nat.mul_le_mul_right _ (by decide)
  have hdouble : fractionUnit * (2 * step) = 2 * (fractionUnit * step) := Nat.mul_left_comm _ _ _
  have hassoc : 2 * fractionUnit * step = 2 * (fractionUnit * step) := Nat.mul_assoc _ _ _
  refine ⟨by omega, le_antisymm ?_ ?_⟩
  · exact roundQuotient_le hstep (by omega) fun _ => Nat.mul_mod_right _ _
  · exact le_roundQuotient hstep (by omega) fun _ => Nat.mul_mod_right _ _

end Reaches

/-- **What reaches a finite number rounds to it.** -/
theorem roundMagnitude_eq (hx : x.isFinite = true) (hden : 0 < den)
    (h : x.Reaches (num * Nat.pow 2 1074) (den * Nat.pow 2 x.scale)) :
    roundMagnitude num den = x.magnitudeBits := by
  have hpow (k : Nat) : 0 < den * Nat.pow 2 k := Nat.mul_pos hden (Nat.pow_pos (by decide))
  have hword : scaleOf num den * fractionUnit +
      roundQuotient (num * Nat.pow 2 1074) (den * Nat.pow 2 (scaleOf num den)) =
        x.magnitudeBits := by
    rw [x.magnitudeBits_eq]
    by_cases hless : x.scale ≠ 0 ∧
        num * Nat.pow 2 1074 < fractionUnit * (den * Nat.pow 2 x.scale)
    · -- Just below a power of two the quotient has the scale below, and rounds up to that power.
      obtain ⟨hscale, hless⟩ := hless
      obtain ⟨s, hs⟩ := Nat.exists_eq_succ_of_ne_zero hscale
      have hhalf : den * Nat.pow 2 x.scale = 2 * (den * Nat.pow 2 s) := by
        rw [hs]
        show den * (Nat.pow 2 s * 2) = _
        ring
      have hpower := h.significand_eq hscale hless
      rw [hhalf] at h hless
      obtain ⟨hle, hround⟩ := h.roundQuotient_half (hpow s) hscale hless
      have hlt : num * Nat.pow 2 1074 < 2 * (fractionUnit * (den * Nat.pow 2 s)) := by
        rwa [Nat.mul_left_comm] at hless
      have hcarry : s.succ * fractionUnit = s * fractionUnit + fractionUnit := Nat.succ_mul _ _
      rw [scaleOf_eq hden hlt fun _ => hle, hround, hpower, hs]
      omega
    · have hscaleOf : scaleOf num den = x.scale :=
        scaleOf_eq hden (h.lt_two_mul (hpow _)) fun hscale => by
          exact not_lt.1 fun hlt => hless ⟨hscale, hlt⟩
      rw [hscaleOf, h.roundQuotient_eq (hpow _)]
  rw [isFinite_iff] at hx
  rw [roundMagnitude, hword]
  exact min_eq_left hx.le

/-! ## Overflow -/

/-- Half a step above the largest double: `(2 ^ 53 - 1 / 2) · 2 ^ 971`. -/
def overflow : Nat := (Nat.pow 2 54 - 1) * Nat.pow 2 970

/-- The threshold in units of the smallest double, in steps of the largest ones. -/
theorem two_mul_overflow (den : Nat) : 2 * (overflow * den * Nat.pow 2 1074) =
    2 * ((2 * fractionUnit - 1) * (den * Nat.pow 2 2045)) + den * Nat.pow 2 2045 := by
  have hstep : Nat.pow 2 2045 = 2 * (Nat.pow 2 970 * Nat.pow 2 1074) := by decide +kernel
  have hlargest : Nat.pow 2 54 - 1 = 2 * (2 * fractionUnit - 1) + 1 := by decide
  rw [overflow, hstep, hlargest]
  ring

/-- At the scale of the largest doubles, what is below the threshold rounds to one of them. -/
theorem roundQuotient_lt_iff {a step threshold : Nat} (hstep : 0 < step)
    (h : 2 * threshold = 2 * ((2 * fractionUnit - 1) * step) + step) :
    roundQuotient a step < 2 * fractionUnit ↔ a < threshold := by
  have hnext : (2 * fractionUnit - 1 + 1) * step = (2 * fractionUnit - 1) * step + step :=
    Nat.succ_mul _ _
  rw [Nat.sub_add_cancel (by decide)] at hnext
  constructor
  · intro hlt
    by_contra hge
    have hle : 2 * fractionUnit ≤ roundQuotient a step :=
      le_roundQuotient hstep (by omega) fun _ => Nat.mul_mod_right _ _
    omega
  · intro hlt
    have hle : roundQuotient a step ≤ 2 * fractionUnit - 1 :=
      roundQuotient_le hstep (by omega) (by omega)
    have hunit : 0 < fractionUnit := by decide
    omega

/-- With the scale `t` of the largest doubles, a word is finite if the number is below the
threshold. -/
theorem word_lt_infinity_iff {a threshold : Nat} (hden : 0 < den)
    (ht : infinity = t * fractionUnit + 2 * fractionUnit)
    (hthreshold : 2 * threshold =
      2 * ((2 * fractionUnit - 1) * (den * Nat.pow 2 t)) + den * Nat.pow 2 t)
    (hbelow : a < 2 * (fractionUnit * (den * Nat.pow 2 s)))
    (habove : s ≠ 0 → fractionUnit * (den * Nat.pow 2 s) ≤ a) :
    s * fractionUnit + roundQuotient a (den * Nat.pow 2 s) < infinity ↔ a < threshold := by
  have hstep (k : Nat) : 0 < den * Nat.pow 2 k := Nat.mul_pos hden (Nat.pow_pos Nat.two_pos)
  have hpos := hstep t
  have hunit : 0 < fractionUnit := by decide
  have hlargest : (2 * fractionUnit - 1 + 1) * (den * Nat.pow 2 t) =
      (2 * fractionUnit - 1) * (den * Nat.pow 2 t) + den * Nat.pow 2 t := Nat.succ_mul _ _
  rw [Nat.sub_add_cancel (by decide), Nat.mul_assoc] at hlargest
  rcases Nat.lt_trichotomy s t with hless | rfl | hmore
  · -- Too small by a power of two, even if it rounds up.
    have hnext := two_mul_scaled_le den hless
    have hround : roundQuotient a (den * Nat.pow 2 s) ≤ 2 * fractionUnit :=
      roundQuotient_le_of_le (hstep s) (by rw [Nat.mul_assoc]; exact hbelow.le)
    have hword : (s + 1) * fractionUnit ≤ t * fractionUnit := Nat.mul_le_mul_right _ hless
    rw [Nat.succ_mul] at hword
    exact iff_of_true (by omega) (by omega)
  · rw [← roundQuotient_lt_iff hpos hthreshold]
    omega
  · -- Too large by a power of two.
    have hnext := two_mul_scaled_le den hmore
    have hle := habove (Nat.ne_zero_of_lt hmore)
    have hround : fractionUnit ≤ roundQuotient a (den * Nat.pow 2 s) :=
      le_roundQuotient_of_le (hstep s) hle
    have hword : (t + 1) * fractionUnit ≤ s * fractionUnit := Nat.mul_le_mul_right _ hmore
    rw [Nat.succ_mul] at hword
    exact iff_of_false (by omega) (by omega)

/-- **Overflow.** The magnitude that a quotient rounds to is finite below the threshold and infinite
from there on. -/
theorem roundMagnitude_lt_infinity_iff (num : Nat) (hden : 0 < den) :
    roundMagnitude num den < infinity ↔ num < overflow * den := by
  have hpow : ∀ k, 0 < Nat.pow 2 k := fun k => Nat.pow_pos Nat.two_pos
  have hword := word_lt_infinity_iff hden (by decide) (two_mul_overflow den)
    (lt_scaleOf num hden) (le_scaleOf hden)
  rw [roundMagnitude, min_lt_iff, or_iff_left (lt_irrefl _), hword]
  exact Nat.mul_lt_mul_right (hpow 1074)

end FilterQuery.Binary64
