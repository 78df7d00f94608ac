import FilterQuery.Proofs.DoubleRounding
import FilterQuery.Proofs.ValueText

set_option autoImplicit false

/-! # Texts of doubles

The text of a finite double is a sign, a row of digits, a point and another row of digits, and is
read as the same double. The digits are found on a decimal grid, and on every grid only a number
that reads back is taken (`exists_shortest`). A number of units that reads back is in the interval
of the double (`reaches_of_readsBack`), and the positional text has the value of the digits on their
grid (`Decimal.exists_positional`).

A double that is not finite has letters for its text, which no numeral has. -/

namespace FilterQuery

open FilterQuery.Text

/-! ## Rows of digits -/

namespace Text

theorem ofDigits_append_zeros (cs : List Char) (n : Nat) :
    ofDigits (cs ++ List.replicate n '0') = 10 ^ n * ofDigits cs := by
  show Nat.ofDigitChars 10 (cs ++ List.replicate n '0') 0 = 10 ^ n * Nat.ofDigitChars 10 cs 0
  rw [Nat.ofDigitChars_append, Nat.ofDigitChars_replicate_zero]

theorem ofDigits_zeros_append (cs : List Char) (n : Nat) :
    ofDigits (List.replicate n '0' ++ cs) = ofDigits cs := by
  show Nat.ofDigitChars 10 (List.replicate n '0' ++ cs) 0 = Nat.ofDigitChars 10 cs 0
  rw [Nat.ofDigitChars_append, Nat.ofDigitChars_replicate_zero, Nat.mul_zero]

/-- What is cut off the end of a row of digits are zeros. -/
theorem exists_eq_append_zeros (cs : List Char) :
    ∃ n, cs = (cs.reverse.dropWhile (· == '0')).reverse ++ List.replicate n '0' := by
  refine ⟨(cs.reverse.takeWhile (· == '0')).length, ?_⟩
  have hzeros : (cs.reverse.takeWhile (· == '0')).reverse =
      List.replicate (cs.reverse.takeWhile (· == '0')).length '0' := by
    rw [List.eq_replicate_iff]
    refine ⟨List.length_reverse, fun c hc => ?_⟩
    simpa using List.mem_takeWhile_imp (List.mem_reverse.1 hc)
  rw [← hzeros, ← List.reverse_append, List.takeWhile_append_dropWhile, List.reverse_reverse]

end Text

namespace Binary64

variable {x : Binary64} {n num den : Nat}

/-! ## Digits that read back -/

/-- A quarter of a step at the scale of the number, in units. -/
def quarter (x : Binary64) : Nat := Nat.pow 2 x.scale * Nat.pow 5 unitPlaces

theorem quarter_pos (x : Binary64) : 0 < x.quarter := by
  have hpos (k l : Nat) : 0 < Nat.pow 2 k * Nat.pow 5 l :=
    Nat.mul_pos (Nat.pow_pos (by decide)) (Nat.pow_pos (by decide))
  exact hpos x.scale unitPlaces

theorem units_eq (x : Binary64) : x.units = 4 * x.significand * x.quarter := Nat.mul_assoc _ _ _

theorem upperGap_eq (x : Binary64) : x.upperGap = 2 * x.quarter := Nat.mul_assoc _ _ _

theorem lowerGap_eq (x : Binary64) : x.lowerGap = x.lowerQuarters * x.quarter := by
  unfold lowerGap lowerQuarters
  split
  · exact (Nat.one_mul _).symm
  · exact x.upperGap_eq

/-- A number of units reads back within the gaps, and at their ends if the significand is even. -/
theorem readsBack_iff : x.readsBack n = true ↔
    (x.units ≤ n + x.lowerGap ∧ n ≤ x.units + x.upperGap) ∧
      (x.significand % 2 ≠ 0 → 0 < n ∧ x.units < n + x.lowerGap ∧ n < x.units + x.upperGap) := by
  unfold readsBack
  extract_lets lo hi
  split
  · next heven => simp [lo, hi, heven]
  · next hodd =>
    simp only [lo, hi, Bool.and_eq_true, decide_eq_true_eq]
    omega

theorem readsBack_units (h : x.isZero = false) : x.readsBack x.units = true := by
  have hquarter := x.quarter_pos
  have hunits : 0 < x.units := by
    rw [units_eq]
    exact Nat.mul_pos (Nat.mul_pos (by decide) (significand_pos h)) hquarter
  have hlower : 0 < x.lowerGap := by
    rw [lowerGap_eq]
    exact Nat.mul_pos (by rcases x.lowerQuarters_cases with h | h <;> omega) hquarter
  have hupper := x.upperGap_eq
  rw [readsBack_iff]
  omega

/-- Only what reads back is taken from a grid. -/
theorem readsBack_of_onGrid? {step digits : Nat} (h : x.onGrid? step = some digits) :
    x.readsBack (digits * step) = true := by
  unfold onGrid? at h
  extract_lets below down up at h
  split at h
  · next hup =>
    rw [← Option.some.inj h]
    exact (Bool.and_eq_true_iff.1 hup).1
  · split at h
    · next hdown =>
      rw [← Option.some.inj h]
      exact hdown
    · cases h

/-- The digits of a finite number read back, on the grid of their exponent. -/
theorem exists_shortestFrom (h : x.isZero = false) (places : Nat) :
    ∃ p : Nat, (x.shortestFrom places).exponent = (p : Int) - unitPlaces ∧
      x.readsBack ((x.shortestFrom places).digits * Nat.pow 10 p) = true := by
  induction places with
  | zero =>
    refine ⟨0, (Int.zero_sub _).symm, ?_⟩
    show x.readsBack (x.units * 1) = true
    rw [Nat.mul_one]
    exact readsBack_units h
  | succ places ih =>
    unfold shortestFrom
    split
    · next digits hgrid => exact ⟨places, rfl, readsBack_of_onGrid? hgrid⟩
    · exact ih

/-- What reads back is in the interval of the number. A unit is `2 ^ (-1076) · 5 ^ (-1076)`, and a
quarter of the smallest double is the first of these factors. -/
theorem reaches_of_readsBack (hden : 0 < den) (h : x.readsBack n = true)
    (hn : n * den = num * Nat.pow 10 unitPlaces) :
    x.Reaches (num * Nat.pow 2 1074) (den * Nat.pow 2 x.scale) := by
  obtain ⟨⟨hlower, hupper⟩, hodd⟩ := readsBack_iff.1 h
  have hplaces : Nat.pow 10 unitPlaces = 4 * Nat.pow 2 1074 * Nat.pow 5 unitPlaces := by
    decide +kernel
  rw [hplaces] at hn
  have hpower : 0 < Nat.pow 5 unitPlaces := Nat.pos_of_mul_pos_left x.quarter_pos
  -- The two sides of each comparison, multiplied out.
  have hcompare {a b a' b' : Nat} (ha : a' * den = a * Nat.pow 5 unitPlaces)
      (hb : b' * den = b * Nat.pow 5 unitPlaces) : (a' ≤ b' → a ≤ b) ∧ (a = b → a' = b') := by
    constructor
    · intro hle
      refine Nat.le_of_mul_le_mul_right ?_ hpower
      rw [← ha, ← hb]
      exact Nat.mul_le_mul_right den hle
    · intro heq
      refine Nat.eq_of_mul_eq_mul_right hden ?_
      rw [ha, hb, heq]
  have hnumber : n * den = 4 * (num * Nat.pow 2 1074) * Nat.pow 5 unitPlaces := by
    rw [hn]
    ring
  have hunits : x.units * den =
      4 * (x.significand * (den * Nat.pow 2 x.scale)) * Nat.pow 5 unitPlaces := by
    rw [units_eq, quarter]
    ring
  have hfromLower : (n + x.lowerGap) * den = (4 * (num * Nat.pow 2 1074) +
      x.lowerQuarters * (den * Nat.pow 2 x.scale)) * Nat.pow 5 unitPlaces := by
    rw [Nat.add_mul, hnumber, lowerGap_eq, quarter]
    ring
  have hfromUpper : (x.units + x.upperGap) * den =
      (4 * (x.significand * (den * Nat.pow 2 x.scale)) + 2 * (den * Nat.pow 2 x.scale)) *
        Nat.pow 5 unitPlaces := by
    rw [Nat.add_mul, hunits, upperGap_eq, quarter]
    ring
  refine ⟨(hcompare hunits hfromLower).1 hlower, (hcompare hnumber hfromUpper).1 hupper, ?_, ?_⟩
  · intro htie
    have heq := (hcompare hunits hfromLower).2 htie
    omega
  · intro htie
    have heq := (hcompare hnumber hfromUpper).2 htie
    omega

/-! ## Positional texts -/

/-- A positional text is a row of digits, and behind a point another one, that spell the digits of
the decimal on the grid of its exponent. -/
theorem Decimal.exists_positional (d : Decimal) {p : Nat}
    (h : d.exponent = (p : Int) - unitPlaces) :
    ∃ whole fraction, d.positional = (if fraction = [] then whole else whole ++ '.' :: fraction) ∧
      allDigits whole = true ∧ (∀ c ∈ fraction, isDigit c = true) ∧
        d.digits * Nat.pow 10 p * Nat.pow 10 fraction.length =
          ofDigits (whole ++ fraction) * Nat.pow 10 unitPlaces := by
  have hdigits : ∀ c ∈ natDigits d.digits, isDigit c = true := fun c => isDigit_of_mem_toDigits
  have hzeros (n : Nat) : ∀ c ∈ List.replicate n '0', isDigit c = true := by
    intro c hc
    rw [List.eq_of_mem_replicate hc]
    decide
  unfold positional
  extract_lets digits
  split
  · next n hn =>
    refine ⟨digits ++ List.replicate n '0', [], (if_pos rfl).symm, ?_, by simp, ?_⟩
    · have hne : digits ≠ [] := Nat.toDigits_ne_nil
      have hall : (digits ++ List.replicate n '0').all isDigit = true :=
        List.all_eq_true.2 (List.forall_mem_append.2 ⟨hdigits, hzeros n⟩)
      simp [allDigits, hne, hall]
    · have hp : p = n + unitPlaces := by
        rw [hn, Int.ofNat_eq_natCast] at h
        omega
      rw [List.append_nil, ofDigits_append_zeros, ofDigits_natDigits, hp]
      simp only [Nat.pow_eq, pow_add, List.length_nil, pow_zero]
      ring
  · next n hn =>
    extract_lets places filled wholeLength fraction
    have hp : p + places = unitPlaces := by
      rw [hn, Int.negSucc_eq] at h
      omega
    have hlength : places < filled.length := by
      simp only [filled, List.length_append, List.length_replicate]
      omega
    have hall : ∀ c ∈ filled, isDigit c = true := List.forall_mem_append.2 ⟨hzeros _, hdigits⟩
    have hwhole : wholeLength = filled.length - places := rfl
    obtain ⟨cut, hcut⟩ : ∃ cut, filled.drop wholeLength = fraction ++ List.replicate cut '0' :=
      exists_eq_append_zeros _
    have hplaces : fraction.length + cut = places := by
      have hdrop := congrArg List.length hcut
      simp only [List.length_drop, List.length_append, List.length_replicate] at hdrop
      omega
    refine ⟨filled.take wholeLength, fraction, by simp only [List.isEmpty_iff], ?_, ?_, ?_⟩
    · have hne : filled.take wholeLength ≠ [] := by
        refine List.ne_nil_of_length_pos ?_
        rw [List.length_take]
        omega
      have hfront : (filled.take wholeLength).all isDigit = true :=
        List.all_eq_true.2 fun c hc => hall c (List.mem_of_mem_take hc)
      simp [allDigits, hne, hfront]
    · intro c hc
      refine hall c (List.mem_of_mem_drop (i := wholeLength) ?_)
      rw [hcut]
      exact List.mem_append_left _ hc
    · have hfilled : 10 ^ cut * ofDigits (filled.take wholeLength ++ fraction) = d.digits := by
        rw [← ofDigits_append_zeros, List.append_assoc, ← hcut, List.take_append_drop,
          ofDigits_zeros_append, ofDigits_natDigits]
      rw [← hfilled, ← hp, ← hplaces]
      simp only [Nat.pow_eq, pow_add]
      ring

/-- With a fraction added where there is none, the two rows still spell the decimal. -/
theorem Decimal.exists_pointed (d : Decimal) {p : Nat} (h : d.exponent = (p : Int) - unitPlaces) :
    ∃ whole fraction, (if d.positional.contains '.' then d.positional
        else d.positional ++ ['.', '0']) = whole ++ '.' :: fraction ∧
      allDigits whole = true ∧ allDigits fraction = true ∧
        d.digits * Nat.pow 10 p * Nat.pow 10 fraction.length =
          ofDigits (whole ++ fraction) * Nat.pow 10 unitPlaces := by
  obtain ⟨whole, fraction, htext, hwhole, hfraction, hvalue⟩ := d.exists_positional h
  by_cases hempty : fraction = []
  · have hpoint : '.' ∉ whole :=
      not_mem_of_isDigit (fun _ => Shape.isDigit_of_allDigits hwhole) (by decide)
    rw [if_pos hempty] at htext
    rw [htext, if_neg (by simpa using hpoint)]
    refine ⟨whole, ['0'], rfl, hwhole, by decide, ?_⟩
    have hzero : ofDigits (whole ++ ['0']) = 10 ^ 1 * ofDigits whole :=
      ofDigits_append_zeros whole 1
    rw [hempty, List.append_nil] at hvalue
    simp only [Nat.pow_eq, List.length_nil, pow_zero, Nat.mul_one, List.length_singleton,
      pow_one] at hvalue hzero ⊢
    rw [hvalue, hzero]
    ring
  · have hall : fraction.all isDigit = true := List.all_eq_true.2 hfraction
    rw [if_neg hempty] at htext
    rw [htext, if_pos (by simp)]
    exact ⟨whole, fraction, rfl, hwhole, by simp [allDigits, hempty, hall], hvalue⟩

/-! ## Numerals -/

end Binary64

/-- A sign or none, digits, and behind a point more digits or nothing. -/
structure Numeral where
  negative : Bool
  whole : List Char
  fraction : Option (List Char)
  allDigits_whole : allDigits whole = true
  allDigits_fraction : ∀ digits ∈ fraction, allDigits digits = true

namespace Numeral

def unsigned (n : Numeral) : List Char :=
  match n.fraction with
  | none => n.whole
  | some digits => n.whole ++ '.' :: digits

def text (n : Numeral) : List Char := if n.negative then '-' :: n.unsigned else n.unsigned

/-- The whole number in front of the point. -/
def wholeValue (n : Numeral) : Int :=
  if n.negative then -(ofDigits n.whole : Int) else ofDigits n.whole

/-- A whole number is in range if it has 64 bits, and one with a point if it is less than what
rounds to infinity. -/
def InRange (n : Numeral) : Prop :=
  match n.fraction with
  | none => Int64.minValue.toInt ≤ n.wholeValue ∧ n.wholeValue ≤ Int64.maxValue.toInt
  | some digits => ofDigits (n.whole ++ digits) < Binary64.overflow * Nat.pow 10 digits.length

variable {n : Numeral} {cs : List Char} {v : Value}

theorem splitFirst_unsigned (n : Numeral) :
    splitFirst '.' n.unsigned = n.fraction.map (n.whole, ·) := by
  have hpoint : '.' ∉ n.whole :=
    not_mem_of_isDigit (fun _ hc => Shape.isDigit_of_allDigits n.allDigits_whole hc) (by decide)
  unfold unsigned
  split
  · next h => rw [h, splitFirst_eq_none hpoint, Option.map_none]
  · next digits h => rw [h, splitFirst_append hpoint, Option.map_some]

theorem plainText (n : Numeral) : PlainText n.text := by
  have hwhole : PlainText n.whole :=
    .of_isDigit fun _ => Shape.isDigit_of_allDigits n.allDigits_whole
  have hunsigned : PlainText n.unsigned := by
    unfold unsigned
    split
    · exact hwhole
    · next digits h =>
      exact hwhole.append_mark (by decide)
        (.of_isDigit fun _ => Shape.isDigit_of_allDigits (n.allDigits_fraction digits h))
  unfold text
  split
  · exact PlainText.append_mark (.of_subset (List.nil_subset _)) (by decide) hunsigned
  · exact hunsigned

/-- Digits are no sign. -/
theorem unsigned_ne_cons (n : Numeral) (rest : List Char) : n.unsigned ≠ '-' :: rest := by
  obtain ⟨hne, hall⟩ : n.whole ≠ [] ∧ n.whole.all isDigit = true := by
    simpa [allDigits] using n.allDigits_whole
  obtain ⟨c, cs, hwhole⟩ := List.exists_cons_of_ne_nil hne
  have hc : isDigit c = true := List.all_eq_true.1 hall c (hwhole ▸ List.mem_cons_self)
  have hhead : n.unsigned.head? = some c := by
    unfold unsigned
    split <;> simp [hwhole]
  intro heq
  rw [heq] at hhead
  exact ne_of_isDigit hc (by decide) (Option.some.inj hhead).symm

theorem text_cases (n : Numeral) :
    n.negative = true ∧ n.text = '-' :: n.unsigned ∨ n.negative = false ∧ n.text = n.unsigned := by
  unfold text
  cases n.negative with
  | true => exact .inl ⟨rfl, rfl⟩
  | false => exact .inr ⟨rfl, rfl⟩

theorem allDigits_unsigned (h : n.fraction = none) : allDigits n.unsigned = true := by
  rw [unsigned, h]
  exact n.allDigits_whole

theorem isNumber_unsigned (n : Numeral) : Shape.isNumber n.unsigned = true := by
  unfold Shape.isNumber
  split
  · next rest heq => exact absurd heq (n.unsigned_ne_cons rest)
  · simp only [splitFirst_unsigned]
    cases h : n.fraction with
    | none => exact allDigits_unsigned h
    | some digits => simpa [n.allDigits_whole] using n.allDigits_fraction digits h

theorem isNumber_text (n : Numeral) : Shape.isNumber n.text = true := by
  have hunsigned := n.isNumber_unsigned
  obtain ⟨-, htext⟩ | ⟨-, htext⟩ := n.text_cases
  · rw [htext]
    unfold Shape.isNumber at hunsigned
    split at hunsigned
    · next rest heq => exact absurd heq (n.unsigned_ne_cons rest)
    · exact hunsigned
  · rwa [htext]

theorem text_ne_nil (n : Numeral) : n.text ≠ [] := by
  intro hnil
  have hshape := n.isNumber_text
  rw [hnil] at hshape
  cases hshape

/-- A numeral is one bare literal. -/
theorem reads_text (n : Numeral) :
    Token.Reads n.text [.literal (String.ofList n.text) false] := by
  have hreads := (n.plainText.unbroken.isBare n.text_ne_nil).reads rfl Token.reads_nil
  rwa [List.append_nil] at hreads

/-- Every text of the shape of a number is a numeral. -/
theorem exists_text_eq (h : Shape.isNumber cs = true) : ∃ n : Numeral, n.text = cs := by
  unfold Shape.isNumber at h
  extract_lets rest at h
  obtain ⟨negative, hcs⟩ : ∃ negative : Bool, (if negative then '-' :: rest else rest) = cs := by
    unfold rest
    split
    · exact ⟨true, rfl⟩
    · exact ⟨false, rfl⟩
  split at h
  · next whole fraction hsplit =>
    obtain ⟨hwhole, hfraction⟩ : allDigits whole = true ∧ allDigits fraction = true := by
      simpa using h
    refine ⟨⟨negative, whole, some fraction, hwhole, by simpa using hfraction⟩, ?_⟩
    rw [← hcs, (eq_of_splitFirst hsplit).1]
    rfl
  · exact ⟨⟨negative, rest, none, h, by simp⟩, hcs⟩

theorem number_text (n : Numeral) : Literal.number n.text =
    match splitFirst '.' n.unsigned with
    | some (whole, fraction) => .ok (.double (Binary64.ofDecimal n.negative whole fraction))
    | none =>
      let value : Int := if n.negative then -(ofDigits n.unsigned : Int) else ofDigits n.unsigned
      if Int64.minValue.toInt ≤ value ∧ value ≤ Int64.maxValue.toInt then
        .ok (.long (Int64.ofInt value))
      else .error .unknownValueType := by
  obtain ⟨hsign, htext⟩ | ⟨hsign, htext⟩ := n.text_cases
  · rw [htext, hsign]
    rfl
  · rw [htext, hsign]
    unfold Literal.number
    split
    · next negative unsigned hcut =>
      split at hcut
      · next rest heq => exact absurd heq (n.unsigned_ne_cons rest)
      · cases hcut
        rfl

theorem number_text_of_whole (h : n.fraction = none) : Literal.number n.text =
    if Int64.minValue.toInt ≤ n.wholeValue ∧ n.wholeValue ≤ Int64.maxValue.toInt then
      .ok (.long (Int64.ofInt n.wholeValue))
    else .error .unknownValueType := by
  rw [number_text, splitFirst_unsigned, h, unsigned, h]
  rfl

theorem number_text_of_fraction {digits : List Char} (h : n.fraction = some digits) :
    Literal.number n.text = .ok (.double (Binary64.ofDecimal n.negative n.whole digits)) := by
  rw [number_text, splitFirst_unsigned, h]
  rfl

end Numeral

/-! ## Finite values -/

namespace Binary64

variable {x : Binary64}

theorem roundMagnitude_le_infinity (num den : Nat) : roundMagnitude num den ≤ infinity :=
  min_le_right _ _

theorem magnitudeBits_ofDecimal (negative : Bool) (whole fraction : List Char) :
    (ofDecimal negative whole fraction).magnitudeBits =
      roundMagnitude (ofDigits (whole ++ fraction)) (Nat.pow 10 fraction.length) :=
  magnitudeBits_ofMagnitude negative
    (lt_of_le_of_lt (roundMagnitude_le_infinity _ _) (by decide))

theorem isFinite_ofDecimal_iff (negative : Bool) (whole fraction : List Char) :
    (ofDecimal negative whole fraction).isFinite = true ↔
      ofDigits (whole ++ fraction) < overflow * Nat.pow 10 fraction.length := by
  rw [isFinite_iff, magnitudeBits_ofDecimal, roundMagnitude_lt_infinity_iff]
  exact Nat.pow_pos (by decide)

/-- The digits that a finite number is written with round to it. -/
theorem exists_digits (hx : x.isFinite = true) : ∃ whole fraction,
    (let digits := if x.isZero then ['0'] else x.shortest.positional
      if digits.contains '.' then digits else digits ++ ['.', '0']) = whole ++ '.' :: fraction ∧
    allDigits whole = true ∧ allDigits fraction = true ∧
      roundMagnitude (ofDigits (whole ++ fraction)) (Nat.pow 10 fraction.length) =
        x.magnitudeBits := by
  cases hzero : x.isZero with
  | true =>
    have hbits : x.magnitudeBits = 0 := by simpa [isZero] using hzero
    have hround : roundMagnitude (ofDigits ['0', '0']) (Nat.pow 10 1) = 0 := by decide +kernel
    exact ⟨['0'], ['0'], rfl, by decide, by decide, hround.trans hbits.symm⟩
  | false =>
    obtain ⟨p, hp, hreads⟩ := exists_shortestFrom hzero (natDigits x.units).length
    obtain ⟨whole, fraction, htext, hwhole, hfraction, hvalue⟩ := Decimal.exists_pointed _ hp
    have hpos : 0 < Nat.pow 10 fraction.length := Nat.pow_pos (by decide)
    refine ⟨whole, fraction, ?_, hwhole, hfraction,
      roundMagnitude_eq hx hpos (reaches_of_readsBack hpos hreads hvalue)⟩
    simp only [Bool.false_eq_true, if_false]
    exact htext

/-- The text of a finite number is a numeral that denotes it. -/
theorem exists_text_eq_of_isFinite (hx : x.isFinite = true) :
    ∃ n : Numeral, n.text = x.text ∧ Literal.number n.text = .ok (.double x) := by
  have hnan : x.isNaN = false := by
    have hlt : x.exponentField < specialExponent := by simpa [isFinite] using hx
    simp [isNaN, hlt.ne]
  obtain ⟨whole, fraction, htext, hwhole, hfraction, hround⟩ := exists_digits hx
  let n : Numeral := ⟨x.isNegative, whole, some fraction, hwhole, by simpa using hfraction⟩
  have hdecimal : ofDecimal x.isNegative whole fraction = x := by
    rw [ofDecimal, hround, ofMagnitude_magnitudeBits]
  refine ⟨n, ?_, ?_⟩
  · rw [text, hnan, hx, htext]
    rfl
  · rw [Numeral.number_text_of_fraction rfl, hdecimal]

/-- The texts of infinities and of what is no number have letters. -/
theorem text_of_not_isFinite (hx : x.isFinite = false) :
    x.text ∈ [['N', 'a', 'N'], ['i', 'n', 'f'], ['-', 'i', 'n', 'f']] := by
  unfold text
  split
  · simp
  · rw [hx]
    cases x.isNegative <;> simp

/-- Of the texts of doubles, those of the finite ones are numerals. -/
theorem isNumber_text_iff (x : Binary64) : Shape.isNumber x.text = true ↔ x.isFinite = true := by
  constructor
  · intro h
    by_contra hx
    have hletters : ([['N', 'a', 'N'], ['i', 'n', 'f'], ['-', 'i', 'n', 'f']].all fun cs =>
        !Shape.isNumber cs) = true := by decide
    have hnot := List.all_eq_true.1 hletters _ (text_of_not_isFinite (Bool.eq_false_iff.2 hx))
    simp [h] at hnot
  · intro hx
    obtain ⟨n, htext, -⟩ := exists_text_eq_of_isFinite hx
    exact htext ▸ n.isNumber_text

end Binary64

end FilterQuery
