import FileSignatures.Expression.Evaluator
import Mathlib

/-!
# Whole numbers in double precision

Rates are evaluated in double precision, where only division by zero fails. So
what matters of a numeral is whether its value equals zero. This module follows a
whole number through its conversion: it becomes a mantissa of 53 bits, is divided
by one, which is how a numeral without a fraction is read, and keeps mantissa and
exponent on the way through the 64-bit pattern.

All steps are exact, because the mantissa always has its full 53 bits and the
exponent stays far from both ends of its range.

## Theorems

* `unpack_pack_normal`: A number of the format survives packing.
* `roundWithAccuracy_normal`, `roundWithAccuracy_even`: Nothing is rounded away.
* `unpack_toFloat`: What a whole number becomes.
* `div_one_normal`: Division by one changes nothing.
* `ofScientific_ne_zero`: A numeral other than zero does not equal zero.
-/

namespace FileSignatures

open Float.Model Float.Model.UnpackedFloat

theorem roundedMantissa_exact (mantissa : Nat) :
    ExtendedMantissa.roundedMantissa ⟨mantissa, false, false⟩ = mantissa :=
  rfl

/-- A mantissa of 53 bits at an exponent in range is not shifted. -/
theorem shiftToTargetExponent_normal (mantissa : Nat) (exponent : Int)
    (hlog : mantissa.log2 = 52) (hlow : -1074 ≤ exponent) :
    shiftToTargetExponent Format.binary64 mantissa exponent .exact
      = (⟨mantissa, false, false⟩, exponent) := by
  have htarget : Format.binary64.targetExponent (totalExponent mantissa exponent) = exponent := by
    simp only [Format.targetExponent, totalExponent, Format.mantissaBits, Format.minExponent, hlog]
    omega
  have hshift : (exponent - exponent).toNat = 0 := by omega
  rw [shiftToTargetExponent, htarget, shiftToExponent]
  simp only [hshift]
  exact Prod.ext rfl (Int.add_zero exponent)

/-- One bit more than fits is dropped if it is zero. -/
theorem shiftToTargetExponent_even (mantissa : Nat) (exponent : Int)
    (hlog : mantissa.log2 = 52) (hlow : -1075 ≤ exponent) :
    shiftToTargetExponent Format.binary64 (2 * mantissa) exponent .exact
      = (⟨mantissa, false, false⟩, exponent + 1) := by
  have hne : mantissa ≠ 0 := by
    rintro rfl
    exact absurd hlog (by decide)
  -- The doubled mantissa is one bit too long, so the target lies one place up.
  have hdouble : (2 * mantissa).log2 = 53 := by
    rw [Nat.log2_two_mul hne, hlog]
  have htarget : Format.binary64.targetExponent (totalExponent (2 * mantissa) exponent)
      = exponent + 1 := by
    simp only [Format.targetExponent, totalExponent, Format.mantissaBits, Format.minExponent,
      hdouble]
    omega
  have hshift : (exponent + 1 - exponent).toNat = 1 := by omega
  rw [shiftToTargetExponent, htarget, shiftToExponent]
  simp only [hshift]
  change (ExtendedMantissa.mk (2 * mantissa / 2) (2 * mantissa % 2 != 0) (false || false), _) = _
  rw [Nat.mul_div_cancel_left mantissa (by omega), Nat.mul_mod_right]
  rfl

/-- Rounding keeps a number that its format has. -/
theorem roundWithAccuracy_normal (mantissa : Nat) (exponent : Int) (hpos : 0 < mantissa)
    (hlog : mantissa.log2 = 52) (hlow : -1074 ≤ exponent) :
    roundWithAccuracy Format.binary64 .positive mantissa exponent .exact
      = .finite .positive mantissa exponent hpos := by
  simp only [roundWithAccuracy, shiftToTargetExponent_normal mantissa exponent hlog hlow,
    roundedMantissa_exact, Nat.pos_iff_ne_zero.1 hpos, dite_false]

/-- Rounding drops one bit more than the format has, if that bit is zero. -/
theorem roundWithAccuracy_even (mantissa : Nat) (exponent : Int) (hpos : 0 < mantissa)
    (hlog : mantissa.log2 = 52) (hlow : -1075 ≤ exponent) :
    roundWithAccuracy Format.binary64 .positive (2 * mantissa) exponent .exact
      = .finite .positive mantissa (exponent + 1) hpos := by
  simp only [roundWithAccuracy, shiftToTargetExponent_even mantissa exponent hlog hlow,
    roundedMantissa_exact, shiftToTargetExponent_normal mantissa (exponent + 1) hlog (by omega),
    Nat.pos_iff_ne_zero.1 hpos, dite_false]

theorem log2_shiftLeft (n k : Nat) (hn : n ≠ 0) : (n <<< k).log2 = n.log2 + k := by
  induction k with
  | zero => rfl
  | succ k ih =>
      have hne : n <<< k ≠ 0 := by
        rw [Nat.shiftLeft_eq]
        exact Nat.mul_ne_zero hn (Nat.pos_iff_ne_zero.1 (Nat.two_pow_pos k))
      rw [Nat.shiftLeft_succ, Nat.log2_two_mul hne, ih, Nat.add_assoc]

/-- The leading bit of a mantissa is not stored, and comes back. -/
theorem toNat_implicit_append (mantissa : Nat) (hlog : mantissa.log2 = 52) :
    (1#1 ++ BitVec.ofNat 52 mantissa).toNat = mantissa := by
  have hne : mantissa ≠ 0 := by
    rintro rfl
    exact absurd hlog (by decide)
  have hbounds := (Nat.log2_eq_iff hne).1 hlog
  -- The bits do not overlap, so joining them is adding them.
  have hmod : mantissa % 2 ^ 52 < 2 ^ 52 := Nat.mod_lt _ (by omega)
  have hone : BitVec.toNat 1#1 = 1 := rfl
  have hrest : (BitVec.ofNat 52 mantissa).toNat = mantissa % 2 ^ 52 := BitVec.toNat_ofNat _ _
  rw [BitVec.toNat_append, hone, hrest, ← Nat.shiftLeft_add_eq_or_of_lt hmod, Nat.shiftLeft_eq]
  omega

/-- A number of the format survives packing. -/
theorem unpack_pack_normal (mantissa : Nat) (exponent : Int) (hpos : 0 < mantissa)
    (hlog : mantissa.log2 = 52) (hlow : -1074 ≤ exponent) (hhigh : exponent ≤ 971) :
    UnpackedFloat.unpack Format.binary64
        (UnpackedFloat.pack Format.binary64 (.finite .positive mantissa exponent hpos))
      = .finite .positive mantissa exponent hpos := by
  obtain ⟨biased, hbiased⟩ : ∃ biased : Nat, exponent + 1075 = biased :=
    ⟨_, (Int.toNat_of_nonneg (by omega)).symm⟩
  have hpack : UnpackedFloat.pack Format.binary64 (.finite .positive mantissa exponent hpos)
      = packComponents Format.binary64 .positive (BitVec.ofNat _ biased)
        (BitVec.ofNat _ mantissa) := by
    have hexponent : (exponent + Format.binary64.exponentBias
        + Format.binary64.mantissaBitsWithoutImplicit).toNat = biased := by
      change (exponent + 1023 + 52).toNat = biased
      omega
    unfold UnpackedFloat.pack
    simp only [hexponent, hlog]
    rw [if_neg (by omega), if_pos (by rfl)]
  have hvec : (BitVec.ofNat 11 biased).toNat = biased := by
    rw [BitVec.toNat_ofNat, Nat.mod_eq_of_lt (by omega)]
  -- The biased exponent is neither of the two that stand for special values.
  have hnan : BitVec.ofNat 11 biased ≠ -1#_ := by
    intro h
    have hnat := congrArg BitVec.toNat h
    rw [hvec] at hnat
    exact absurd hnat (by change biased ≠ 2047; omega)
  have hsub : BitVec.ofNat 11 biased ≠ 0#_ := by
    intro h
    have hnat := congrArg BitVec.toNat h
    rw [hvec] at hnat
    exact absurd hnat (by change biased ≠ 0; omega)
  rw [hpack]
  unfold UnpackedFloat.unpack
  simp only [unpackMantissa_packComponents, unpackExponent_packComponents,
    unpackSign_packComponents]
  rw [if_neg hnan, if_neg hsub]
  simp only [toNat_implicit_append mantissa hlog, hvec, UnpackedFloat.finite.injEq, true_and]
  refine ⟨rfl, ?_⟩
  change (biased : Int) - (1023 + 52) = exponent
  omega

/-- Dividing by one gives a mantissa with one bit more, a zero, and one less in the
    exponent. -/
theorem div_one_normal (mantissa : Nat) (exponent : Int) (hpos : 0 < mantissa)
    (hlog : mantissa.log2 = 52) (hlow : -1021 ≤ exponent) :
    UnpackedFloat.div Format.binary64 (.finite .positive mantissa exponent hpos)
        (.finite .positive 4503599627370496 (-52) (by decide))
      = .finite .positive mantissa exponent hpos := by
  have htarget : Format.binary64.targetExponent (totalExponent mantissa exponent
      - totalExponent 4503599627370496 (-52)) = exponent - 1 := by
    have hone : totalExponent 4503599627370496 (-52) = 1 := by decide
    rw [hone]
    simp only [Format.targetExponent, totalExponent, Format.mantissaBits, Format.minExponent,
      hlog]
    omega
  have hcore : divCore Format.binary64 mantissa exponent 4503599627370496 (-52)
      = (2 * mantissa, exponent - 1, .exact) := by
    have hmin : min (exponent - -52) (exponent - 1) = exponent - 1 := by omega
    have hshift : (exponent - -52 - (exponent - 1)).toNat = 53 := by omega
    have hproduct : mantissa <<< 53 = 4503599627370496 * (2 * mantissa) := by
      rw [Nat.shiftLeft_eq]
      omega
    simp only [divCore, htarget, hmin, hshift, hproduct, accuracyOfFraction, Nat.mul_mod_right,
      if_true]
    rw [Nat.mul_div_cancel_left _ (by omega)]
  -- The quotient has 54 bits, the last of which is zero.
  have hround := roundWithAccuracy_even mantissa (exponent - 1) hpos hlog (by omega)
  have hback : exponent - 1 + 1 = exponent := by omega
  rw [hback] at hround
  simp only [UnpackedFloat.div, hcore]
  exact hround

/-- A natural number that fits in 53 bits is a number of the format. -/
theorem unpack_toFloat (n : Nat) (hpos : 0 < n) (hlt : n < 2 ^ 53) :
    ∃ mantissa exponent hm, mantissa.log2 = 52 ∧ -52 ≤ exponent ∧ exponent ≤ 0
      ∧ n.toUInt64.toFloat.toModel.unpack = .finite .positive mantissa exponent hm := by
  have hne : n ≠ 0 := Nat.pos_iff_ne_zero.1 hpos
  have hlog : n.log2 < 53 := (Nat.log2_lt hne).2 hlt
  have hmantissa : (n <<< (52 - n.log2)).log2 = 52 := by
    rw [log2_shiftLeft n _ hne]
    omega
  have hm : 0 < n <<< (52 - n.log2) := by
    rw [Nat.shiftLeft_eq]
    exact Nat.mul_pos hpos (Nat.two_pow_pos _)
  refine ⟨n <<< (52 - n.log2), (n.log2 : Int) - 52, hm, hmantissa, by omega, by omega, ?_⟩
  have htarget : Format.binary64.targetExponent (totalExponent n 0) = (n.log2 : Int) - 52 := by
    simp only [Format.targetExponent, totalExponent, Format.mantissaBits, Format.minExponent]
    omega
  -- The number is shifted up until its mantissa has 53 bits, which loses nothing.
  have hround : UnpackedFloat.round Format.binary64 .positive n 0
      = .finite .positive (n <<< (52 - n.log2)) ((n.log2 : Int) - 52) hm := by
    have hshift : (0 - ((n.log2 : Int) - 52)).toNat = 52 - n.log2 := by omega
    have hexponent : (0 : Int) - (52 - n.log2 : Nat) = (n.log2 : Int) - 52 := by omega
    simp only [UnpackedFloat.round, htarget, decreaseExponent, hshift, hexponent]
    exact roundWithAccuracy_normal _ _ hm hmantissa (by omega)
  have hof : UnpackedFloat.ofNat Format.binary64 n
      = .finite .positive (n <<< (52 - n.log2)) ((n.log2 : Int) - 52) hm := by
    have hcompare : compare (n : Int) 0 = .gt := Int.compare_eq_gt.2 (by omega)
    simp only [UnpackedFloat.ofNat, UnpackedFloat.ofInt, UnpackedFloat.normalize, hcompare,
      Int.toNat_natCast, hround]
  have hword : n.toUInt64.toNat = n := by
    change n % 2 ^ 64 = n
    omega
  change UnpackedFloat.unpack Format.binary64 (UnpackedFloat.pack Format.binary64
    (UnpackedFloat.ofNat Format.binary64 n.toUInt64.toNat)) = _
  rw [hword, hof]
  exact unpack_pack_normal _ _ hm hmantissa (by omega) (by omega)

/-- A whole number other than zero, read as a decimal fraction, does not equal
    zero. -/
theorem ofScientific_ne_zero (n : Nat) (hpos : 0 < n) (hlt : n < 2 ^ 53) :
    (Float.ofScientific n true 0 == 0.0) = false := by
  rcases unpack_toFloat n hpos hlt with ⟨mantissa, exponent, hm, hlog, hlow, hhigh, hunpack⟩
  have hone : (Float.ofBits 0x3FF0000000000000).toModel.unpack
      = .finite .positive 4503599627370496 (-52) (by decide) := by rfl
  have hzero : (0.0 : Float).toModel.unpack = .zero .positive := by rfl
  -- Without a fraction the number is divided by the zeroth power of ten.
  have hvalue : (Float.ofScientific n true 0).toModel.unpack
      = .finite .positive mantissa exponent hm := by
    have hfast : n < 2 ^ 53 ∧ 0 ≤ 22 := ⟨hlt, by omega⟩
    rw [Float.ofScientific, dif_pos hfast]
    change UnpackedFloat.unpack Format.binary64 (UnpackedFloat.pack Format.binary64
      (UnpackedFloat.div Format.binary64 n.toUInt64.toFloat.toModel.unpack
        (Float.ofBits 0x3FF0000000000000).toModel.unpack)) = _
    rw [hunpack, hone, div_one_normal mantissa exponent hm hlog (by omega)]
    exact unpack_pack_normal mantissa exponent hm hlog (by omega) (by omega)
  change UnpackedFloat.beq (Float.ofScientific n true 0).toModel.unpack (0.0 : Float).toModel.unpack
    = false
  rw [hvalue, hzero]
  rfl

end FileSignatures
