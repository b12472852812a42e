import FileSignatures.Proofs.Floating.ReadingBack

/-!
# Rates as text

A rate is a number of single precision. The text of a finite one is that of the shortest
decimal that is read back as the same number (`ShowsRate`). The decimal is laid out with a
point unless its first digit stands too far from it, and there is always a digit on either
side of a point (`LaysOut`). With an exponent, a single digit has no point.

Both are stated for a number as it is unpacked from its bits, and say what the text is
without saying how it is found. There is one such text for every number, the one that is
written (`showsRate_iff`).

## Main definitions

* `LaysOut`: A text of a positive decimal.
* `ShowsRate`: The text of a number of single precision.

## Theorems

* `contentOf_unpack`: The bits are taken apart in the same way.
* `isHeld_of_unpack`: What is unpacked is held by a full mantissa.
* `laysOut_iff`: A decimal has one text.
* `showsRate_iff`: A number has one text, the one that is written.
-/

namespace FileSignatures

open Float.Model Float.Model.UnpackedFloat

section Bits

variable (bits : BitVec 32)

theorem unpackMantissa_toNat :
    (@unpackMantissa Format.binary32 bits).toNat = bits.toNat % 1 <<< 23 := by
  unfold unpackMantissa
  rw [BitVec.toNat_cast, BitVec.extractLsb_toNat, Nat.shiftRight_zero]
  rfl

theorem unpackExponent_toNat :
    (@unpackExponent Format.binary32 bits).toNat = bits.toNat >>> 23 % 1 <<< 8 := by
  unfold unpackExponent
  rw [BitVec.toNat_cast, BitVec.extractLsb_toNat]
  rfl

theorem unpackSign_toNat :
    (@unpackSign Format.binary32 bits).toNat = bits.toNat >>> 31 % 2 := by
  unfold unpackSign
  rw [BitVec.toNat_cast, BitVec.extractLsb_toNat]
  rfl

/-- The one in front of a mantissa is not stored. -/
theorem toNat_one_append {width : Nat} (mantissa : BitVec width) :
    (1#1 ++ mantissa).toNat = 1 <<< width + mantissa.toNat := by
  rw [BitVec.toNat_append, ← Nat.shiftLeft_add_eq_or_of_lt mantissa.isLt]
  rfl

/-- Whether a sign is that of a negative number. -/
def isNegative : Sign → Bool
  | .negative => true
  | .positive => false

theorem isNegative_ofBitVec :
    isNegative (Sign.ofBitVec (@unpackSign Format.binary32 bits))
      = decide (bits.toNat >>> 31 % 2 = 1) := by
  have hsign := unpackSign_toNat bits
  have hzero : @unpackSign Format.binary32 bits = 0#1
      ↔ bits.toNat >>> 31 % 2 = 0 := by
    rw [← BitVec.toNat_inj, hsign]
    rfl
  unfold Sign.ofBitVec
  by_cases h : bits.toNat >>> 31 % 2 = 0
  · rw [if_pos (hzero.2 h), h]
    rfl
  · have hone : bits.toNat >>> 31 % 2 = 1 := by omega
    rw [if_neg (mt hzero.1 h), hone]
    rfl

/-- The content of a number that has been unpacked. -/
def contentOf : UnpackedFloat → FloatContent
  | .notANumber => .nan
  | .infinity sign => .infinite (isNegative sign)
  | .zero sign => .finite (isNegative sign) 0 (-149)
  | .finite sign mantissa exponent _ => .finite (isNegative sign) mantissa exponent

/-- Unpacking takes the bits apart into the same parts. -/
theorem contentOf_unpack :
    contentOf (UnpackedFloat.unpack Format.binary32 bits)
      = FloatFormat.single.decode bits.toNat := by
  have hmantissa := unpackMantissa_toNat bits
  have hexponent := unpackExponent_toNat bits
  have hsign := isNegative_ofBitVec bits
  -- The two differ in what they compare: bit vectors there, numbers here.
  have hlast : @unpackExponent Format.binary32 bits = -1#_
      ↔ bits.toNat >>> 23 % 1 <<< 8 = 1 <<< 8 - 1 := by
    rw [← BitVec.toNat_inj, hexponent]
    rfl
  have hfirst : @unpackExponent Format.binary32 bits = 0#_
      ↔ bits.toNat >>> 23 % 1 <<< 8 = 0 := by
    rw [← BitVec.toNat_inj, hexponent]
    rfl
  have hnone : @unpackMantissa Format.binary32 bits = 0#_
      ↔ bits.toNat % 1 <<< 23 = 0 := by
    rw [← BitVec.toNat_inj, hmantissa]
    rfl
  unfold UnpackedFloat.unpack FloatFormat.decode FloatFormat.single
  simp only
  by_cases hspecial : bits.toNat >>> 23 % 1 <<< 8 = 1 <<< 8 - 1
  · rw [if_pos (hlast.2 hspecial), if_pos hspecial]
    by_cases hzero : bits.toNat % 1 <<< 23 = 0
    · rw [if_pos (hnone.2 hzero), if_pos hzero, contentOf, hsign]
    · rw [if_neg (mt hnone.1 hzero), if_neg hzero, contentOf]
  rw [if_neg (mt hlast.1 hspecial), if_neg hspecial]
  by_cases hsmall : bits.toNat >>> 23 % 1 <<< 8 = 0
  · rw [if_pos (hfirst.2 hsmall), if_pos hsmall]
    by_cases hzero : bits.toNat % 1 <<< 23 = 0
    · rw [dif_pos (hnone.2 hzero), contentOf, hsign, hzero]
      rfl
    · rw [dif_neg (mt hnone.1 hzero), contentOf, hsign, hmantissa, hexponent, hsmall]
      rfl
  · rw [if_neg (mt hfirst.1 hsmall), if_neg hsmall, contentOf, hsign, toNat_one_append,
      hmantissa, hexponent]
    generalize bits.toNat >>> 23 % 1 <<< 8 = field
    -- Both give the exponent of the last bit: there from the bias, here from the least one.
    have hbias : (field : Int) - ((Format.binary32.exponentBias : Int)
        + (Format.binary32.mantissaBitsWithoutImplicit : Int))
        = FloatFormat.single.leastExponent + (field - 1) := by
      change (field : Int) - (127 + 23) = -149 + (field - 1)
      omega
    rw [hbias]
    rfl

end Bits

/-- A positive number that bits stand for is held by a full mantissa. -/
theorem isHeld_of_decode (bits mantissa : Nat) (exponent : Int) (negative : Bool)
    (hpos : 0 < mantissa)
    (h : FloatFormat.single.decode bits = .finite negative mantissa exponent) :
    IsHeld mantissa exponent := by
  have hleast : FloatFormat.single.leastExponent = -149 := rfl
  have hfraction : bits % 1 <<< 23 < 2 ^ 23 := Nat.mod_lt _ (by omega)
  have hfield : bits >>> 23 % 1 <<< 8 < 2 ^ 8 := Nat.mod_lt _ (by omega)
  unfold FloatFormat.decode at h
  rw [hleast] at h
  unfold FloatFormat.single at h
  simp only at h
  -- Only the sizes of the two fields matter from here on.
  generalize bits % 1 <<< 23 = fraction at h hfraction
  generalize bits >>> 23 % 1 <<< 8 = field at h hfield
  split at h
  · split at h
    · exact absurd h (by simp only [reduceCtorEq, not_false_eq_true])
    · exact absurd h (by simp only [reduceCtorEq, not_false_eq_true])
  · rename_i hfinite
    have hlast : field ≠ 255 := hfinite
    split at h
    · rw [FloatContent.finite.injEq] at h
      obtain ⟨-, rfl, rfl⟩ := h
      exact ⟨hpos, by omega, by omega, by omega, Or.inr rfl⟩
    · rw [FloatContent.finite.injEq] at h
      obtain ⟨-, rfl, rfl⟩ := h
      have hone : 1 <<< 23 = 2 ^ 23 := rfl
      exact ⟨hpos, by omega, by omega, by omega, Or.inl (by omega)⟩

theorem isHeld_of_unpack (bits : BitVec 32) (sign : Sign) (mantissa : Nat) (exponent : Int)
    (hpos : 0 < mantissa)
    (h : UnpackedFloat.unpack Format.binary32 bits = .finite sign mantissa exponent hpos) :
    IsHeld mantissa exponent := by
  have hcontent := contentOf_unpack bits
  rw [h, contentOf] at hcontent
  exact isHeld_of_decode bits.toNat mantissa exponent (isNegative sign) hpos hcontent.symm

/-- The text of a positive decimal `n * 10 ^ scale`. The power of ten of its first digit
    decides between a point and an exponent. -/
inductive LaysOut (n : Nat) (scale : Int) : Text → Prop
  /-- Zeros stand in for the digits before the point that the decimal does not have. -/
  | whole (hscale : 0 ≤ scale) (hleading : scale + digitCount n ≤ 16) :
      LaysOut n scale (Text.ofNat n ++ List.replicate scale.toNat '0' ++ ".0".toList)
  /-- The point stands between two digits. -/
  | inside (whole fraction : Text) (hdigits : Text.ofNat n = whole ++ fraction)
      (hscale : scale = -fraction.length) (hwhole : whole ≠ []) (hfraction : fraction ≠ [])
      (hleading : whole.length ≤ 16) : LaysOut n scale (whole ++ '.' :: fraction)
  /-- Zeros stand between the point and the first digit. -/
  | fraction (zeros : Nat) (hscale : scale = -(zeros + digitCount n : Nat))
      (hleading : zeros < 4) :
      LaysOut n scale ("0.".toList ++ List.replicate zeros '0' ++ Text.ofNat n)
  /-- The power of ten is written, and a point only in front of more digits. -/
  | exponent (first : Char) (more : Text) (hdigits : Text.ofNat n = first :: more)
      (hleading : scale + more.length < -4 ∨ 16 ≤ scale + more.length) :
      LaysOut n scale (first :: ((if more = [] then [] else '.' :: more)
        ++ 'e' :: Text.ofInt (scale + more.length)))

theorem exists_laysOut (n : Nat) (scale : Int) : ∃ text, LaysOut n scale text := by
  have hlength : (Text.ofNat n).length = digitCount n := rfl
  have hpos := digitCount_pos n
  by_cases hpositional : -4 < scale + digitCount n ∧ scale + digitCount n ≤ 16
  · obtain ⟨hleast, hmost⟩ := hpositional
    rcases lt_or_ge scale 0 with hplaces | hwhole
    · by_cases hinside : 0 < scale + digitCount n
      · -- So many digits stand before the point.
        obtain ⟨count, hcount⟩ := Int.eq_ofNat_of_zero_le hinside.le
        have htake : ((Text.ofNat n).take count).length = count := by
          rw [List.length_take]
          omega
        have hdrop : ((Text.ofNat n).drop count).length = digitCount n - count := by
          rw [List.length_drop, hlength]
        exact ⟨_, .inside _ _ (List.take_append_drop count _).symm (by omega)
          (List.ne_nil_of_length_pos (by omega)) (List.ne_nil_of_length_pos (by omega))
          (by omega)⟩
      · obtain ⟨zeros, hzeros⟩ := Int.eq_ofNat_of_zero_le
          (show 0 ≤ -(scale + digitCount n) by omega)
        exact ⟨_, .fraction zeros (by omega) (by omega)⟩
    · exact ⟨_, .whole hwhole hmost⟩
  · obtain ⟨first, more, hdigits⟩ := List.exists_cons_of_length_pos (hlength ▸ hpos)
    rw [hdigits, List.length_cons] at hlength
    exact ⟨_, .exponent first more hdigits (by omega)⟩

theorem decimal_positional (digits : Text) (leading : Int) (hleast : -4 ≤ leading)
    (hmost : leading < 16) : rateLayout.decimal ⟨digits, leading⟩
      = SingleLayout.withPoint digits (leading + 1) :=
  if_pos ⟨hleast, hmost⟩

theorem decimal_exponential (digits : Text) (leading : Int)
    (h : leading < -4 ∨ 16 ≤ leading) :
    rateLayout.decimal ⟨digits, leading⟩ = SingleLayout.withExponent digits leading := by
  have hnot : ¬ (-4 ≤ leading ∧ leading < 16) := by omega
  exact if_neg hnot

/-- A text of a decimal is the one that is written. -/
theorem eq_of_laysOut (n : Nat) (scale : Int) (text : Text) (h : LaysOut n scale text) :
    text = rateLayout.decimal ⟨Nat.toDigits 10 n, scale + (digitCount n - 1 : Nat)⟩ := by
  have hpos := digitCount_pos n
  have hlength : (Text.ofNat n).length = digitCount n := rfl
  have hdigits : Nat.toDigits 10 n = Text.ofNat n := rfl
  rw [hdigits]
  -- Each layout determines where the point stands, and with it how many digits precede it.
  cases h with
  | whole hscale hleading =>
      have hcount : (scale + (digitCount n - 1 : Nat) + 1).toNat
          = scale.toNat + digitCount n := by omega
      rw [decimal_positional _ _ (by omega) (by omega), SingleLayout.withPoint,
        if_neg (by omega)]
      simp only [hcount, hlength, List.take_of_length_le (i := scale.toNat + digitCount n)
        (l := Text.ofNat n) (by omega), List.drop_of_length_le (i := scale.toNat + digitCount n)
        (l := Text.ofNat n) (by omega), Nat.add_sub_cancel]
      rfl
  | inside whole fraction hsplit hscale hwhole hfraction hleading =>
      rw [hsplit, List.length_append] at hlength
      have hplaces := List.length_pos_of_ne_nil hwhole
      have hcount : (scale + (digitCount n - 1 : Nat) + 1).toNat = whole.length := by omega
      have hmissing : whole.length - (whole.length + fraction.length) = 0 := by omega
      rw [decimal_positional _ _ (by omega) (by omega), SingleLayout.withPoint,
        if_neg (by omega)]
      simp only [hcount, hsplit, List.length_append, List.take_left, List.drop_left, hmissing,
        List.replicate_zero, List.append_nil, List.isEmpty_iff, hfraction, if_false]
  | fraction zeros hscale hleading =>
      have hzeros : (-(scale + (digitCount n - 1 : Nat) + 1)).toNat = zeros := by omega
      rw [decimal_positional _ _ (by omega) (by omega), SingleLayout.withPoint,
        if_pos (by omega), hzeros]
      rfl
  | exponent first more hsplit hleading =>
      rw [hsplit, List.length_cons] at hlength
      have hpower : scale + (digitCount n - 1 : Nat) = scale + more.length := by omega
      rw [hpower, decimal_exponential _ _ hleading, SingleLayout.withExponent, hsplit]
      simp only [List.drop_succ_cons, List.drop_zero, List.take_succ_cons, List.take_zero,
        List.isEmpty_iff, List.cons_append, List.nil_append]

/-- A positive decimal has one text, the one that is written. -/
theorem laysOut_iff (n : Nat) (scale : Int) (text : Text) :
    LaysOut n scale text ↔ text = rateLayout.decimal
      ⟨Nat.toDigits 10 n, scale + (digitCount n - 1 : Nat)⟩ := by
  constructor
  · exact eq_of_laysOut n scale text
  · intro h
    obtain ⟨other, hother⟩ := exists_laysOut n scale
    rw [h, ← eq_of_laysOut n scale other hother]
    exact hother

/-- The text of a sign. -/
def signText : Sign → Text
  | .negative => "-".toList
  | .positive => []

/-- The text of a number of single precision. A finite one shows the shortest decimal that
    is read as that number. -/
inductive ShowsRate : UnpackedFloat → Text → Prop
  | nan : ShowsRate .notANumber "NaN".toList
  | infinity (sign : Sign) : ShowsRate (.infinity sign) (signText sign ++ "inf".toList)
  | zero (sign : Sign) : ShowsRate (.zero sign) (signText sign ++ "0.0".toList)
  | finite (sign : Sign) (mantissa : Nat) (exponent : Int) (hpos : 0 < mantissa) (n : Nat)
      (scale : Int) (text : Text)
      (hshortest : IsShortest (ReadsAs mantissa exponent) (mantissa * 2 ^ exponent) n scale)
      (htext : LaysOut n scale text) :
      ShowsRate (.finite sign mantissa exponent hpos) (signText sign ++ text)

/-- A number of single precision has one text, the one that is written. -/
theorem showsRate_iff (x : Float32) (text : Text) :
    ShowsRate x.toModel.unpack text
      ↔ text = rateLayout.content (FloatFormat.single.decode x.toBits.toNat) := by
  have hsign : ∀ sign : Sign, signText sign = if isNegative sign then ['-'] else [] := by
    intro sign
    cases sign <;> rfl
  have hcontent := contentOf_unpack x.toBits.toBitVec
  have hbits : x.toBits.toBitVec.toNat = x.toBits.toNat := rfl
  have hunpack : x.toModel.unpack = UnpackedFloat.unpack Format.binary32 x.toBits.toBitVec := rfl
  rw [hbits] at hcontent
  rw [← hcontent, hunpack]
  cases hnumber : UnpackedFloat.unpack Format.binary32 x.toBits.toBitVec with
  | notANumber =>
      constructor
      · rintro ⟨⟩
        rfl
      · rintro rfl
        exact .nan
  | infinity sign =>
      rw [contentOf, SingleLayout.content, ← hsign]
      constructor
      · rintro ⟨⟩
        rfl
      · rintro rfl
        exact .infinity sign
  | zero sign =>
      rw [contentOf, SingleLayout.content, ← hsign, if_pos rfl]
      constructor
      · rintro ⟨⟩
        rfl
      · rintro rfl
        exact .zero sign
  | finite sign mantissa exponent hpos =>
      have hheld := isHeld_of_unpack x.toBits.toBitVec sign mantissa exponent hpos hnumber
      obtain ⟨n, scale, hshortest, hdecimal⟩ := exists_isShortest_of_isHeld mantissa exponent hheld
      rw [contentOf, SingleLayout.content, ← hsign, if_neg hpos.ne', hdecimal]
      constructor
      · intro h
        cases h with
        | finite _ _ _ _ other place shown hother htext =>
            -- Only one decimal is the shortest one.
            obtain ⟨rfl, rfl⟩ := IsShortest.unique _ _ _ _ _ _ hother hshortest
            rw [(laysOut_iff _ _ _).1 htext]
      · rintro rfl
        exact .finite sign mantissa exponent hpos n scale _ hshortest
          ((laysOut_iff n scale _).2 rfl)

end FileSignatures
