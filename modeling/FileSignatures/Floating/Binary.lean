/-!
# Binary floating point

A finite floating-point number is a sign, a significand and a power of two,
and both exact remainders and shortest decimals are arithmetic on these
natural numbers. This module takes the bits of a number apart into them and
puts them together again.

## Main definitions

* `FloatFormat`: The layout of the bits, single or double.
* `FloatContent`: What the bits stand for.
* `FloatFormat.decode`: The content of some bits.
* `FloatFormat.encode`: The bits of a significand and an exponent.
* `Float.exactRemainder`: The remainder of a division that truncates.
-/

namespace FileSignatures

/-- The layout of a floating-point number: below the sign, an exponent of
    `exponentBits` bits, and below it a fraction of `fractionBits` bits. -/
structure FloatFormat where
  fractionBits : Nat
  exponentBits : Nat

/-- What the bits of a floating-point number stand for. -/
inductive FloatContent where
  | nan
  | infinite (negative : Bool)
  /-- `significand * 2 ^ exponent`, with a sign. -/
  | finite (negative : Bool) (significand : Nat) (exponent : Int)

namespace FloatFormat

/-- Numbers of 32 bits. -/
def single : FloatFormat := ⟨23, 8⟩

/-- Numbers of 64 bits. -/
def double : FloatFormat := ⟨52, 11⟩

/-- The exponent of the last fraction bit of the smallest numbers. -/
def leastExponent (format : FloatFormat) : Int :=
  2 - (1 <<< (format.exponentBits - 1) : Nat) - format.fractionBits

/-- The content of some bits. The fraction of all but the smallest numbers has
    a one in front of it that is not stored. -/
def decode (format : FloatFormat) (bits : Nat) : FloatContent :=
  let fraction := bits % (1 <<< format.fractionBits)
  let field := bits >>> format.fractionBits % (1 <<< format.exponentBits)
  let negative := bits >>> (format.fractionBits + format.exponentBits) % 2 = 1
  if field = 1 <<< format.exponentBits - 1 then
    if fraction = 0 then .infinite negative else .nan
  else if field = 0 then .finite negative fraction format.leastExponent
  else .finite negative (1 <<< format.fractionBits + fraction) (format.leastExponent + (field - 1))

/-- The bits of `significand * 2 ^ exponent`, for a significand that fits and
    an exponent that is not below the least one. -/
def encode (format : FloatFormat) (negative : Bool) (significand : Nat) (exponent : Int) : Nat :=
  let sign := if negative then 1 <<< (format.fractionBits + format.exponentBits) else 0
  let above := (exponent - format.leastExponent).toNat
  -- How far the significand can move up without leaving the format.
  let shift := min above (format.fractionBits - Nat.log2 significand)
  -- The one in front of a full significand counts the exponent field up by one.
  if significand = 0 then sign
  else sign + (above - shift) <<< format.fractionBits + significand <<< shift

end FloatFormat

/-- The remainder of the division of `a` by `b` that truncates its quotient. It
    is exact, has the sign of `a`, and is no number if `a` is infinite or `b`
    zero. -/
def Float.exactRemainder (a b : Float) : Float :=
  let format := FloatFormat.double
  match format.decode a.toBits.toNat, format.decode b.toBits.toNat with
  | .finite _ _ _, .infinite _ => a
  | .finite negative m p, .finite _ n q =>
    if n = 0 then 0.0 / 0.0
    else
      let exponent := min p q
      let rest := (m <<< (p - exponent).toNat) % (n <<< (q - exponent).toNat)
      Float.ofBits (UInt64.ofNat (format.encode negative rest exponent))
  | _, _ => 0.0 / 0.0

end FileSignatures
