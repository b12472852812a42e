import FileSignatures.Decimal.Shortest
import FileSignatures.Floating.Binary

/-!
# Decimals beyond a floating-point format

A decimal is read as the nearest number of a format, and as infinity if it lies
too far above the greatest of them. Which of the two happens is a comparison of
natural numbers. The count of digits settles it for all decimals but those of
the very magnitude of the bound, so a huge exponent costs nothing.

## Main definitions

* `FloatFormat.overflowBound`: The least number that rounds to infinity.
* `FloatFormat.overflows`: Whether a decimal rounds to infinity.
-/

namespace FileSignatures

namespace FloatFormat

/-- The least number that rounds to infinity. It lies half a unit of the last
    place above the greatest finite number, whose significand is odd, so that
    the tie goes up. -/
def overflowBound (format : FloatFormat) : Nat :=
  -- Twice the greatest significand, so that half of its last place counts one.
  let greatestTwice := 1 <<< (format.fractionBits + 2) - 2
  (greatestTwice + 1) <<< (1 <<< (format.exponentBits - 1) - format.fractionBits - 2)

/-- Whether `n * 10 ^ exponent` rounds to infinity. -/
def overflows (format : FloatFormat) (n : Nat) (exponent : Int) : Bool :=
  let digitCount (n : Nat) : Nat := (Nat.toDigits 10 n).length
  -- How many digits of the decimal stand before its point.
  let reach := digitCount n + exponent
  let boundReach := digitCount format.overflowBound
  if n = 0 || reach < boundReach then false
  else if boundReach < reach then true
  else format.overflowBound * tenTo (-exponent).toNat ≤ n * tenTo exponent.toNat

end FloatFormat

end FileSignatures
