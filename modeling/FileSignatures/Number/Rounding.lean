/-!
# Rounding natural numbers

A floating-point number keeps a fixed count of significant bits. Rounding a
natural number to them is exact arithmetic: divide by the power of two that
brings the number down to that many bits and look at the remainder.

## Main definitions

* `roundedQuotient`: A quotient rounded to the nearest natural number.
* `nearestWithBits`: The nearest number with so many significant bits.
-/

namespace FileSignatures

/-- The natural number nearest to `n / d`. A tie goes to the even one. -/
def roundedQuotient (n d : Nat) : Nat :=
  let q := n / d
  let r := n % d
  if 2 * r < d then q
  else if d < 2 * r then q + 1
  else if q % 2 = 0 then q
  else q + 1

/-- The number nearest to `n` of those that have at most `bits` significant
    bits. A tie goes to the one whose last significant bit is zero. -/
def nearestWithBits (bits n : Nat) : Nat :=
  if n < 1 <<< bits then n
  else
    let scale := 1 <<< (Nat.log2 n + 1 - bits)
    roundedQuotient n scale * scale

end FileSignatures
