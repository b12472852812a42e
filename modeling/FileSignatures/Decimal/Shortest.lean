/-!
# Shortest decimals

Of the decimals that lie in an interval around a number, the one with the
fewest digits, and of several with that many the nearest to the number.

If a point of a decimal grid lies in an interval around a number, so does one
of the two grid points next to the number. Going from coarse grids to fine
ones, it is therefore enough to look at two points of each grid, in exact
arithmetic.

## Main definitions

* `RealInterval`: A number and an interval around it.
* `Decimal`: Digits and the power of ten of the first one.
* `RealInterval.shortest`: The shortest decimal in an interval.
-/

namespace FileSignatures

/-- The number `value / unit` and an interval from `low / unit` to
    `high / unit` around it, the ends included or not. -/
structure RealInterval where
  low : Nat
  value : Nat
  high : Nat
  unit : Nat
  closed : Bool

/-- A positive decimal `d.ddd * 10 ^ exponent`. -/
structure Decimal where
  digits : List Char
  exponent : Int

namespace Decimal

/-- The decimal `n * 10 ^ scale`, without zeros at the end of its digits. -/
def ofScaled (n : Nat) (scale : Int) : Decimal :=
  let all := Nat.toDigits 10 n
  { digits := (all.reverse.dropWhile (· = '0')).reverse
    exponent := scale + (all.length - 1 : Nat) }

end Decimal

/-- A power of ten. -/
def tenTo (exponent : Nat) : Nat :=
  Nat.pow 10 exponent

namespace RealInterval

/-- Whether `n * 10 ^ scale` lies in the interval. -/
def contains (interval : RealInterval) (n : Nat) (scale : Int) : Bool :=
  let point := n * tenTo scale.toNat * interval.unit
  let factor := tenTo (-scale).toNat
  if interval.closed then
    interval.low * factor ≤ point && point ≤ interval.high * factor
  else interval.low * factor < point && point < interval.high * factor

/-- The greatest `n` for which `n * 10 ^ scale` does not exceed the number. -/
def floorAt (interval : RealInterval) (scale : Int) : Nat :=
  interval.value * tenTo (-scale).toNat / (interval.unit * tenTo scale.toNat)

/-- Whether the number is closer to `n * 10 ^ scale`, the grid point below it,
    than to the one above. From the middle both are as far. -/
def isCloserBelow (interval : RealInterval) (n : Nat) (scale : Int) : Bool :=
  2 * interval.value * tenTo (-scale).toNat < (2 * n + 1) * interval.unit * tenTo scale.toNat

/-- The point of the grid `10 ^ scale` in the interval that is nearest to the
    number, the upper one of two that are as near. -/
def nearestOn? (interval : RealInterval) (scale : Int) : Option Nat :=
  let below := interval.floorAt scale
  match interval.contains below scale, interval.contains (below + 1) scale with
  | true, true =>
    some (if interval.isCloserBelow below scale then below else below + 1)
  | true, false => some below
  | false, true => some (below + 1)
  | false, false => none

/-- The power of ten of the first digit of the number, between two bounds of
    which `steps` is the distance. -/
def leadingExponent (interval : RealInterval) : (steps : Nat) → (least : Int) → Int
  | 0, least => least
  | steps + 1, least =>
    if interval.floorAt (least + (steps + 1 : Nat)) = 0 then
      leadingExponent interval steps least
    else least + (steps + 1 : Nat)

/-- The shortest decimal of the interval that has between `count` digits and
    `count + more` digits; the finest grid stands in if none of them meets it. -/
def shortestFrom (interval : RealInterval) (leading : Int) (count : Nat) : Nat → Decimal
  | 0 =>
    let scale := leading - (count - 1 : Nat)
    .ofScaled (interval.floorAt scale) scale
  | more + 1 =>
    let scale := leading - (count - 1 : Nat)
    match interval.nearestOn? scale with
    | some n => .ofScaled n scale
    | none => shortestFrom interval leading (count + 1) more

/-- The shortest decimal of an interval around a positive number whose first
    digit lies between `10 ^ (-range)` and `10 ^ range`. -/
def shortest (interval : RealInterval) (range digits : Nat) : Decimal :=
  shortestFrom interval (interval.leadingExponent (2 * range) (-range)) 1 digits

end RealInterval

end FileSignatures
