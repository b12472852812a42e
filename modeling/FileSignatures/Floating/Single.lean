import FileSignatures.Decimal.Shortest
import FileSignatures.Floating.Binary
import FileSignatures.Text.Basic

/-!
# Single-precision numbers as text

Rates are held in single precision and written with the fewest digits that
read back as the same number.

## Main definitions

* `SingleLayout`: Where positional notation ends, and the words for what is no
  finite number.
* `rateLayout`: The layout of rates.
* `Float.singleText`: A number, rounded to single precision, as text.
-/

namespace FileSignatures

/-- How a number is laid out. -/
structure SingleLayout where
  /-- The least power of ten of a first digit that is written positionally. -/
  leastPositional : Int
  /-- The least power of ten above that is not. -/
  leastExponential : Int
  nan : Text
  infinity : Text

/-- Rates are written positionally from `0.0001` on and below `10 ^ 16`, with
    at least one decimal place, and otherwise with an exponent. -/
def rateLayout : SingleLayout where
  leastPositional := -4
  leastExponential := 16
  nan := "NaN".toList
  infinity := "inf".toList

namespace SingleLayout

/-- Digits with a point after the first `places` of them, zeros standing in
    for digits that are missing on either side. -/
def withPoint (digits : Text) (places : Int) : Text :=
  if places ≤ 0 then
    '0' :: '.' :: (List.replicate (-places).toNat '0' ++ digits)
  else
    let count := places.toNat
    let whole := digits.take count ++ List.replicate (count - digits.length) '0'
    let fraction := digits.drop count
    whole ++ '.' :: (if fraction.isEmpty then ['0'] else fraction)

/-- Digits with a point after the first one, if there are more, and a power of
    ten. -/
def withExponent (digits : Text) (exponent : Int) : Text :=
  let fraction := digits.drop 1
  digits.take 1 ++ (if fraction.isEmpty then [] else '.' :: fraction)
    ++ 'e' :: Text.ofInt exponent

/-- A positive decimal in a layout. -/
def decimal (layout : SingleLayout) (d : Decimal) : Text :=
  if layout.leastPositional ≤ d.exponent ∧ d.exponent < layout.leastExponential then
    withPoint d.digits (d.exponent + 1)
  else withExponent d.digits d.exponent

/-- The numbers that round to `significand * 2 ^ exponent` in single precision.
    They reach halfway to the neighbours on either side; below a power of two
    the neighbour is only half as far. The ends belong to the number whose
    significand is even. -/
def roundingInterval (significand : Nat) (exponent : Int) : RealInterval :=
  let nearBelow := significand = 1 <<< FloatFormat.single.fractionBits
    && FloatFormat.single.leastExponent < exponent
  let scale := 1 <<< (exponent - 2).toNat
  { low := (4 * significand - (if nearBelow then 1 else 2)) * scale
    value := 4 * significand * scale
    high := (4 * significand + 2) * scale
    unit := 1 <<< (2 - exponent).toNat
    closed := significand % 2 = 0 }

/-- The content of a single-precision number in a layout. Nine digits tell any
    two such numbers apart, and all of them lie between `10 ^ (-46)` and
    `10 ^ 39`. -/
def content (layout : SingleLayout) : FloatContent → Text
  | .nan => layout.nan
  | .infinite negative => (if negative then ['-'] else []) ++ layout.infinity
  | .finite negative significand exponent =>
    (if negative then ['-'] else [])
      ++ (if significand = 0 then withPoint ['0'] 1
          else layout.decimal ((roundingInterval significand exponent).shortest 46 10))

end SingleLayout

/-- A number, rounded to single precision, in the layout of rates. -/
def Float.singleText (x : Float) : Text :=
  rateLayout.content (FloatFormat.single.decode x.toFloat32.toBits.toNat)

end FileSignatures
