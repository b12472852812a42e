import FileSignatures.Number.Literal
import FileSignatures.Number.Rounding
import FileSignatures.Value

/-!
# Templates

The description of a rule is a template: a text in which conversions, begun by
a percent sign, give way to the value that the rule has read. A template is a
sequence of segments that do not influence each other, so it is cut into
segments first and each of them is filled in on its own.

## Main definitions

* `Conversion`: Flags, width and precision of a conversion.
* `Conversion.convert?`: The text of a value under a conversion.
* `Segment`: A character, an escaped percent sign, or a conversion.
* `Template.segments`: The segments of a template.
* `Template.fill`: A template with a value put in.
-/

namespace FileSignatures

/-- What stands between the percent sign and the final letter of a conversion,
    length letters aside, which change nothing. -/
structure Conversion where
  /-- Fill on the right. -/
  left : Bool
  /-- Write a plus sign before numbers that are not negative. -/
  plus : Bool
  /-- Write a space before numbers that are not negative. -/
  space : Bool
  /-- Write the radix before numbers other than zero. -/
  alternate : Bool
  /-- Fill numbers with zeros. -/
  zero : Bool
  /-- The least count of characters. -/
  width : Option Nat
  /-- The least count of digits, the count of decimal places, or the greatest
      count of characters, as the final letter says. -/
  precision : Option Nat
  deriving DecidableEq

namespace Conversion

/-- Fills a text up to the width. Zeros go between the sign or radix and the
    digits of a number, unless a precision already fixes their count. -/
def pad (spec : Conversion) (numeric : Bool) (lead body : Text) : Text :=
  let fill := spec.width.getD 0 - (lead ++ body).length
  if spec.left then lead ++ body ++ List.replicate fill ' '
  else if spec.zero && numeric && spec.precision.isNone then
    lead ++ List.replicate fill '0' ++ body
  else List.replicate fill ' ' ++ lead ++ body

/-- The sign that a conversion writes before a signed number. -/
def sign (spec : Conversion) (negative : Bool) : Text :=
  if negative then ['-']
  else if spec.plus then ['+']
  else if spec.space then [' ']
  else []

/-- The mark of the radix that a conversion writes before an unsigned number. -/
def radixMark (spec : Conversion) (n : Int64) (mark : Text) : Text :=
  if spec.alternate && n ≠ 0 then mark else []

/-- Zeros before the digits up to the precision. -/
def withLeadingZeros (spec : Conversion) (digits : Text) : Text :=
  List.replicate (spec.precision.getD 0 - digits.length) '0' ++ digits

/-- What a number under an integer conversion consists of: sign or mark of the
    radix, and digits. Only `d` and `i` know negative numbers; the others write
    the word as an unsigned number. -/
def integerParts? (spec : Conversion) (letter : Char) (n : Int64) : Option (Text × Text) :=
  let word := n.toUInt64.toNat
  match letter with
  | 'd' | 'i' =>
    some (spec.sign (n < 0), spec.withLeadingZeros (Text.ofNat n.toInt.natAbs))
  | 'u' => some ([], spec.withLeadingZeros (Text.ofNat word))
  | 'x' =>
    some (spec.radixMark n ['0', 'x'], spec.withLeadingZeros (Nat.toDigits 16 word))
  | 'X' =>
    some (spec.radixMark n ['0', 'X'],
      spec.withLeadingZeros ((Nat.toDigits 16 word).map Char.toUpper))
  | 'o' => some (spec.radixMark n ['0'], spec.withLeadingZeros (Nat.toDigits 8 word))
  | _ => none

/-- A magnitude as a binary floating-point number of 53 significant bits,
    written with a fixed count of places. It is a whole number, so its places
    are all zero. -/
def fixedPlaces (spec : Conversion) (magnitude : Nat) : Text :=
  let places := spec.precision.getD 6
  Text.ofNat (nearestWithBits 53 magnitude)
    ++ (if places = 0 then [] else '.' :: List.replicate places '0')

/-- The character of a value under the conversion `c`: the one of the low byte
    of a number, the first one of a string. -/
def character : Value → Char
  | .number n => Char.ofUInt8 n.toUInt64.toUInt8
  | .bytes content => Char.ofUInt8 (content.headD 0)

/-- The text of a value under a conversion with the given final letter, or
    nothing if the letter is not one of a conversion. A string under an integer
    conversion is written as under `s`, its precision aside, and under a
    floating-point conversion as it is. -/
def convert? (spec : Conversion) (letter : Char) (v : Value) : Option Text :=
  match letter with
  | 's' =>
    let text := v.display
    some (spec.pad false [] (match spec.precision with
      | some limit => text.take limit
      | none => text))
  | 'c' => some (spec.pad false [] [character v])
  | 'd' | 'i' | 'u' | 'x' | 'X' | 'o' =>
    match v with
    | .number n =>
      (spec.integerParts? letter n).map fun (lead, body) => spec.pad true lead body
    | .bytes _ => some (spec.pad false [] v.display)
  | 'f' | 'F' =>
    match v with
    | .number n =>
      some (spec.pad true (spec.sign (n < 0)) (spec.fixedPlaces n.toInt.natAbs))
    | .bytes _ => some v.display
  | _ => none

end Conversion

/-- A piece of a template. -/
inductive Segment where
  /-- A character other than the percent sign. -/
  | literal (c : Char)
  /-- Two percent signs. -/
  | percent
  /-- A conversion, with its text up to the final letter, and that letter. -/
  | conversion (spec : Conversion) (raw : Text) (letter : Char)
  /-- A conversion that the end of the template cuts off. -/
  | unfinished (raw : Text)
  deriving DecidableEq

namespace Segment

/-- The text of a segment in the template. -/
def source : Segment → Text
  | literal c => [c]
  | percent => ['%', '%']
  | conversion _ raw letter => raw ++ [letter]
  | unfinished raw => raw

/-- The text that a segment becomes. What is no conversion after all stays as
    it is written. -/
def fill (v : Value) : Segment → Text
  | literal c => [c]
  | percent => ['%']
  | conversion spec raw letter => (spec.convert? letter v).getD (raw ++ [letter])
  | unfinished raw => raw

end Segment

namespace Template

/-- Whether a character is a flag of a conversion. -/
def isFlag (c : Char) : Bool :=
  c = '-' || c = '+' || c = ' ' || c = '#' || c = '0'

/-- Whether a character is a length letter, which may stand before the final
    letter of a conversion and changes nothing. -/
def isLengthLetter (c : Char) : Bool :=
  c = 'h' || c = 'l' || c = 'L' || c = 'q' || c = 'j' || c = 'z' || c = 't'

/-- The number that a run of digits denotes. An empty run denotes none, and
    neither does one beyond the range of a 64-bit word. -/
def count? (digits : Text) : Option Nat :=
  (digitsValue? 10 digits).filter (· < Literal.wordCount)

/-- The part of a conversion before its length letters: flags, width, and
    whether a point and a precision follow. -/
def conversionOf (flags width : Text) (precision : Option Text) : Conversion where
  left := flags.contains '-'
  plus := flags.contains '+'
  space := flags.contains ' '
  alternate := flags.contains '#'
  zero := flags.contains '0'
  width := count? width
  precision := precision.map fun digits => (count? digits).getD 0

/-- The digits after a point, if the text begins with one, and the rest. -/
def scanPrecision : Text → Option Text × Text
  | '.' :: rest => (some (rest.takeWhile isDigit), rest.dropWhile isDigit)
  | rest => (none, rest)

/-- The segment that begins with a percent sign, given what follows the sign:
    any flags, a run of digits, a point and another run of digits, any length
    letters, and one final character. -/
def scanConversion (t : Text) : Segment :=
  let flags := t.takeWhile isFlag
  let afterFlags := t.dropWhile isFlag
  let width := afterFlags.takeWhile isDigit
  let (precision, afterPrecision) := scanPrecision (afterFlags.dropWhile isDigit)
  let point := match precision with
    | some digits => '.' :: digits
    | none => []
  let raw := '%' :: (flags ++ width ++ point ++ afterPrecision.takeWhile isLengthLetter)
  match afterPrecision.dropWhile isLengthLetter with
  | letter :: _ => .conversion (conversionOf flags width precision) raw letter
  | [] => .unfinished raw

/-- The first segment of a template that begins with `c`. -/
def firstSegment (c : Char) (rest : Text) : Segment :=
  if c ≠ '%' then .literal c
  else if rest.head? = some '%' then .percent
  else scanConversion rest

/-- The segments of a template without its first `skipped` characters. -/
def segmentsAfter : (skipped : Nat) → Text → List Segment
  | _, [] => []
  | skipped + 1, _ :: rest => segmentsAfter skipped rest
  | 0, c :: rest =>
    let segment := firstSegment c rest
    segment :: segmentsAfter (segment.source.length - 1) rest

/-- The segments of a template, from left to right. -/
def segments (template : Text) : List Segment :=
  segmentsAfter 0 template

/-- A template with a value put into each of its conversions. -/
def fill (template : Text) (v : Value) : Text :=
  (segments template).flatMap (Segment.fill v)

end Template

end FileSignatures
