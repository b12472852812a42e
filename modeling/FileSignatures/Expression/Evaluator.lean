import FileSignatures.Expression.Basic
import FileSignatures.Floating.Binary
import FileSignatures.Number.Literal

/-!
# Evaluators

Integer properties are evaluated in signed 64-bit words, where leaving the
range is an error, and rates in double precision, where it is not. Whoever
extracts properties may bring an evaluator of his own.

## Main definitions

* `integerArithmetic`: Signed words, checked.
* `floatArithmetic`: Double precision.
* `Evaluator`: How numeric properties are evaluated.
* `Evaluator.arithmetic`: The evaluator of arithmetic expressions.
-/

namespace FileSignatures

/-- An exact integer as a signed word, if it is in range. -/
def checkedWord (n : Int) : Except ExpressionError Int64 :=
  match Literal.toSigned? n with
  | some w => .ok w
  | none => .error .overflow

/-- Signed words. Every operation is that of the integers, checked against the
    range; division truncates, and its remainder has the sign of the dividend.
    Numerals consist of decimal digits and are not negative. -/
def integerArithmetic : Arithmetic Int64 where
  isNumeralChar := isDigit
  numeral text :=
    match (digitsValue? 10 text).bind fun n => Literal.toSigned? n with
    | some w => .ok w
    | none => .error (.invalidNumeral text)
  negate a := checkedWord (-a.toInt)
  add a b := checkedWord (a.toInt + b.toInt)
  subtract a b := checkedWord (a.toInt - b.toInt)
  multiply a b := checkedWord (a.toInt * b.toInt)
  divide a b :=
    if b = 0 then .error .divisionByZero else checkedWord (a.toInt.tdiv b.toInt)
  -- A remainder is in range, but it belongs to a quotient, which may not be.
  remainder a b :=
    if b = 0 then .error .divisionByZero
    else (checkedWord (a.toInt.tdiv b.toInt)).bind fun _ => checkedWord (a.toInt.tmod b.toInt)

/-- The number nearest to a decimal numeral: digits with at most one point, and
    at least one digit. -/
def floatNumeral (text : Text) : Except ExpressionError Float :=
  let whole := text.takeWhile isDigit
  let fraction? := match text.dropWhile isDigit with
    | [] => some []
    | '.' :: digits => if digits.all isDigit then some digits else none
    | _ => none
  match fraction?.bind fun fraction =>
      (digitsValue? 10 (whole ++ fraction)).map fun n => (n, fraction.length) with
  | some (n, places) => .ok (Float.ofScientific n true places)
  | none => .error (.invalidNumeral text)

/-- Numbers in double precision. Only division by zero fails. -/
def floatArithmetic : Arithmetic Float where
  isNumeralChar c := isDigit c || c = '.'
  numeral := floatNumeral
  negate a := .ok (-a)
  add a b := .ok (a + b)
  subtract a b := .ok (a - b)
  multiply a b := .ok (a * b)
  divide a b := if b == 0.0 then .error .divisionByZero else .ok (a / b)
  remainder a b := if b == 0.0 then .error .divisionByZero else .ok (Float.exactRemainder a b)

/-- How the text of a numeric property is evaluated. -/
structure Evaluator where
  integer : Text → Except ExpressionError Int64
  float : Text → Except ExpressionError Float

/-- Evaluates arithmetic expressions. -/
def Evaluator.arithmetic : Evaluator where
  integer := Expression.evaluate integerArithmetic
  float := Expression.evaluate floatArithmetic

end FileSignatures
