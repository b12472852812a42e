import FileSignatures.Floating.Overflow
import FileSignatures.Number.Literal
import FileSignatures.Toml.Document

/-!
# TOML numbers, truth values and dates

What is neither a string nor a bracketed value is a single word, which only has
to be told apart from the others of its kind. Dates are the one exception: a
space may stand between a date and a time.

## Main definitions

* `Toml.integerOf?`: The integer that a word denotes.
* `Toml.decimalOf?`: The decimal that a word without a sign denotes.
* `Toml.isFloat`: Whether a word denotes a fraction in double precision.
* `Toml.isDate`, `Toml.isTime`: Whether a word denotes a date or a time of day.
* `Toml.scalarOf?`: The value that a word denotes.
* `Toml.readScalar?`: The value that a text begins with.
-/

namespace FileSignatures

namespace Toml

/-- Digits without the underscores between them. An underscore anywhere else is
    an error. -/
def ungroup? (isDigitChar : Char → Bool) : Text → Option Text
  | [] => none
  | [c] => if isDigitChar c then some [c] else none
  | c :: '_' :: rest =>
    if isDigitChar c then (ungroup? isDigitChar rest).map (c :: ·) else none
  | c :: rest => if isDigitChar c then (ungroup? isDigitChar rest).map (c :: ·) else none

/-- Whether a character is a digit of a radix. -/
def isDigitOf (radix : Nat) (c : Char) : Bool :=
  (digitValue? radix c).isSome

/-- The value of grouped digits of a radix. -/
def groupedValue? (radix : Nat) (t : Text) : Option Nat :=
  (ungroup? (isDigitOf radix) t).bind (digitsValue? radix)

/-- Decimal digits without the underscores between them, if they do not begin
    with a needless zero. -/
def wholeDigits? (t : Text) : Option Text :=
  match t with
  | '0' :: _ :: _ => none
  | _ => ungroup? isDigit t

/-- The value of grouped decimal digits that do not begin with a needless
    zero. -/
def decimalValue? (t : Text) : Option Nat :=
  (wholeDigits? t).bind (digitsValue? 10)

/-- The integer that a word denotes, if it fits in a signed 64-bit word. Only
    decimal ones have a sign. -/
def integerOf? (word : Text) : Option Int :=
  let n? : Option Int := match word with
    | '0' :: 'x' :: digits => (groupedValue? 16 digits).map fun n => (n : Int)
    | '0' :: 'o' :: digits => (groupedValue? 8 digits).map fun n => (n : Int)
    | '0' :: 'b' :: digits => (groupedValue? 2 digits).map fun n => (n : Int)
    | '+' :: digits => (decimalValue? digits).map fun n => (n : Int)
    | '-' :: digits => (decimalValue? digits).map fun n => -(n : Int)
    | digits => (decimalValue? digits).map fun n => (n : Int)
  n?.filter fun n => -Literal.signedBound ≤ n && n < Literal.signedBound

/-- A word without the sign that it begins with. -/
def dropSign : Text → Text
  | '+' :: rest => rest
  | '-' :: rest => rest
  | word => word

/-- The digits after the point of a number, if it has one. -/
def placeDigits? : Text → Option Text
  | [] => some []
  | _ :: digits => ungroup? isDigit digits

/-- The exponent of a number after its mark, zero if it has none. -/
def exponentOf? : Text → Option Int
  | [] => some 0
  | _ :: '-' :: digits => (groupedValue? 10 digits).map fun n => -(n : Int)
  | _ :: '+' :: digits => (groupedValue? 10 digits).map fun n => (n : Int)
  | _ :: digits => (groupedValue? 10 digits).map fun n => (n : Int)

/-- The decimal `n * 10 ^ exponent` that a word without a sign denotes: digits
    with a point and places, an exponent, or both. -/
def decimalOf? (body : Text) : Option (Nat × Int) :=
  let isExponentMark (c : Char) : Bool := c = 'e' || c = 'E'
  let mantissa := body.takeWhile fun c => !isExponentMark c
  let scale := body.dropWhile fun c => !isExponentMark c
  let places := mantissa.dropWhile (· ≠ '.')
  if places.isEmpty && scale.isEmpty then none
  else do
    let whole ← wholeDigits? (mantissa.takeWhile (· ≠ '.'))
    let fraction ← placeDigits? places
    let exponent ← exponentOf? scale
    let n ← digitsValue? 10 (whole ++ fraction)
    return (n, exponent - (fraction.length : Nat))

/-- Whether a word denotes a fraction, an infinity, or no number. A decimal too
    large for double precision is an error, whereas one that is too far below
    zero denotes the infinity there. -/
def isFloat (word : Text) : Bool :=
  let body := dropSign word
  body = "inf".toList || body = "nan".toList
    || (match decimalOf? body with
        | none => false
        | some (n, exponent) => word.head? = some '-' || !FloatFormat.double.overflows n exponent)

/-- The value of exactly two digits. -/
def twoDigits? : Text → Option Nat
  | [a, b] => digitsValue? 10 [a, b]
  | _ => none

/-- Whether a text consists of two digits that denote at most `limit`. -/
def isTwoDigitsUpTo (limit : Nat) (t : Text) : Bool :=
  match twoDigits? t with
  | some n => n ≤ limit
  | none => false

/-- The days of a month. -/
def daysIn (year month : Nat) : Nat :=
  if month = 2 then
    if year % 4 = 0 ∧ (year % 100 ≠ 0 ∨ year % 400 = 0) then 29 else 28
  else if month = 4 ∨ month = 6 ∨ month = 9 ∨ month = 11 then 30
  else 31

/-- Whether a word denotes a date. -/
def isDate (word : Text) : Bool :=
  match Text.pieces '-' word with
  | [year, month, day] =>
    match digitsValue? 10 year, twoDigits? month, twoDigits? day with
    | some y, some m, some d =>
      year.length = 4 && 1 ≤ m && m ≤ 12 && 1 ≤ d && d ≤ daysIn y m
    | _, _, _ => false
  | _ => false

/-- Whether a text denotes seconds, with or without places. A minute may have a
    leap second. -/
def isSeconds (t : Text) : Bool :=
  isTwoDigitsUpTo 60 (t.take 2)
    && (match t.drop 2 with
        | [] => true
        | '.' :: places => !places.isEmpty && places.all isDigit
        | _ => false)

/-- Whether a word denotes a time of day. -/
def isTime (word : Text) : Bool :=
  match Text.pieces ':' word with
  | [hour, minute, seconds] =>
    isTwoDigitsUpTo 23 hour && isTwoDigitsUpTo 59 minute && isSeconds seconds
  | _ => false

/-- Whether a word denotes hours and minutes. -/
def isHourMinute (word : Text) : Bool :=
  match Text.pieces ':' word with
  | [hour, minute] => isTwoDigitsUpTo 23 hour && isTwoDigitsUpTo 59 minute
  | _ => false

/-- Whether a word denotes a time of day, with or without an offset. -/
def isTimeWithOffset (word : Text) : Bool :=
  let isOffsetMark (c : Char) : Bool := c = 'Z' || c = 'z' || c = '+' || c = '-'
  isTime (word.takeWhile fun c => !isOffsetMark c)
    && (match word.dropWhile fun c => !isOffsetMark c with
        | [] => true
        | mark :: offset =>
          if mark = 'Z' || mark = 'z' then offset.isEmpty else isHourMinute offset)

/-- Whether a word denotes a date, a time of day, or both. -/
def isDatetime (word : Text) : Bool :=
  isDate word || isTime word
    || (isDate (word.take 10)
        && (match word.drop 10 with
            | mark :: time => (mark = 'T' || mark = 't') && isTimeWithOffset time
            | [] => false))

/-- The value that a word denotes. -/
def scalarOf? (word : Text) : Option Toml :=
  if word = "true".toList then some (.boolean true)
  else if word = "false".toList then some (.boolean false)
  else
    match integerOf? word with
    | some n => some (.integer n)
    | none =>
      if isFloat word then some .float
      else if isDatetime word then some .datetime
      else none

/-- Whether a character can be part of a word. -/
def isWordChar (c : Char) : Bool :=
  isDigit c || ('a' ≤ c && c ≤ 'z') || ('A' ≤ c && c ≤ 'Z')
    || c = '+' || c = '-' || c = '.' || c = '_' || c = ':'

/-- A text without the time that it begins with, after a space. -/
def dropTime : Text → Text
  | ' ' :: rest => if isTimeWithOffset (rest.takeWhile isWordChar) then rest.dropWhile isWordChar
    else ' ' :: rest
  | rest => rest

/-- Reads the value of the word that a text begins with. -/
def readScalar? (t : Text) : Option (Toml × Text) :=
  let word := t.takeWhile isWordChar
  let rest := t.dropWhile isWordChar
  (scalarOf? word).map fun value => (value, if isDate word then dropTime rest else rest)

end Toml

end FileSignatures
