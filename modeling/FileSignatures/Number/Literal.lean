import FileSignatures.Text.Blank

/-!
# Integer literals

Offsets, masks and numeric operands are written as integers with an optional
sign, in hexadecimal after `0x`, `0X` or `#`, in octal after a leading zero,
and in decimal otherwise. A literal denotes an exact integer; whoever reads it
decides which range is acceptable and whether large unsigned values stand for
their two's complement.

## Main definitions

* `digitsValue?`: The value of a digit list in a radix.
* `Literal.ofText?`: The integer that a literal denotes.
* `Literal.signed?`: A literal in the range of a signed 64-bit word.
* `Literal.word?`: A literal that some 64-bit word represents.
* `count?`: A count in decimal.
-/

namespace FileSignatures

/-- The value of a digit, letters of either case standing for ten and up. -/
def digitValue? (radix : Nat) (c : Char) : Option Nat :=
  let value? :=
    if '0' ≤ c ∧ c ≤ '9' then some (c.toNat - '0'.toNat)
    else if 'a' ≤ c ∧ c ≤ 'z' then some (c.toNat - 'a'.toNat + 10)
    else if 'A' ≤ c ∧ c ≤ 'Z' then some (c.toNat - 'A'.toNat + 10)
    else none
  value?.filter (· < radix)

/-- The value of a list of digits whose more significant part is `high`, or
    nothing if a character is no digit of the radix. -/
def digitsValueFrom? (radix : Nat) (high : Nat) : Text → Option Nat
  | [] => some high
  | c :: rest =>
    match digitValue? radix c with
    | none => none
    | some d => digitsValueFrom? radix (high * radix + d) rest

/-- The value of a non-empty list of digits of a radix. -/
def digitsValue? (radix : Nat) : Text → Option Nat
  | [] => none
  | digits => digitsValueFrom? radix 0 digits

/-- Whether a character is one of the ten decimal digits. -/
def isDigit (c : Char) : Bool :=
  '0' ≤ c && c ≤ '9'

namespace Literal

/-- The number of values of a 64-bit word. Magnitudes stay below it. -/
def wordCount : Nat := 0x10000000000000000

/-- The number of values of a signed word that are not negative. -/
def signedBound : Int := 0x8000000000000000

/-- The radix that the first characters of an unsigned literal select, and the
    digits after them. A lone zero is decimal. -/
def radixAndDigits : Text → Nat × Text
  | '0' :: 'x' :: digits => (16, digits)
  | '0' :: 'X' :: digits => (16, digits)
  | '#' :: digits => (16, digits)
  | '0' :: d :: digits => (8, d :: digits)
  | digits => (10, digits)

/-- The magnitude of an unsigned literal, if it fits in 64 bits. -/
def magnitude? (body : Text) : Option Nat :=
  let (radix, digits) := radixAndDigits body
  (digitsValue? radix digits).filter (· < wordCount)

/-- The integer that a literal denotes. Blanks around it do not count, but
    none may stand between the sign and the digits. -/
def ofText? (t : Text) : Option Int :=
  match t.trim with
  | '-' :: body => (magnitude? body).map fun n => -(n : Int)
  | '+' :: body => (magnitude? body).map fun n => (n : Int)
  | body => (magnitude? body).map fun n => (n : Int)

/-- An integer as a signed word, if it lies in its range. -/
def toSigned? (n : Int) : Option Int64 :=
  if -signedBound ≤ n ∧ n < signedBound then some (Int64.ofInt n) else none

/-- An integer as the word that represents it, signed or unsigned, if there
    is one. The two readings agree where both apply, so the word is the value
    modulo their count. -/
def toWord? (n : Int) : Option Int64 :=
  if -signedBound ≤ n ∧ n < wordCount then some (Int64.ofInt n) else none

/-- A literal in the range of a signed word. -/
def signed? (t : Text) : Option Int64 :=
  (ofText? t).bind toSigned?

/-- A literal that some 64-bit word represents. -/
def word? (t : Text) : Option Int64 :=
  (ofText? t).bind toWord?

end Literal

/-- A count: digits, after a plus sign if need be, that fit in 64 bits. -/
def count? (t : Text) : Option Nat :=
  let digits := match t with
    | '+' :: digits => digits
    | digits => digits
  (digitsValue? 10 digits).filter (· < Literal.wordCount)

end FileSignatures
