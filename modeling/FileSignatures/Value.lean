import FileSignatures.Text.Blank

/-!
# Values

A rule compares two values: the operand that it declares and the one that it
reads from a resource. Both are either a number, held in 64 bits whatever its
width in the resource, or the bytes of a string.

## Main definitions

* `ValueType`: The types a rule can read, with their keywords and widths.
* `ValueType.foldCase`: A string without regard to case.
* `Value`: A number or a string of bytes.
* `ByteOrder.value`: The number that some bytes spell.
* `Value.decode?`: The masked number of a type that some bytes spell.
* `Value.display`: The text of a value inside a description.
-/

namespace FileSignatures

/-- Which end of a number is stored first. -/
inductive ByteOrder where
  | little
  | big
  deriving DecidableEq, Repr

namespace ByteOrder

/-- The number that some bytes spell, the least significant byte first. -/
def littleValue : List UInt8 → Nat
  | [] => 0
  | b :: rest => b.toNat + 256 * littleValue rest

/-- The unsigned number that some bytes spell in the given order. -/
def value (order : ByteOrder) (bytes : List UInt8) : Nat :=
  match order with
  | .little => littleValue bytes
  | .big => littleValue bytes.reverse

end ByteOrder

/-- A byte with an ASCII letter in upper case. -/
def upperByte (b : UInt8) : UInt8 :=
  if UInt8.ofNat 'a'.toNat ≤ b ∧ b ≤ UInt8.ofNat 'z'.toNat then b - 32 else b

/-- The type of the datum that a rule reads: an unsigned number of one, two or
    four bytes, or a string, compared with or without regard to case. -/
inductive ValueType where
  | byte
  | string
  | caselessString
  | leShort
  | leLong
  | beShort
  | beLong
  deriving DecidableEq, Repr

namespace ValueType

/-- The keyword that databases use for a type. -/
def keyword : ValueType → Text
  | byte => "byte".toList
  | string => "string".toList
  | caselessString => "string/c".toList
  | leShort => "leshort".toList
  | leLong => "lelong".toList
  | beShort => "beshort".toList
  | beLong => "belong".toList

/-- Every type once. -/
def all : List ValueType :=
  [byte, string, caselessString, leShort, leLong, beShort, beLong]

/-- The type that a keyword names, blanks around it aside. A string without
    regard to case has a second keyword of its own. -/
def ofKeyword? (t : Text) : Option ValueType :=
  let word := t.trim
  if word = "istring".toList then some caselessString
  else all.find? fun type => type.keyword = word

/-- The type of the pointer that the width letter of an indirect offset
    selects. Capital letters are big-endian. -/
def ofWidthLetter? : Char → Option ValueType
  | 'b' | 'B' => some byte
  | 's' => some leShort
  | 'S' => some beShort
  | 'l' => some leLong
  | 'L' => some beLong
  | _ => none

/-- Whether values of the type are numbers. -/
def isNumeric : ValueType → Bool
  | string | caselessString => false
  | _ => true

/-- The bytes that a number of the type takes up; none for strings, whose
    length the rule decides. -/
def width : ValueType → Nat
  | byte => 1
  | leShort | beShort => 2
  | leLong | beLong => 4
  | string | caselessString => 0

/-- The order of the bytes of a number. A single byte has only one. -/
def byteOrder : ValueType → ByteOrder
  | beShort | beLong => .big
  | _ => .little

/-- The bytes of a string as they are compared: in upper case where case does
    not count. -/
def foldCase : ValueType → List UInt8 → List UInt8
  | caselessString, content => content.map upperByte
  | _, content => content

/-- What the type alone adds to the length of a signature. A number of four
    bytes weighs as much as a string of eight, so that it outranks short
    strings. -/
def weight : ValueType → Nat
  | leLong | beLong => 8
  | type => type.width

end ValueType

/-- A number or the bytes of a string. -/
inductive Value where
  | number (n : Int64)
  | bytes (content : List UInt8)
  deriving DecidableEq

namespace Value

/-- The mask that changes no number. -/
def fullMask : UInt64 := 0xffffffffffffffff

/-- The operand that stands for "anything": zero, or `size` zero bytes. -/
def placeholder (type : ValueType) (size : Nat) : Value :=
  if type.isNumeric then number 0 else bytes (List.replicate size 0)

/-- The number of a type that exactly the given bytes spell, masked. Strings
    and other byte counts have none. The number is unsigned, so it is negative
    in 64 bits only if it needs all of them, which no type does. -/
def decodeNumber? (type : ValueType) (mask : UInt64) (content : List UInt8) : Option Int64 :=
  if type.isNumeric ∧ content.length = type.width then
    some (UInt64.ofNat (type.byteOrder.value content) &&& mask).toInt64
  else none

/-- The value of a numeric type that exactly the given bytes spell, masked. -/
def decode? (type : ValueType) (mask : UInt64) (content : List UInt8) : Option Value :=
  (decodeNumber? type mask content).map number

/-- The number, if the value is one. -/
def number? : Value → Option Int64
  | number n => some n
  | bytes _ => none

/-- The bytes, if the value is a string. -/
def bytes? : Value → Option (List UInt8)
  | number _ => none
  | bytes content => some content

/-- The size of a value in bytes; a number counts as held. -/
def size : Value → Nat
  | number _ => 8
  | bytes content => content.length

/-- Whether a value takes up no bytes at all. -/
def isEmpty (v : Value) : Bool :=
  v.size = 0

/-- The text of a value inside a description. A string ends before its first
    zero byte. -/
def display : Value → Text
  | number n => Text.ofInt n.toInt
  | bytes content => Text.ofLatin1 (content.takeWhile (· ≠ 0))

end Value

end FileSignatures
