import FileSignatures.Number.Literal

/-!
# Escapes

Operands are written in a C-like notation, in which a backslash and what
follows it stand for one byte. Decoding reads the text once, from left to
right: the only thing to remember is the escape that has begun, because one
more digit may still belong to it.

## Main definitions

* `Escape.Pending`: The escape that has begun.
* `Escape.step`: What the next character completes and what it begins.
* `Escape.finish`: What the end of the text completes.
* `unescape`: The bytes that a text denotes.
-/

namespace FileSignatures

namespace Escape

/-- The part of an escape that has been read. -/
inductive Pending where
  /-- No escape has begun. -/
  | nothing
  /-- A backslash. -/
  | backslash
  /-- A backslash and an `x`. -/
  | hexMark
  /-- A hexadecimal escape with one digit. -/
  | hexDigit (value : Nat)
  /-- An octal escape of `digits` digits, at most two. -/
  | octal (digits : Nat) (value : Nat)
  deriving DecidableEq

/-- The byte that an escape with a letter stands for; any other character
    stands for itself. -/
def namedByte : Char → UInt8
  | 'a' => 7
  | 'b' => 8
  | 't' => 9
  | 'n' => 10
  | 'v' => 11
  | 'f' => 12
  | 'r' => 13
  | c => Text.latin1Byte c.toNat

/-- What a character means where no escape is under way. -/
def begin (c : Char) : List UInt8 × Pending :=
  if c = '\\' then ([], .backslash) else ([Text.latin1Byte c.toNat], .nothing)

/-- Puts the byte of an escape that has come to its end before what the next
    character means by itself. -/
def close (byte : UInt8) (c : Char) : List UInt8 × Pending :=
  (byte :: (begin c).1, (begin c).2)

/-- The bytes that a character completes and the escape that is then pending.
    An escape takes as many digits as it can, two hexadecimal or three octal
    ones. -/
def step : Pending → Char → List UInt8 × Pending
  | .nothing, c => begin c
  | .backslash, c =>
    if c = 'x' then ([], .hexMark)
    else
      match digitValue? 8 c with
      | some d => ([], .octal 1 d)
      | none => ([namedByte c], .nothing)
  | .hexMark, c =>
    match digitValue? 16 c with
    | some d => ([], .hexDigit d)
    | none => close (UInt8.ofNat 'x'.toNat) c
  | .hexDigit value, c =>
    match digitValue? 16 c with
    | some d => ([Text.latin1Byte (value * 16 + d)], .nothing)
    | none => close (Text.latin1Byte value) c
  | .octal digits value, c =>
    match digitValue? 8 c with
    | some d =>
      if digits = 1 then ([], .octal 2 (value * 8 + d))
      else ([Text.latin1Byte (value * 8 + d)], .nothing)
    | none => close (Text.latin1Byte value) c

/-- The bytes that the end of the text completes. A backslash that nothing
    follows stands for itself, and so does the `x` of a hexadecimal escape
    without digits. -/
def finish : Pending → List UInt8
  | .nothing => []
  | .backslash => [UInt8.ofNat '\\'.toNat]
  | .hexMark => [UInt8.ofNat 'x'.toNat]
  | .hexDigit value => [Text.latin1Byte value]
  | .octal _ value => [Text.latin1Byte value]

/-- The bytes that a text denotes after the pending part of an escape. -/
def decodeFrom (pending : Pending) : Text → List UInt8
  | [] => finish pending
  | c :: rest => (step pending c).1 ++ decodeFrom (step pending c).2 rest

end Escape

/-- The bytes that a text with escapes denotes. Characters that no byte stands
    for become question marks. -/
def unescape (t : Text) : List UInt8 :=
  Escape.decodeFrom .nothing t

end FileSignatures
