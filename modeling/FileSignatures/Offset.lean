import FileSignatures.Number.Literal
import FileSignatures.Text.Quoted
import FileSignatures.Value

/-!
# Offsets

Where a rule reads. A position is counted from the start of a resource, or
from its end if it is negative. An indirect offset names the position of a
pointer that the resource itself holds, and what to add to it.

## Main definitions

* `Offset`: A direct or an indirect offset.
* `Offset.ofText?`: The offset that a text denotes.
* `Offset.start?`: The position of an offset's base in a resource of a size.
* `Pointer.target?`: Where a pointer leads in a resource of a size.
-/

namespace FileSignatures

/-- Where a pointer is stored, its type, and what to add to it. -/
structure Pointer where
  base : Int64
  width : ValueType
  adjustment : Int64
  deriving DecidableEq

/-- Where a rule reads its value. -/
inductive Offset where
  | direct (position : Int64)
  | indirect (pointer : Pointer)
  deriving DecidableEq

/-- The position in a resource of the given size that a signed one stands for:
    counted from the start, or from the end if it is negative. The end itself
    is a position, for a read of nothing; beyond either end there is none. -/
def positionIn? (size : Nat) (position : Int64) : Option Nat :=
  let n := position.toInt
  if 0 ≤ n then
    if n.toNat ≤ size then some n.toNat else none
  else if n.natAbs ≤ size then some (size - n.natAbs)
  else none

namespace Pointer

/-- Where the pointer leads, if it leads into a resource of the given size or
    to its end. The sum is exact, so no pointer wraps around. -/
def target? (pointer : Pointer) (size : Nat) (read : Int64) : Option Nat :=
  let n := read.toInt + pointer.adjustment.toInt
  if 0 ≤ n ∧ n ≤ size then some n.toNat else none

end Pointer

namespace Offset

/-- The position that is written in the database. -/
def base : Offset → Int64
  | direct position => position
  | indirect pointer => pointer.base

/-- The position of the base in a resource of the given size. -/
def start? (offset : Offset) (size : Nat) : Option Nat :=
  positionIn? size offset.base

/-- Why a text is no offset. -/
inductive SyntaxError where
  | invalid (token : Text)
  | invalidIndirect (token : Text)
  | unknownWidth (letter : Char) (token : Text)
  deriving DecidableEq

/-- The wording of an error. -/
def SyntaxError.message : SyntaxError → Text
  | invalid token => "invalid offset ".toList ++ token.quoted
  | invalidIndirect token => "invalid indirect offset ".toList ++ token.quoted
  | unknownWidth letter token =>
    "unknown indirect offset type '".toList ++ letter :: "' in ".toList ++ token.quoted

/-- What an indirect offset adds to its pointer: nothing, or a literal that
    carries a sign. -/
def adjustment? : Text → Option Int64
  | [] => some 0
  | '+' :: rest => Literal.signed? ('+' :: rest)
  | '-' :: rest => Literal.signed? ('-' :: rest)
  | _ => none

/-- The text before a final closing parenthesis. -/
def beforeClosing? (t : Text) : Option Text :=
  if t.getLast? = some ')' then some t.dropLast else none

/-- Reads an indirect offset such as `(8.l+4)`, given what follows its opening
    parenthesis. Of several faults the missing parenthesis is reported first,
    then the point, the width and the numbers. -/
def ofIndirectText? (token body : Text) : Except SyntaxError Offset :=
  match (beforeClosing? body).bind (Text.cut? '.') with
  | none => .error (.invalidIndirect token)
  | some (_, []) => .error (.invalidIndirect token)
  | some (base, letter :: rest) =>
    match ValueType.ofWidthLetter? letter with
    | none => .error (.unknownWidth letter token)
    | some width =>
      match adjustment? rest, Literal.signed? base with
      | some adjustment, some base => .ok (.indirect ⟨base, width, adjustment⟩)
      | _, _ => .error (.invalidIndirect token)

/-- Reads an offset such as `-4`, `0x10` or `(8.l+4)`. -/
def ofText? (token : Text) : Except SyntaxError Offset :=
  match token with
  | '(' :: body => ofIndirectText? token body
  | _ =>
    match Literal.signed? token with
    | some position => .ok (.direct position)
    | none => .error (.invalid token)

end Offset

end FileSignatures
