import FileSignatures.Value

/-!
# Operators

How a rule compares the value that it reads with its operand. Numbers are
compared as signed words. Strings know equality and an order by their first
bytes only; the remaining comparisons have no meaning for them.

## Main definitions

* `Operator`: The comparisons a rule can ask for.
* `Operator.holds?`: Whether a comparison holds, where it has a meaning.
-/

namespace FileSignatures

/-- The comparisons a rule can ask for. -/
inductive Operator where
  | equal
  | notEqual
  | greater
  | less
  /-- The two numbers have a one bit in common. -/
  | sharesBits
  /-- The two numbers differ in some bit. -/
  | differs
  /-- Every value will do. -/
  | any
  deriving DecidableEq, Repr

namespace Operator

/-- The character that stands for an operator in a rule. -/
def symbol : Operator → Char
  | equal => '='
  | notEqual => '!'
  | greater => '>'
  | less => '<'
  | sharesBits => '&'
  | differs => '^'
  | any => 'x'

/-- Every operator once. -/
def all : List Operator :=
  [equal, notEqual, greater, less, sharesBits, differs, any]

/-- The operator that a character stands for. -/
def ofSymbol? (c : Char) : Option Operator :=
  all.find? fun operator => operator.symbol = c

/-- Whether an operator makes sense on numbers only. -/
def isNumericOnly : Operator → Bool
  | less | sharesBits | differs => true
  | _ => false

/-- Whether a comparison of two numbers holds. -/
def holdsOnNumbers : Operator → Int64 → Int64 → Bool
  | equal, a, b => a = b
  | notEqual, a, b => a ≠ b
  | greater, a, b => b < a
  | less, a, b => a < b
  | sharesBits, a, b => a &&& b ≠ 0
  | differs, a, b => a ^^^ b ≠ 0
  | any, _, _ => true

/-- Whether a comparison of two strings holds. The order looks at the first
    bytes only, and the empty string is never greater nor exceeded. -/
def holdsOnBytes? : Operator → List UInt8 → List UInt8 → Option Bool
  | equal, a, b => some (a = b)
  | notEqual, a, b => some (a ≠ b)
  | greater, x :: _, y :: _ => some (y < x)
  | greater, _, _ => some false
  | any, _, _ => some true
  | _, _, _ => none

/-- Whether the value read compares with the operand as the operator says, or
    nothing if the comparison has no meaning for the two. -/
def holds? (operator : Operator) (read operand : Value) : Option Bool :=
  match operator, read, operand with
  | .any, _, _ => some true
  | _, .number a, .number b => some (operator.holdsOnNumbers a b)
  | _, .bytes a, .bytes b => operator.holdsOnBytes? a b
  | _, _, _ => none

end Operator

end FileSignatures
