import FileSignatures.Text.Blank
import FileSignatures.Text.Quoted

/-!
# Expressions

Numeric properties may be written as arithmetic: sums, products, signs and
parentheses over numerals. The grammar is the same for whole numbers and for
fractions,

    sum     := product (('+' | '-') product)*
    product := signed (('*' | '/' | '%') signed)*
    signed  := ('+' | '-') signed | numeral | '(' sum ')'

so the evaluator is written once, over the operations of a number domain.

Evaluation goes through the tokens once and keeps what is pending: per open
parenthesis at most one left operand of a sum, one of a product, and a count
of minus signs. Operators are applied as soon as their right operand is known,
which makes them associate to the left, and the first fault from the left is
the one that is reported.

## Main definitions

* `ExpressionError`: What can be wrong with an expression.
* `Arithmetic`: A number domain.
* `Token`: A numeral or a single character, with its place.
* `Expression.tokens`: The tokens of a text.
* `Expression.Level`: What is pending between two parentheses.
* `Expression.evaluate`: The value of an expression.
-/

namespace FileSignatures

/-- What can be wrong with an expression. Positions count bytes in UTF-8. -/
inductive ExpressionError where
  | empty
  | unexpectedCharacter (found : Char) (position : Nat)
  | unexpectedEnd
  | invalidNumeral (text : Text)
  | divisionByZero
  | overflow
  deriving DecidableEq

/-- The wording of an error. -/
def ExpressionError.message : ExpressionError → Text
  | empty => "empty expression".toList
  | unexpectedCharacter found position =>
    "unexpected character '".toList ++ found :: "' at position ".toList ++ Text.ofNat position
  | unexpectedEnd => "unexpected end of expression".toList
  | invalidNumeral text => "invalid number ".toList ++ text.quoted
  | divisionByZero => "division by zero".toList
  | overflow => "integer overflow".toList

/-- A number domain: the characters of its numerals, their values, and the
    operations, each of which may fail. -/
structure Arithmetic (α : Type) where
  isNumeralChar : Char → Bool
  numeral : Text → Except ExpressionError α
  negate : α → Except ExpressionError α
  add : α → α → Except ExpressionError α
  subtract : α → α → Except ExpressionError α
  multiply : α → α → Except ExpressionError α
  divide : α → α → Except ExpressionError α
  remainder : α → α → Except ExpressionError α

namespace Expression

/-- What a token is. -/
inductive TokenContent where
  | numeral (text : Text)
  | symbol (c : Char)
  deriving DecidableEq

/-- A token and the position of its first character. -/
structure Token where
  position : Nat
  content : TokenContent
  deriving DecidableEq

/-- Puts a numeral character in front of tokens. It joins a numeral that begins
    right after it. -/
def consNumeral (position : Nat) (c : Char) (tokens : List Token) : List Token :=
  match tokens with
  | ⟨next, .numeral text⟩ :: rest =>
    if next = position + Text.byteWidth c then ⟨position, .numeral (c :: text)⟩ :: rest
    else ⟨position, .numeral [c]⟩ :: tokens
  | _ => ⟨position, .numeral [c]⟩ :: tokens

/-- The tokens of a text that begins at a position. Blanks separate numerals
    and are otherwise skipped; a numeral takes as many characters as it can. -/
def tokens (isNumeralChar : Char → Bool) (position : Nat) : Text → List Token
  | [] => []
  | c :: rest =>
    let more := tokens isNumeralChar (position + Text.byteWidth c) rest
    if isBlank c then more
    else if isNumeralChar c then consNumeral position c more
    else ⟨position, .symbol c⟩ :: more

/-- The error of a token that does not belong where it stands. -/
def Token.unexpected (token : Token) : ExpressionError :=
  match token.content with
  | .numeral (c :: _) => .unexpectedCharacter c token.position
  | .numeral [] => .unexpectedEnd
  | .symbol c => .unexpectedCharacter c token.position

/-- The operators of a sum. -/
inductive SumOperator where
  | add
  | subtract
  deriving DecidableEq

/-- The operators of a product. -/
inductive ProductOperator where
  | multiply
  | divide
  | remainder
  deriving DecidableEq

/-- The operator of a sum that a token is. -/
def SumOperator.ofToken? (token : Token) : Option SumOperator :=
  match token.content with
  | .symbol '+' => some add
  | .symbol '-' => some subtract
  | _ => none

/-- The operator of a product that a token is. -/
def ProductOperator.ofToken? (token : Token) : Option ProductOperator :=
  match token.content with
  | .symbol '*' => some multiply
  | .symbol '/' => some divide
  | .symbol '%' => some remainder
  | _ => none

/-- What is pending between two parentheses, or between the ends of the text:
    the left operand of a sum, that of a product, and minus signs. -/
structure Level (α : Type) where
  sum : Option (α × SumOperator)
  product : Option (α × ProductOperator)
  negations : Nat

/-- Nothing is pending yet. -/
def Level.start {α : Type} : Level α := ⟨none, none, 0⟩

variable {α : Type}

/-- Applies pending minus signs, innermost first. -/
def applyNegations (A : Arithmetic α) : (count : Nat) → α → Except ExpressionError α
  | 0, v => .ok v
  | count + 1, v =>
    match A.negate v with
    | .ok w => applyNegations A count w
    | .error e => .error e

/-- Applies a pending product to its right operand. -/
def applyProduct (A : Arithmetic α) (pending : Option (α × ProductOperator)) (v : α) :
    Except ExpressionError α :=
  match pending with
  | none => .ok v
  | some (u, .multiply) => A.multiply u v
  | some (u, .divide) => A.divide u v
  | some (u, .remainder) => A.remainder u v

/-- Applies a pending sum to its right operand. -/
def applySum (A : Arithmetic α) (pending : Option (α × SumOperator)) (v : α) :
    Except ExpressionError α :=
  match pending with
  | none => .ok v
  | some (u, .add) => A.add u v
  | some (u, .subtract) => A.subtract u v

/-- The value of the product that ends with operand `v`: its minus signs and
    the pending product are applied. -/
def Level.closeProduct (A : Arithmetic α) (level : Level α) (v : α) :
    Except ExpressionError α :=
  match applyNegations A level.negations v with
  | .ok w => applyProduct A level.product w
  | .error e => .error e

mutual

/-- Evaluates tokens of which the first must begin an operand. `outer` holds
    the levels of the parentheses that are open, the innermost first. -/
def evaluateOperand (A : Arithmetic α) (level : Level α) (outer : List (Level α)) :
    List Token → Except ExpressionError α
  | [] => .error .unexpectedEnd
  | token :: rest =>
    match token.content with
    | .symbol '-' =>
      evaluateOperand A { level with negations := level.negations + 1 } outer rest
    | .symbol '+' => evaluateOperand A level outer rest
    | .symbol '(' => evaluateOperand A .start (level :: outer) rest
    | .symbol _ => .error token.unexpected
    | .numeral text =>
      match A.numeral text with
      | .ok v => evaluateOperator A v level outer rest
      | .error e => .error e

/-- Evaluates tokens after the operand `v`: an operator, a closing parenthesis
    or the end must follow. A pending sum is applied only once it is clear that
    no operator of a product follows. -/
def evaluateOperator (A : Arithmetic α) (v : α) (level : Level α) (outer : List (Level α)) :
    List Token → Except ExpressionError α
  | [] =>
    match level.closeProduct A v with
    | .error e => .error e
    | .ok w =>
      match applySum A level.sum w, outer with
      | .error e, _ => .error e
      | .ok u, [] => .ok u
      | .ok _, _ :: _ => .error .unexpectedEnd
  | token :: rest =>
    match level.closeProduct A v with
    | .error e => .error e
    | .ok w =>
      match ProductOperator.ofToken? token with
      | some operator =>
        evaluateOperand A ⟨level.sum, some (w, operator), 0⟩ outer rest
      | none =>
        match applySum A level.sum w with
        | .error e => .error e
        | .ok u =>
          match SumOperator.ofToken? token with
          | some operator => evaluateOperand A ⟨some (u, operator), none, 0⟩ outer rest
          | none =>
            match token.content, outer with
            | .symbol ')', enclosing :: outer => evaluateOperator A u enclosing outer rest
            | _, _ => .error token.unexpected

end

/-- The value of an expression in a number domain. -/
def evaluate (A : Arithmetic α) (text : Text) : Except ExpressionError α :=
  match tokens A.isNumeralChar 0 text with
  | [] => .error .empty
  | token :: rest => evaluateOperand A .start [] (token :: rest)

end Expression

end FileSignatures
