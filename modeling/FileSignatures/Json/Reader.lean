import FileSignatures.Json.Basic
import FileSignatures.Number.Literal

/-!
# Reading JSON

Reading goes from left to right and keeps what is left of the text. Arrays and
objects nest, so the readers call each other; every call that descends or goes
on to a next element spends one unit of fuel, and there are fewer of them than
characters.

## Main definitions

* `Json.readString`: The rest of a string after its opening quote.
* `Json.readNumber`: A number.
* `Json.readValue`: A document and the text after it.
* `Json.ofText?`: The document that a text is.
-/

namespace FileSignatures

namespace Json

/-- Whether a character may stand between the tokens of a document. -/
def isSpace (c : Char) : Bool :=
  c = ' ' || c = '\t' || c = '\n' || c = '\r'

/-- A text without the blanks it begins with. -/
def skipSpace (t : Text) : Text :=
  t.dropWhile isSpace

/-- The character that an escape with a letter stands for. -/
def escapedChar? : Char → Option Char
  | '"' => some '"'
  | '\\' => some '\\'
  | '/' => some '/'
  | 'b' => some '\x08'
  | 'f' => some '\x0c'
  | 'n' => some '\n'
  | 'r' => some '\r'
  | 't' => some '\t'
  | _ => none

/-- The code unit of four hexadecimal digits. -/
def codeUnit? (a b c d : Char) : Option Nat :=
  digitsValue? 16 [a, b, c, d]

/-- Whether a code unit is the first half of a pair. -/
def isHighHalf (unit : Nat) : Bool :=
  0xd800 ≤ unit && unit < 0xdc00

/-- Whether a code unit is the second half of a pair. -/
def isLowHalf (unit : Nat) : Bool :=
  0xdc00 ≤ unit && unit < 0xe000

/-- The character that two halves make up. -/
def joinHalves (high low : Nat) : Char :=
  Char.ofNat (0x10000 + (high - 0xd800) * 0x400 + (low - 0xdc00))

/-- Reads the rest of a string after its opening quote, and its closing quote.
    Controls must be escaped, and halves of pairs come in pairs. -/
def readString : Text → Option (Text × Text)
  | [] => none
  | '"' :: rest => some ([], rest)
  | '\\' :: 'u' :: a :: b :: c :: d :: rest =>
    match codeUnit? a b c d with
    | none => none
    | some unit =>
      if isLowHalf unit then none
      else if isHighHalf unit then
        match rest with
        | '\\' :: 'u' :: e :: f :: g :: h :: rest =>
          match (codeUnit? e f g h).filter isLowHalf with
          | none => none
          | some low =>
            (readString rest).map fun (t, rest) => (joinHalves unit low :: t, rest)
        | _ => none
      else (readString rest).map fun (t, rest) => (Char.ofNat unit :: t, rest)
  | '\\' :: e :: rest =>
    match escapedChar? e with
    | none => none
    | some c => (readString rest).map fun (t, rest) => (c :: t, rest)
  | c :: rest =>
    if c < ' ' then none else (readString rest).map fun (t, rest) => (c :: t, rest)

/-- The digits that a text begins with, at least one, and the rest. -/
def readDigits? (t : Text) : Option (Text × Text) :=
  let digits := t.takeWhile isDigit
  if digits.isEmpty then none else some (digits, t.dropWhile isDigit)

/-- The whole part of a number: a zero alone or digits that begin with another
    digit. -/
def readWhole? : Text → Option (Text × Text)
  | '0' :: rest => some (['0'], rest)
  | t => readDigits? t

/-- The point and the places of a number, if there are any. -/
def readPlaces? : Text → Option (Text × Text)
  | '.' :: rest => (readDigits? rest).map fun (digits, rest) => ('.' :: digits, rest)
  | rest => some ([], rest)

/-- The exponent of a number, if there is one. -/
def readExponent? : Text → Option (Text × Text)
  | e :: sign :: rest =>
    if e = 'e' ∨ e = 'E' then
      if sign = '+' ∨ sign = '-' then
        (readDigits? rest).map fun (digits, rest) => (e :: sign :: digits, rest)
      else (readDigits? (sign :: rest)).map fun (digits, rest) => (e :: digits, rest)
    else some ([], e :: sign :: rest)
  | ['e'] => none
  | ['E'] => none
  | rest => some ([], rest)

/-- Reads a number after its minus sign, if it has one. Digits alone are a
    whole number, except for a negative zero, which no whole number is. -/
def readMagnitude? (negative : Bool) (t : Text) : Option (Json × Text) := do
  let (whole, rest) ← readWhole? t
  let (places, rest) ← readPlaces? rest
  let (exponent, rest) ← readExponent? rest
  let n := Text.decimalValue whole
  if places.isEmpty && exponent.isEmpty && !(negative && n = 0) then
    return (.integer (if negative then -(n : Int) else n), rest)
  let sign := if negative then ['-'] else []
  return (.fraction (sign ++ whole ++ places ++ exponent), rest)

/-- Reads a number. -/
def readNumber? : Text → Option (Json × Text)
  | '-' :: rest => readMagnitude? true rest
  | t => readMagnitude? false t

/-- Reads the rest of a word, given what it stands for. -/
def readWord? (word : Text) (value : Json) (t : Text) : Option (Json × Text) :=
  (Text.dropStart? word t).map fun rest => (value, rest)

mutual

/-- Reads a document, and returns what follows it. -/
def readValue? : (fuel : Nat) → Text → Option (Json × Text)
  | 0, _ => none
  | fuel + 1, t =>
    match skipSpace t with
    | 'n' :: rest => readWord? "ull".toList .null rest
    | 't' :: rest => readWord? "rue".toList (.bool true) rest
    | 'f' :: rest => readWord? "alse".toList (.bool false) rest
    | '"' :: rest => (readString rest).map fun (t, rest) => (.string t, rest)
    | '[' :: rest =>
      match skipSpace rest with
      | ']' :: rest => some (.array [], rest)
      | rest => (readElements? fuel rest).map fun (elements, rest) => (.array elements, rest)
    | '{' :: rest =>
      match skipSpace rest with
      | '}' :: rest => some (.object [], rest)
      | rest => (readMembers? fuel rest).map fun (members, rest) => (.object members, rest)
    | rest => readNumber? rest

/-- Reads the elements of an array and its closing bracket. -/
def readElements? : (fuel : Nat) → Text → Option (List Json × Text)
  | 0, _ => none
  | fuel + 1, t => do
    let (element, rest) ← readValue? fuel t
    match skipSpace rest with
    | ']' :: rest => return ([element], rest)
    | ',' :: rest =>
      let (elements, rest) ← readElements? fuel rest
      return (element :: elements, rest)
    | _ => none

/-- Reads the members of an object and its closing brace. -/
def readMembers? : (fuel : Nat) → Text → Option (List (Text × Json) × Text)
  | 0, _ => none
  | fuel + 1, t =>
    match skipSpace t with
    | '"' :: rest => do
      let (key, rest) ← readString rest
      match skipSpace rest with
      | ':' :: rest =>
        let (value, rest) ← readValue? fuel rest
        match skipSpace rest with
        | '}' :: rest => return ([(key, value)], rest)
        | ',' :: rest =>
          let (members, rest) ← readMembers? fuel rest
          return ((key, value) :: members, rest)
        | _ => none
      | _ => none
    | _ => none

end

/-- The document that a text is, blanks around it aside. -/
def ofText? (t : Text) : Option Json :=
  match readValue? (t.length + 1) t with
  | some (document, rest) => if (skipSpace rest).isEmpty then some document else none
  | none => none

end Json

end FileSignatures
