import FileSignatures.Text.Basic

/-!
# JSON documents

Reports are written as JSON, and identifications can be read back from it. An
object is a list of members, so that a report decides the order in which its
fields are written.

## Main definitions

* `Json`: A document.
* `Json.quote`: A text as a JSON string.
* `Json.compact`: A document without blanks.
* `Json.pretty`: A document with one member or element a line.
-/

namespace FileSignatures

/-- A JSON document. Whole numbers have a value; any other number is kept as it
    is spelled. -/
inductive Json where
  | null
  | bool (b : Bool)
  | integer (n : Int)
  | fraction (spelling : Text)
  | string (t : Text)
  | array (elements : List Json)
  | object (members : List (Text × Json))

namespace Json

/-- The hexadecimal digits of a code point, four at least. -/
def fourDigits (code : Nat) : Text :=
  let digits := Nat.toDigits 16 code
  List.replicate (4 - digits.length) '0' ++ digits

/-- How a character stands in a JSON string. Quote, backslash and controls are
    escaped, five of them by a letter; everything else stands for itself. -/
def escapeChar (c : Char) : Text :=
  if c = '"' then ['\\', '"']
  else if c = '\\' then ['\\', '\\']
  else if c = '\x08' then ['\\', 'b']
  else if c = '\t' then ['\\', 't']
  else if c = '\n' then ['\\', 'n']
  else if c = '\x0c' then ['\\', 'f']
  else if c = '\r' then ['\\', 'r']
  else if c < ' ' then '\\' :: 'u' :: fourDigits c.toNat
  else [c]

/-- A text as a JSON string. -/
def quote (t : Text) : Text :=
  '"' :: (t.flatMap escapeChar ++ ['"'])

mutual

/-- A document without blanks. -/
def compact : Json → Text
  | null => "null".toList
  | bool true => "true".toList
  | bool false => "false".toList
  | integer n => Text.ofInt n
  | fraction spelling => spelling
  | string t => quote t
  | array elements => '[' :: compactElements elements
  | object members => '{' :: compactMembers members

/-- Elements and the closing bracket, a comma before all but the first. -/
def compactElements : List Json → Text
  | [] => [']']
  | [element] => element.compact ++ [']']
  | element :: rest => element.compact ++ ',' :: compactElements rest

/-- Members and the closing brace, a comma before all but the first. -/
def compactMembers : List (Text × Json) → Text
  | [] => ['}']
  | [(key, value)] => quote key ++ ':' :: (value.compact ++ ['}'])
  | (key, value) :: rest => quote key ++ ':' :: (value.compact ++ ',' :: compactMembers rest)

end

/-- A line break and the indentation of a depth, two spaces each. -/
def newLine (depth : Nat) : Text :=
  '\n' :: Text.spaces (2 * depth)

mutual

/-- A document at some depth, one member or element a line. Empty arrays and
    objects stay on theirs. -/
def prettyAt (depth : Nat) : Json → Text
  | null => "null".toList
  | bool true => "true".toList
  | bool false => "false".toList
  | integer n => Text.ofInt n
  | fraction spelling => spelling
  | string t => quote t
  | array [] => ['[', ']']
  | array elements => '[' :: prettyElements (depth + 1) elements ++ newLine depth ++ [']']
  | object [] => ['{', '}']
  | object members => '{' :: prettyMembers (depth + 1) members ++ newLine depth ++ ['}']

/-- Elements at some depth, each on a line of its own. -/
def prettyElements (depth : Nat) : List Json → Text
  | [] => []
  | [element] => newLine depth ++ prettyAt depth element
  | element :: rest =>
    newLine depth ++ prettyAt depth element ++ ',' :: prettyElements depth rest

/-- Members at some depth, each on a line of its own. -/
def prettyMembers (depth : Nat) : List (Text × Json) → Text
  | [] => []
  | [(key, value)] => newLine depth ++ quote key ++ ':' :: ' ' :: prettyAt depth value
  | (key, value) :: rest =>
    newLine depth ++ quote key ++ ':' :: ' ' :: prettyAt depth value
      ++ ',' :: prettyMembers depth rest

end

/-- A document with one member or element a line. -/
def pretty (document : Json) : Text :=
  document.prettyAt 0

/-- The value of a key among members. Of several the last one counts. -/
def member? (key : Text) : List (Text × Json) → Option Json
  | [] => none
  | (k, value) :: rest =>
    match member? key rest with
    | some later => some later
    | none => if k = key then some value else none

end Json

end FileSignatures
