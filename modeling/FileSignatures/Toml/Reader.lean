import FileSignatures.Toml.Scalar
import FileSignatures.Toml.Strings

/-!
# Reading TOML

A document is read line by line. A line is empty, a header, or a key with its
value, and may end with a comment; values in brackets may go on over several
lines. Loops spend one unit of fuel a round, of which the length of the text is
enough; how deep values nest is bounded for its own sake.

## Main definitions

* `Toml.readKey?`: A key, dotted or not.
* `Toml.readValue?`: A value.
* `Toml.readLine?`: A line of a document, and what it does to it.
* `Toml.ofText?`: The document that a text is.
-/

namespace FileSignatures

namespace Toml

/-- Whether a character separates the tokens of a line. -/
def isSpace (c : Char) : Bool :=
  c = ' ' || c = '\t'

/-- A text without the blanks that it begins with. -/
def skipSpace (t : Text) : Text :=
  t.dropWhile isSpace

/-- A text without the comment that it begins with. -/
def skipComment : Text → Text
  | '#' :: rest => rest.dropWhile isPlainChar
  | rest => rest

/-- The lines after the present one, of which only blanks and a comment may be
    left. -/
def endLine? (t : Text) : Option Text :=
  match skipComment (skipSpace t) with
  | [] => some []
  | '\n' :: rest => some rest
  | '\r' :: '\n' :: rest => some rest
  | _ => none

/-- A text without the blanks, comments and line breaks that it begins with. -/
def skipLines : (fuel : Nat) → Text → Text
  | 0, t => t
  | fuel + 1, t =>
    match skipComment (skipSpace t) with
    | '\n' :: rest => skipLines fuel rest
    | '\r' :: '\n' :: rest => skipLines fuel rest
    | rest => rest

/-- Whether a character can be part of a bare key. -/
def isKeyChar (c : Char) : Bool :=
  isDigit c || ('a' ≤ c && c ≤ 'z') || ('A' ≤ c && c ≤ 'Z') || c = '_' || c = '-'

/-- Reads one part of a key: bare, or a string on one line. -/
def readKeyPart? (t : Text) : Option (Text × Text) :=
  match t with
  | '"' :: rest => readBasic? .plain rest
  | '\'' :: rest => readLiteral? rest
  | _ =>
    let bare := t.takeWhile isKeyChar
    if bare.isEmpty then none else some (bare, t.dropWhile isKeyChar)

/-- Reads the parts of a key, with points between them. -/
def readKeyParts? : (fuel : Nat) → Text → Option (List Text × Text)
  | 0, _ => none
  | fuel + 1, t => do
    let (part, rest) ← readKeyPart? (skipSpace t)
    match skipSpace rest with
    | '.' :: rest =>
      let (parts, rest) ← readKeyParts? fuel rest
      return (part :: parts, rest)
    | rest => return ([part], rest)

/-- How deep values and keys may nest. -/
def depthLimit : Nat := 80

/-- Reads a key: the parts before the last one, and the last one. -/
def readKey? (t : Text) : Option ((List Text × Text) × Text) := do
  let (parts, rest) ← readKeyParts? (t.length + 1) t
  if depthLimit ≤ parts.length then none
  let last ← parts.getLast?
  return ((parts.dropLast, last), rest)

/-- Reads the elements of an array and its closing bracket. A comma may follow
    the last one. -/
def readElements? (readValue? : Text → Option (Toml × Text)) :
    (fuel : Nat) → Text → Option (List Toml × Text)
  | 0, _ => none
  | fuel + 1, t =>
    match skipLines t.length t with
    | ']' :: rest => some ([], rest)
    | t => do
      let (element, rest) ← readValue? t
      match skipLines rest.length rest with
      | ']' :: rest => return ([element], rest)
      | ',' :: rest =>
        let (elements, rest) ← readElements? readValue? fuel rest
        return (element :: elements, rest)
      | _ => none

/-- Reads the entries of an inline table and its closing brace, on one line. -/
def readEntries? (readValue? : Text → Option (Toml × Text)) :
    (fuel : Nat) → Entries → Text → Option (Entries × Text)
  | 0, _, _ => none
  | fuel + 1, entries, t => do
    let ((path, key), rest) ← readKey? t
    match skipSpace rest with
    | '=' :: rest =>
      let (value, rest) ← readValue? (skipSpace rest)
      let entries ← setDotted? key value path entries
      match skipSpace rest with
      | '}' :: rest => return (entries, rest)
      | ',' :: rest => readEntries? readValue? fuel entries rest
      | _ => none
    | _ => none

/-- Reads a value that may hold others down to a depth. -/
def readValueTo? : (depth : Nat) → Text → Option (Toml × Text)
  | _, '"' :: rest => (readString? ('"' :: rest)).map fun (t, rest) => (.string t, rest)
  | _, '\'' :: rest => (readString? ('\'' :: rest)).map fun (t, rest) => (.string t, rest)
  | depth + 1, '[' :: rest =>
    (readElements? (readValueTo? depth) (rest.length + 1) rest).map fun (elements, rest) =>
      (.array elements, rest)
  | depth + 1, '{' :: rest =>
    match skipSpace rest with
    | '}' :: rest => some (.table .inline [], rest)
    | rest =>
      (readEntries? (readValueTo? depth) (rest.length + 1) [] rest).map fun (entries, rest) =>
        (.table .inline entries, rest)
  | _, t => readScalar? t

/-- Reads a value. -/
def readValue? (t : Text) : Option (Toml × Text) :=
  readValueTo? (depthLimit - 1) t

/-- A document as far as it is read, and the table that keys now belong to. -/
structure ReadState where
  document : Entries
  current : List Text

/-- Reads the rest of a header after its opening brackets, up to the closing
    ones. -/
def readHeader? (closing t : Text) : Option ((List Text × Text) × Text) := do
  let (key, rest) ← readKey? t
  let rest ← Text.dropStart? closing (skipSpace rest)
  return (key, rest)

/-- Reads a line that is not empty, and returns the lines after it. -/
def readLine? (state : ReadState) (t : Text) : Option (ReadState × Text) :=
  match t with
  | '[' :: '[' :: rest => do
    let ((path, key), rest) ← readHeader? [']', ']'] rest
    let document ← addElement? path key state.document
    return (⟨document, path ++ [key]⟩, ← endLine? rest)
  | '[' :: rest => do
    let ((path, key), rest) ← readHeader? [']'] rest
    let document ← addTable? path key state.document
    return (⟨document, path ++ [key]⟩, ← endLine? rest)
  | _ => do
    let ((path, key), rest) ← readKey? t
    match skipSpace rest with
    | '=' :: rest =>
      let (value, rest) ← readValue? (skipSpace rest)
      let document ← addKey? state.current path key value state.document
      return (⟨document, state.current⟩, ← endLine? rest)
    | _ => none

/-- Reads all lines of a text. -/
def readLines? : (fuel : Nat) → ReadState → Text → Option Entries
  | 0, _, _ => none
  | fuel + 1, state, t =>
    match skipLines t.length t with
    | [] => some state.document
    | t => do
      let (state, rest) ← readLine? state t
      readLines? fuel state rest

/-- A text without the mark of its encoding that it may begin with. -/
def dropEncodingMark : Text → Text
  | '\ufeff' :: rest => rest
  | t => t

/-- The entries of the document that a text is. -/
def ofText? (t : Text) : Option Entries :=
  let t := dropEncodingMark t
  readLines? (t.length + 1) ⟨[], []⟩ t

end Toml

end FileSignatures
