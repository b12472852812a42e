import FileSignatures.Number.Literal

/-!
# TOML strings

A string is written in one of four ways: between quotes or apostrophes, on one
line or on several. Between apostrophes every character stands for itself;
between quotes a backslash begins an escape.

## Main definitions

* `Toml.StringState`: The escape that is under way in a string.
* `Toml.readBasic?`, `Toml.readLiteral?`: The rest of a string on one line.
* `Toml.readLongBasic?`, `Toml.readLongLiteral?`: The rest of a string on several
  lines.
* `Toml.readString?`: A string of any kind.
-/

namespace FileSignatures

namespace Toml

/-- Whether a character may stand for itself: no control but the tab. -/
def isPlainChar (c : Char) : Bool :=
  c = '\t' || (' ' ≤ c && c ≠ '\x7f')

/-- What is under way in a string between quotes. -/
inductive StringState where
  | plain
  /-- After a backslash. -/
  | backslash
  /-- Before the last `more + 1` digits of a code point, after digits of the
      given value. -/
  | code (more value : Nat)
  /-- After a backslash and blanks, before the end of the line. -/
  | lineEnd
  /-- After a backslash at the end of a line, where blanks and line breaks do
      not count. -/
  | skip
  deriving DecidableEq

/-- The character that an escape with a letter stands for. -/
def escapedChar? : Char → Option Char
  | 'b' => some '\x08'
  | 't' => some '\t'
  | 'n' => some '\n'
  | 'f' => some '\x0c'
  | 'r' => some '\r'
  | '"' => some '"'
  | '\\' => some '\\'
  | _ => none

/-- The character of a code point, if there is one. -/
def charOf? (code : Nat) : Option Char :=
  if code.isValidChar then some (Char.ofNat code) else none

/-- The state after the letter of an escape, and the character that it
    completes. -/
def afterEscape? (c : Char) : Option (Option Char × StringState) :=
  if c = 'u' then some (none, .code 3 0)
  else if c = 'U' then some (none, .code 7 0)
  else (escapedChar? c).map fun e => (some e, .plain)

/-- The state after one more digit of a code point, and the character that it
    completes. -/
def afterDigit? (more value : Nat) (c : Char) : Option (Option Char × StringState) :=
  match digitValue? 16 c, more with
  | none, _ => none
  | some d, 0 => (charOf? (value * 16 + d)).map fun e => (some e, .plain)
  | some d, more + 1 => some (none, .code more (value * 16 + d))

/-- Puts a completed character in front of what is read after it. -/
def consRead (c : Option Char) (read : Text × Text) : Text × Text :=
  (c.toList ++ read.1, read.2)

/-- Reads the rest of a string between quotes on one line. -/
def readBasic? (state : StringState) : Text → Option (Text × Text)
  | [] => none
  | c :: rest =>
    match state with
    | .backslash =>
      match afterEscape? c with
      | none => none
      | some (e, state) => (readBasic? state rest).map (consRead e)
    | .code more value =>
      match afterDigit? more value c with
      | none => none
      | some (e, state) => (readBasic? state rest).map (consRead e)
    | _ =>
      if c = '"' then some ([], rest)
      else if c = '\\' then readBasic? .backslash rest
      else if isPlainChar c then (readBasic? .plain rest).map (consRead (some c))
      else none

/-- Reads the rest of a string between apostrophes on one line. -/
def readLiteral? : Text → Option (Text × Text)
  | [] => none
  | c :: rest =>
    if c = '\'' then some ([], rest)
    else if isPlainChar c then (readLiteral? rest).map (consRead (some c))
    else none

/-- What belongs to a string on several lines after the three marks that would
    close it: up to two more of them come before the closing ones. -/
def closeLong (mark : Char) : Text → Text × Text
  | a :: b :: rest =>
    if a = mark then
      if b = mark then ([mark, mark], rest) else ([mark], b :: rest)
    else ([], a :: b :: rest)
  | [a] => if a = mark then ([mark], []) else ([], [a])
  | [] => ([], [])

/-- Whether a text begins with two of a mark. -/
def beginsWithTwo (mark : Char) (t : Text) : Bool :=
  t.take 2 = [mark, mark]

/-- Reads the rest of a string between triple quotes. Line breaks are line feeds
    however they are written. -/
def readLongBasic? (state : StringState) : Text → Option (Text × Text)
  | [] => none
  | c :: rest =>
    let broken := c = '\n' || (c = '\r' && rest.head? = some '\n')
    match state with
    | .code more value =>
      match afterDigit? more value c with
      | none => none
      | some (e, state) => (readLongBasic? state rest).map (consRead e)
    | .backslash =>
      if c = ' ' || c = '\t' then readLongBasic? .lineEnd rest
      else if broken then readLongBasic? .skip rest
      else
        match afterEscape? c with
        | none => none
        | some (e, state) => (readLongBasic? state rest).map (consRead e)
    | .lineEnd =>
      if c = ' ' || c = '\t' then readLongBasic? .lineEnd rest
      else if broken then readLongBasic? .skip rest
      else none
    | _ =>
      if state = .skip && (c = ' ' || c = '\t' || broken) then readLongBasic? .skip rest
      else if c = '"' then
        if beginsWithTwo '"' rest then some (closeLong '"' (rest.drop 2))
        else (readLongBasic? .plain rest).map (consRead (some c))
      else if c = '\\' then readLongBasic? .backslash rest
      else if c = '\r' && broken then readLongBasic? .plain rest
      else if c = '\n' || isPlainChar c then
        (readLongBasic? .plain rest).map (consRead (some c))
      else none

/-- Reads the rest of a string between triple apostrophes. -/
def readLongLiteral? : Text → Option (Text × Text)
  | [] => none
  | c :: rest =>
    if c = '\'' then
      if beginsWithTwo '\'' rest then some (closeLong '\'' (rest.drop 2))
      else (readLongLiteral? rest).map (consRead (some c))
    else if c = '\r' && rest.head? = some '\n' then readLongLiteral? rest
    else if c = '\n' || isPlainChar c then (readLongLiteral? rest).map (consRead (some c))
    else none

/-- A text without the line break that it begins with. -/
def dropLineBreak : Text → Text
  | '\n' :: rest => rest
  | '\r' :: '\n' :: rest => rest
  | rest => rest

/-- Reads a string of any kind. A line break right after three opening marks
    does not count. -/
def readString? : Text → Option (Text × Text)
  | '"' :: '"' :: '"' :: rest => readLongBasic? .plain (dropLineBreak rest)
  | '"' :: rest => readBasic? .plain rest
  | '\'' :: '\'' :: '\'' :: rest => readLongLiteral? (dropLineBreak rest)
  | '\'' :: rest => readLiteral? rest
  | _ => none

end Toml

end FileSignatures
