/-!
# Texts

A text is a list of characters. Rule lines, templates, descriptions, settings
and reports are all read and written from left to right, so every operation on
them is a recursion on the list and every law about them an induction.

## Main definitions

* `Text`: A list of characters.
* `Text.ofLatin1`, `Text.latin1Byte`: One character per byte, and back.
* `Text.lines`: The lines of a text.
* `Text.pieces`: The pieces between separators.
* `Text.cut?`: What stands before and after the first separator.
* `Text.trimBy`: A text without the ends that a predicate picks.
* `Text.ofNat`, `Text.ofInt`: Numbers in decimal.
-/

namespace FileSignatures

/-- Texts are lists of characters. -/
abbrev Text := List Char

namespace Text

/-- Reads every byte as the character of the same code point. -/
def ofLatin1 (bytes : List UInt8) : Text :=
  bytes.map Char.ofUInt8

/-- The byte of a code point up to 255. Characters above have no byte of their
    own and share the question mark. -/
def latin1Byte (code : Nat) : UInt8 :=
  if code < 256 then UInt8.ofNat code else UInt8.ofNat '?'.toNat

/-- The lines of a text. A line ends at a line feed, and a carriage return
    directly before the line feed belongs to the line end; any other carriage
    return, also the last character of the text, is part of its line. Nothing
    after the last line feed is no line. -/
def lines : Text → List Text
  | [] => []
  | '\r' :: '\n' :: rest => [] :: lines rest
  | '\n' :: rest => [] :: lines rest
  | c :: rest =>
    match lines rest with
    | [] => [[c]]
    | line :: more => (c :: line) :: more

/-- The pieces between the separators: one more than there are separators,
    empty ones included. Bytes are taken apart like characters. -/
def pieces {α : Type} [DecidableEq α] (separator : α) : List α → List (List α)
  | [] => [[]]
  | c :: rest =>
    if c = separator then [] :: pieces separator rest
    else
      match pieces separator rest with
      | [] => [[c]]
      | piece :: more => (c :: piece) :: more

/-- What stands before and after the first separator, if there is one. -/
def cut? (separator : Char) : Text → Option (Text × Text)
  | [] => none
  | c :: rest =>
    if c = separator then some ([], rest)
    else (cut? separator rest).map fun (before, after) => (c :: before, after)

/-- Drops the characters that `p` picks from the end of a text. -/
def trimEndBy (p : Char → Bool) (t : Text) : Text :=
  (t.reverse.dropWhile p).reverse

/-- Drops the characters that `p` picks from both ends of a text. -/
def trimBy (p : Char → Bool) (t : Text) : Text :=
  trimEndBy p (t.dropWhile p)

/-- Everything from the first place on where `pattern` stands, with the
    pattern itself taken off. -/
def after? (pattern : Text) : Text → Option Text
  | [] => if pattern.isEmpty then some [] else none
  | c :: rest =>
    if pattern.isPrefixOf (c :: rest) then some ((c :: rest).drop pattern.length)
    else after? pattern rest

/-- The text without `start`, if it begins with it. -/
def dropStart? (start : Text) (t : Text) : Option Text :=
  if start.isPrefixOf t then some (t.drop start.length) else none

/-- `count` spaces. -/
def spaces (count : Nat) : Text :=
  List.replicate count ' '

/-- A natural number in decimal. -/
def ofNat (n : Nat) : Text :=
  Nat.toDigits 10 n

/-- An integer in decimal, with a minus sign if it is negative. -/
def ofInt : Int → Text
  | .ofNat n => ofNat n
  | .negSucc n => '-' :: ofNat (n + 1)

/-- The number that a list of decimal digits denotes. -/
def decimalValue (digits : Text) : Nat :=
  Nat.ofDigitChars 10 digits 0

/-- The bytes that a character takes up in UTF-8. -/
def byteWidth (c : Char) : Nat :=
  c.utf8Size

end Text

end FileSignatures
