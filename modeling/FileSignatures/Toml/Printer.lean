import FileSignatures.Toml.Strings

/-!
# Writing TOML

A string is written in the plainest of its forms that can hold it: between
quotes, between apostrophes, or between three of either on several lines. Of
escapes it gets as few as possible.

## Main definitions

* `Toml.longestRun`: How many of a character stand next to each other.
* `Toml.StringForm`, `Toml.formOf`: The forms of a string, and which one to take.
* `Toml.stringText`: A string as a value.
* `Toml.headerLine`, `Toml.entryLine`: The lines of a document.
-/

namespace FileSignatures

namespace Toml

/-- The length of the longest run of a character, where `run` of them have just
    been seen. -/
def longestRunFrom (mark : Char) (run : Nat) : Text → Nat
  | [] => run
  | c :: rest =>
    if c = mark then longestRunFrom mark (run + 1) rest
    else max run (longestRunFrom mark 0 rest)

/-- The length of the longest run of a character. -/
def longestRun (mark : Char) (t : Text) : Nat :=
  longestRunFrom mark 0 t

/-- Whether a character can only be written as an escape: any control but the
    tab and the line feed. -/
def needsEscape (c : Char) : Bool :=
  c ≠ '\t' && c ≠ '\n' && (c < ' ' || c = '\x7f')

/-- The hexadecimal digits of a code point, in capitals and four at least. -/
def codeDigits (code : Nat) : Text :=
  let digits := (Nat.toDigits 16 code).map Char.toUpper
  List.replicate (4 - digits.length) '0' ++ digits

/-- How a character other than a quote stands in a string with escapes. A line
    feed stands for itself where there are several lines. -/
def escapeChar (long : Bool) (c : Char) : Text :=
  if c = '\\' then ['\\', '\\']
  else if c = '\x08' then ['\\', 'b']
  else if c = '\t' then ['\\', 't']
  else if c = '\n' then if long then ['\n'] else ['\\', 'n']
  else if c = '\x0c' then ['\\', 'f']
  else if c = '\r' then ['\\', 'r']
  else if needsEscape c then '\\' :: 'u' :: codeDigits c.toNat
  else [c]

/-- The characters of a string with escapes, where `run` quotes have just been
    written. On one line every quote is escaped, and on several every third of
    a run, lest it close the string. -/
def escapeFrom (long : Bool) (run : Nat) : Text → Text
  | [] => []
  | c :: rest =>
    if c = '"' then
      if long && run < 2 then '"' :: escapeFrom long (run + 1) rest
      else '\\' :: '"' :: escapeFrom long 0 rest
    else escapeChar long c ++ escapeFrom long 0 rest

/-- The forms of a string. -/
inductive StringForm where
  /-- On one line, with escapes. -/
  | basic
  /-- On one line, as it is. -/
  | literal
  /-- On several lines, with escapes. -/
  | longBasic
  /-- On several lines, as it is. -/
  | longLiteral
  deriving DecidableEq, Repr

/-- The first form that holds a text without the escapes that would make it
    hard to read; a tab and a third quote do not count as such. If no form does,
    escapes are taken, on as many lines as there are. -/
def formOf (t : Text) : StringForm :=
  let broken := t.contains '\n'
  let escapes := t.any needsEscape
  let backslash := t.contains '\\'
  let quotes := longestRun '"' t
  let apostrophes := longestRun '\'' t
  if !escapes && !backslash && quotes = 0 && !broken then .basic
  else if !escapes && apostrophes = 0 && !broken then .literal
  else if !escapes && !backslash && quotes ≤ 2 then .longBasic
  else if !escapes && apostrophes ≤ 2 then .longLiteral
  else if broken then .longBasic
  else .basic

/-- A text between three of a mark, with a line break before it if it has one
    itself. The break after the marks does not belong to the string. -/
def betweenThree (mark : Char) (broken : Bool) (content : Text) : Text :=
  List.replicate 3 mark ++ (if broken then ['\n'] else []) ++ content
    ++ List.replicate 3 mark

/-- A string in a form. -/
def formText (form : StringForm) (t : Text) : Text :=
  match form with
  | .basic => '"' :: (escapeFrom false 0 t ++ ['"'])
  | .literal => '\'' :: (t ++ ['\''])
  | .longBasic => betweenThree '"' (t.contains '\n') (escapeFrom true 0 t)
  | .longLiteral => betweenThree '\'' (t.contains '\n') t

/-- A string as a value. -/
def stringText (t : Text) : Text :=
  formText (formOf t) t

/-- A truth value. -/
def boolText (b : Bool) : Text :=
  if b then "true".toList else "false".toList

/-- The line that begins a table. -/
def headerLine (name : Text) : Text :=
  '[' :: (name ++ [']', '\n'])

/-- The line of a key, which is a bare one, and a value. -/
def entryLine (key value : Text) : Text :=
  key ++ " = ".toList ++ value ++ ['\n']

end Toml

end FileSignatures
