import FileSignatures.Text.Basic
import FileSignatures.Text.Unprintable

/-!
# Quoted texts

Error messages quote the text they complain about, so that blanks, controls
and marks in it can be told apart.

## Main definitions

* `Text.escapeQuoted`: How one character stands between the quotes.
* `Text.quoted`: A text between double quotes.
-/

namespace FileSignatures

namespace Text

/-- How a character stands between double quotes: the quote and the backslash
    behind a backslash, four controls by letter or digit, any other unprintable
    character by its code point, and the rest as it is. -/
def escapeQuoted (c : Char) : Text :=
  if c = '"' then ['\\', '"']
  else if c = '\\' then ['\\', '\\']
  else if c = '\t' then ['\\', 't']
  else if c = '\n' then ['\\', 'n']
  else if c = '\r' then ['\\', 'r']
  else if c = '\x00' then ['\\', '0']
  else if isUnprintable c then '\\' :: 'u' :: '{' :: (Nat.toDigits 16 c.toNat ++ ['}'])
  else [c]

/-- A text between double quotes. -/
def quoted (t : Text) : Text :=
  '"' :: (t.flatMap escapeQuoted ++ ['"'])

end Text

end FileSignatures
