import FileSignatures.Text.Basic

/-!
# Blanks

The characters with the Unicode property White_Space. Keywords, integer
literals and expressions allow them around their parts, so the whole property
counts and not only its ASCII members.

## Main definitions

* `isBlank`: Whether a character is white space.
* `Text.trim`: A text without blanks at its ends.
-/

namespace FileSignatures

/-- The ranges of code points with the property White_Space, 25 in all. -/
def blankRanges : List (Nat × Nat) :=
  [(0x09, 0x0d), (0x20, 0x20), (0x85, 0x85), (0xa0, 0xa0), (0x1680, 0x1680),
   (0x2000, 0x200a), (0x2028, 0x2029), (0x202f, 0x202f), (0x205f, 0x205f),
   (0x3000, 0x3000)]

/-- Whether a character has the property White_Space. -/
def isBlank (c : Char) : Bool :=
  blankRanges.any fun (low, high) => low ≤ c.toNat && c.toNat ≤ high

namespace Text

/-- A text without the blanks at its ends. -/
def trim (t : Text) : Text :=
  trimBy isBlank t

/-- Whether a text holds nothing but blanks. -/
def isAllBlank (t : Text) : Bool :=
  t.all isBlank

end Text

end FileSignatures
