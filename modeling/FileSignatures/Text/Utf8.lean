import FileSignatures.Text.Basic

/-!
# Texts in bytes

Files and the names of files are bytes. They may be the UTF-8 of a text, but
nothing makes sure of that. What is no text can be shown all the same: bytes
that belong to no character show as a replacement character, one for each byte
that cannot begin a character, and one for each character that is begun and not
completed.

Bytes are read one by one. What has been read of a character so far decides
between which bounds the next byte has to lie.

## Main definitions

* `Text.utf8`: The bytes of a text.
* `PartialCharacter`: A character of which bytes are missing.
* `PartialCharacter.begin?`: The character that a byte begins.
* `PartialCharacter.step`: What one more byte shows, and what it leaves open.
* `Text.ofUtf8Lossy`: Bytes as a text, whatever they are.
* `Text.ofUtf8?`: The text that bytes are.
-/

namespace FileSignatures

/-- The bytes of a text. -/
def Text.utf8 (t : Text) : List UInt8 :=
  t.flatMap String.utf8EncodeChar

/-- A character of which bytes are missing. -/
structure PartialCharacter where
  /-- The bits that have been read, as a number. -/
  bits : Nat
  /-- How many more bytes follow the next one. -/
  others : Nat
  /-- The least next byte. -/
  least : Nat
  /-- The greatest next byte. -/
  greatest : Nat

namespace PartialCharacter

/-- What is shown for bytes that are no character. -/
def replacement : Char := '\ufffd'

/-- The character that a byte begins, if it is the first one of several. The
    bounds of the second byte leave out what fewer bytes can say, the
    surrogates, and everything behind the last character. -/
def begin? (first : Nat) : Option PartialCharacter :=
  if 0xc2 ≤ first ∧ first ≤ 0xdf then some ⟨first - 0xc0, 0, 0x80, 0xbf⟩
  else if first = 0xe0 then some ⟨0, 1, 0xa0, 0xbf⟩
  else if first = 0xed then some ⟨0xd, 1, 0x80, 0x9f⟩
  else if 0xe1 ≤ first ∧ first ≤ 0xef then some ⟨first - 0xe0, 1, 0x80, 0xbf⟩
  else if first = 0xf0 then some ⟨0, 2, 0x90, 0xbf⟩
  else if first = 0xf4 then some ⟨4, 2, 0x80, 0x8f⟩
  else if 0xf1 ≤ first ∧ first ≤ 0xf3 then some ⟨first - 0xf0, 2, 0x80, 0xbf⟩
  else none

/-- What a byte shows that begins a character, and what it leaves open. -/
def start (byte : UInt8) : Text × Option PartialCharacter :=
  if byte.toNat < 0x80 then ([Char.ofNat byte.toNat], none)
  else
    match begin? byte.toNat with
    | some character => ([], some character)
    | none => ([replacement], none)

/-- What a byte shows behind what is open, and what it leaves open itself. A
    byte that does not go on with a character may begin another one. -/
def step (open? : Option PartialCharacter) (byte : UInt8) : Text × Option PartialCharacter :=
  match open? with
  | none => start byte
  | some character =>
    if character.least ≤ byte.toNat ∧ byte.toNat ≤ character.greatest then
      let bits := 64 * character.bits + (byte.toNat - 0x80)
      match character.others with
      | 0 => ([Char.ofNat bits], none)
      | others + 1 => ([], some ⟨bits, others, 0x80, 0xbf⟩)
    else (replacement :: (start byte).1, (start byte).2)

/-- What bytes show behind what is open. -/
def shown (open? : Option PartialCharacter) : List UInt8 → Text
  | [] => if open?.isSome then [replacement] else []
  | byte :: rest => (step open? byte).1 ++ shown (step open? byte).2 rest

end PartialCharacter

namespace Text

/-- Bytes as a text, whatever they are. -/
def ofUtf8Lossy (bytes : List UInt8) : Text :=
  PartialCharacter.shown none bytes

/-- The text that bytes are, if nothing is lost when they are shown. -/
def ofUtf8? (bytes : List UInt8) : Option Text :=
  let t := ofUtf8Lossy bytes
  if t.utf8 = bytes then some t else none

end Text

end FileSignatures
