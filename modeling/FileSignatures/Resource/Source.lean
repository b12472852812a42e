import FileSignatures.Fault

/-!
# Byte sources

What matching needs of a resource: to go to a position, to read a count of
bytes, and to know how many bytes there are. A source is a state, and every
operation says what it answers and which state it leaves, also where it fails;
a failed read therefore does not undo what the resource has done meanwhile.

## Main definitions

* `Reading`: An operation on a source.
* `ByteSource`: What a source can do.
* `ByteSource.readByte`: Reads one byte.
* `ByteSource.unlessShort`: Turns the end of data into an answer.
* `window`: A stretch of bytes.
-/

namespace FileSignatures

/-- An operation on a source: an answer or a fault, and the state after it. -/
abbrev Reading (σ α : Type) := EStateM Fault σ α

/-- What a source can do. -/
class ByteSource (σ : Type) where
  /-- Goes to a position, counted from the start. -/
  seek : Nat → Reading σ Unit
  /-- Reads exactly so many bytes, or fails with the end of data. -/
  read : Nat → Reading σ (List UInt8)
  /-- The count of bytes from the current position to the end. -/
  remaining : Reading σ Nat
  /-- The count of bytes in all. -/
  size : Reading σ Nat

namespace ByteSource

/-- Reads one byte. -/
def readByte {σ : Type} [ByteSource σ] : Reading σ UInt8 := do
  let content ← read 1
  return content.headD 0

/-- Turns the end of data into the answer `none`. Other faults remain, and so
    does the state that the operation has left. -/
def unlessShort {σ α : Type} (operation : Reading σ α) : Reading σ (Option α) := fun s =>
  match operation s with
  | .ok a s => .ok (some a) s
  | .error (.endOfData _ _) s => .ok none s
  | .error fault s => .error fault s

end ByteSource

/-- The `count` bytes from a position on, as far as there are any. -/
def window (content : Array UInt8) (position count : Nat) : List UInt8 :=
  (content.extract position (position + count)).toList

end FileSignatures
