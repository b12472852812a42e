import FileSignatures.Resource.Source

/-!
# Seekable sources

A source over a medium that can be read at any position, such as a file. Its
size is measured once, when the source is opened; the medium may turn out to be
shorter by the time it is read, and a spot of it may be unreadable.

The source keeps count of its own position, and the medium has a read head. A
read that runs into the end of the medium leaves the head there, although the
source stays where it was.

## Main definitions

* `Medium`: Content, measured size, and an unreadable spot.
* `SeekableSource`: A medium with a position and a read head.
* `SeekableSource.ofBytes`: A source over bytes in memory.
-/

namespace FileSignatures

/-- What a seekable source reads from. -/
structure Medium where
  content : Array UInt8
  /-- The size that was measured when the source was opened. -/
  measured : Nat
  /-- A position whose reading fails, and the reason given. -/
  badSpot : Option (Nat × Text)

/-- A medium, the position of the source, and where the read head of the medium
    stands. -/
structure SeekableSource where
  medium : Medium
  position : Nat
  head : Nat

namespace SeekableSource

/-- A source at the start of a medium. -/
def ofMedium (medium : Medium) : SeekableSource := ⟨medium, 0, 0⟩

/-- A source over bytes in memory. -/
def ofBytes (content : Array UInt8) : SeekableSource :=
  ofMedium ⟨content, content.size, none⟩

/-- The bytes that the source expects after its position. -/
def available (source : SeekableSource) : Nat :=
  source.medium.measured - source.position

/-- Why a read of `count` bytes at the read head fails, if the unreadable spot
    lies within. A read of nothing touches no spot. -/
def failure? (source : SeekableSource) (count : Nat) : Option Text :=
  match source.medium.badSpot with
  | some (spot, reason) =>
    if source.head ≤ spot ∧ spot < source.head + count then some reason else none
  | none => none

/-- Goes to a position, which may lie beyond the end. -/
def seek (position : Nat) : Reading SeekableSource Unit := fun source =>
  .ok () { source with position, head := position }

/-- Reads exactly `count` bytes. -/
def read (count : Nat) : Reading SeekableSource (List UInt8) := fun source =>
  let shortage := Fault.endOfData count source.available
  if source.available < count then .error shortage source
  else
    match source.failure? count with
    | some reason => .error (.io reason) source
    | none =>
      let size := source.medium.content.size
      if count ≤ size - source.head then
        .ok (window source.medium.content source.head count)
          { source with position := source.position + count, head := source.head + count }
      else .error shortage { source with head := max source.head size }

/-- A medium is read where its head stands. -/
instance : ByteSource SeekableSource where
  seek := seek
  read := read
  remaining := fun source => .ok source.available source
  size := fun source => .ok source.medium.measured source

end SeekableSource

end FileSignatures
