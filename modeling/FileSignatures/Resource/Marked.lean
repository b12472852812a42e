import FileSignatures.Resource.Source

/-!
# Marked streams

A source over a stream that can only be read forward. The position at which the
source was opened is marked, and what is read from there on is kept, up to a
limit, so that the source can go back to the mark. Its size is the count of
bytes within reach of the mark.

A stream is what its reads deliver: chunks, interruptions, after which reading
goes on, and failures. An empty chunk is the end.

## Main definitions

* `StreamStep`: What one read of a stream delivers.
* `MarkedStream`: A stream with the bytes kept since the mark.
* `MarkedStream.pull`: Reads from the stream until enough bytes are kept.
-/

namespace FileSignatures

/-- What one read of a stream delivers. A chunk that is longer than the read
    asks for leaves its rest to the next one. -/
inductive StreamStep where
  | chunk (content : List UInt8)
  | interruption
  | failure (reason : Text)
  deriving DecidableEq

/-- A stream, the bytes kept since the mark, and a position among them. -/
structure MarkedStream where
  /-- What the stream still delivers; nothing means its end. -/
  steps : List StreamStep
  buffer : Array UInt8
  position : Nat
  /-- The greatest count of bytes to keep. -/
  limit : Nat
  /-- Whether the end of the stream has been seen. -/
  exhausted : Bool

/-- The outcome of reading from a stream. -/
structure Pulled where
  steps : List StreamStep
  buffer : Array UInt8
  exhausted : Bool
  failure : Option Text

namespace MarkedStream

/-- The default limit, 1 MiB. -/
def defaultLimit : Nat := 1024 * 1024

/-- A stream marked at its present position. -/
def mark (steps : List StreamStep) (limit : Nat) : MarkedStream :=
  ⟨steps, #[], 0, limit, false⟩

/-- Reads from a stream until `target` bytes are kept, the stream ends, or a
    read fails. Bytes read before a failure are kept. -/
def pull (target : Nat) (buffer : Array UInt8) : List StreamStep → Pulled
  | [] => ⟨[], buffer, buffer.size < target, none⟩
  | step :: rest =>
    if target ≤ buffer.size then ⟨step :: rest, buffer, false, none⟩
    else
      match step with
      | .chunk content =>
        let wanted := target - buffer.size
        if content.isEmpty then ⟨rest, buffer, true, none⟩
        else if content.length ≤ wanted then pull target (buffer ++ content) rest
        else ⟨.chunk (content.drop wanted) :: rest, buffer ++ content.take wanted, false, none⟩
      | .interruption => pull target buffer rest
      | .failure reason => ⟨rest, buffer, false, some reason⟩

/-- Keeps at least `target` bytes, as far as limit and stream allow. -/
def fillTo (target : Nat) : Reading MarkedStream Unit := fun source =>
  if source.exhausted then .ok () source
  else
    let pulled := pull (min target source.limit) source.buffer source.steps
    let source := { source with
      steps := pulled.steps, buffer := pulled.buffer, exhausted := pulled.exhausted }
    match pulled.failure with
    | some reason => .error (.io reason) source
    | none => .ok () source

/-- Goes to a position. Beyond the last byte within reach, it stops there. -/
def seek (position : Nat) : Reading MarkedStream Unit := do
  fillTo position
  modify fun source => { source with position := min position source.buffer.size }

/-- Reads exactly `count` bytes. -/
def read (count : Nat) : Reading MarkedStream (List UInt8) := do
  fillTo ((← get).position + count)
  let source ← get
  if source.buffer.size < source.position + count then
    throw (.endOfData count (source.buffer.size - source.position))
  set { source with position := source.position + count }
  return window source.buffer source.position count

/-- The count of bytes within reach of the mark. -/
def size : Reading MarkedStream Nat := do
  fillTo (← get).limit
  return (← get).buffer.size

/-- The count of bytes within reach after the position. -/
def remaining : Reading MarkedStream Nat := do
  let size ← size
  return size - (← get).position

/-- A marked stream is read through what it keeps. -/
instance : ByteSource MarkedStream where
  seek := seek
  read := read
  remaining := remaining
  size := size

end MarkedStream

end FileSignatures
