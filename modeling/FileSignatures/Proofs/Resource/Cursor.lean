import FileSignatures.Proofs.Resource.Marked
import FileSignatures.Proofs.Resource.Session

/-!
# Marked streams are cursors

The simplest source of all is a list of bytes with a position in it. A marked
stream is meant to look like one, over the bytes that the stream delivers, as far as
the limit lets it go back to them. What it really is changes with every request:
some of the bytes are in the buffer and the others still in the stream, and a
failure may come between two bytes that one request asks for.

`MarkedStream.Tracks` is what stays the same. The buffer and what the stream has
still to deliver make up the whole stream at any time, also after a failure, which
therefore costs no byte (`Tracks.bytes`). So the buffer is always the beginning of
what the cursor ranges over, and filling it either fails and leaves the position
alone, or brings all that the request can get (`fillTo_readsOn`).

Each request is then one of the cursor or a failure that the cursor is spared, and
`marked_session` says so of whole sessions. Failures are not made up: those that a
session meets are the first ones of the stream, each once.

## Main definitions

* `Cursor`: A list of bytes with a position.
* `failures`: The failures of a stream.
* `MarkedStream.pending`: The bytes that a source has not yet been delivered.
* `MarkedStream.Tracks`: A source on its way through a stream.
* `MarkedStream.ReadsOn`: A source has got further without moving.
* `MarkedStream.IsOfCursor`: An operation is one of the cursor, or it fails.
* `Exchange.outage?`: The failure that a request met.

## Theorems

* `pull_accounts`: Pulling loses no byte and no failure.
* `fillTo_readsOn`: What filling brings, if it does not fail.
* `perform_isOfCursor`: A request is one of the cursor, unless it fails.
* `failures_session`: The failures that a session meets come first.
* `marked_session`: So is a session.
-/

namespace FileSignatures

/-- A list of bytes with a position in it. -/
structure Cursor where
  content : List UInt8
  position : Nat

namespace Cursor

/-- A cursor stops at the end of its bytes. -/
def seek (position : Nat) : Reading Cursor Unit := fun cursor =>
  .ok () { cursor with position := min position cursor.content.length }

/-- A cursor moves by what it reads, and not at all if too few bytes are left. -/
def read (count : Nat) : Reading Cursor (List UInt8) := fun cursor =>
  let left := cursor.content.length - cursor.position
  if count ≤ left then
    .ok ((cursor.content.drop cursor.position).take count)
      { cursor with position := cursor.position + count }
  else .error (.endOfData count left) cursor

instance : ByteSource Cursor where
  seek := seek
  read := read
  remaining := fun cursor => .ok (cursor.content.length - cursor.position) cursor
  size := fun cursor => .ok cursor.content.length cursor

end Cursor

/-- The reasons of the failures of a stream, in order. -/
def failures (steps : List StreamStep) : List Text :=
  steps.filterMap fun step =>
    match step with
    | .failure reason => some reason
    | _ => none

/-- What pulling has left of a stream and put into a buffer comes from there, with
    nothing lost. -/
structure Pulled.Accounts (pulled : Pulled) (target : Nat) (steps : List StreamStep)
    (buffer : Array UInt8) : Prop where
  bytes : pulled.buffer.toList ++ (if pulled.exhausted then [] else delivered pulled.steps)
    = buffer.toList ++ delivered steps
  reasons : pulled.failure.toList ++ failures pulled.steps = failures steps
  grows : buffer.size ≤ pulled.buffer.size
  bounded : pulled.buffer.size ≤ max target buffer.size

/-- A chunk that is not empty delivers its bytes in front of those of the rest. -/
theorem delivered_chunk_append (content : List UInt8) (rest : List StreamStep)
    (h : content ≠ []) : delivered (.chunk content :: rest) = content ++ delivered rest := by
  cases content with
  | nil => exact absurd rfl h
  | cons byte more => rfl

theorem size_append (buffer : Array UInt8) (content : List UInt8) :
    (buffer ++ content).size = buffer.size + content.length := by
  rw [← Array.length_toList, Array.toList_appendList, List.length_append, Array.length_toList]

/-- Pulling loses no byte and no failure, wherever it stops. -/
theorem pull_accounts (target : Nat) (steps : List StreamStep) (buffer : Array UInt8) :
    (MarkedStream.pull target buffer steps).Accounts target steps buffer := by
  induction steps generalizing buffer with
  | nil =>
      refine ⟨?_, rfl, Nat.le_refl _, Nat.le_max_right _ _⟩
      simp only [MarkedStream.pull, delivered, ite_self]
  | cons step rest ih =>
      by_cases hfull : target ≤ buffer.size
      · rw [pull_of_full target buffer _ hfull]
        exact ⟨rfl, rfl, Nat.le_refl _, Nat.le_max_right _ _⟩
      · unfold MarkedStream.pull
        rw [if_neg hfull]
        rcases step with content | _ | reason
        · rcases content with _ | ⟨byte, more⟩
          · exact ⟨rfl, rfl, Nat.le_refl _, Nat.le_max_right _ _⟩
          · simp only [List.isEmpty_cons, Bool.false_eq_true, if_false]
            by_cases hfits : (byte :: more).length ≤ target - buffer.size
            · -- The whole chunk moves to the buffer.
              rw [if_pos hfits]
              rcases ih (buffer ++ (byte :: more)) with ⟨hbytes, hreasons, hgrows, hbounded⟩
              rw [size_append] at hgrows hbounded
              refine ⟨?_, hreasons, by omega, by omega⟩
              rw [hbytes, Array.toList_appendList, List.append_assoc, delivered]
            · -- What does not fit stays in front of the stream.
              rw [if_neg hfits]
              refine ⟨?_, rfl, ?_, ?_⟩
              · simp only [Bool.false_eq_true, if_false]
                rw [delivered_chunk_append _ rest (fun hnone => hfits
                    (List.drop_eq_nil_iff.1 hnone)), Array.toList_appendList, List.append_assoc,
                  ← List.append_assoc (List.take _ _), List.take_append_drop,
                  delivered_chunk_append _ rest (List.cons_ne_nil byte more)]
              · rw [size_append]
                omega
              · rw [size_append, List.length_take]
                omega
        · rcases ih buffer with ⟨hbytes, hreasons, hgrows, hbounded⟩
          exact ⟨hbytes, hreasons, hgrows, hbounded⟩
        · exact ⟨rfl, rfl, Nat.le_refl _, Nat.le_max_right _ _⟩

namespace MarkedStream

/-- The bytes that a source has not yet been delivered: none after the end of its
    stream. -/
def pending (source : MarkedStream) : List UInt8 :=
  if source.exhausted then [] else delivered source.steps

/-- A source over a stream of the given bytes, on its way through them. -/
structure Tracks (stream : List UInt8) (limit : Nat) (source : MarkedStream) : Prop where
  /-- No byte is lost. -/
  bytes : source.buffer.toList ++ source.pending = stream
  limit_eq : source.limit = limit
  bounded : source.buffer.size ≤ limit
  within : source.position ≤ source.buffer.size

theorem tracks_mark (steps : List StreamStep) (limit : Nat) :
    Tracks (delivered steps) limit (mark steps limit) :=
  ⟨rfl, rfl, Nat.zero_le _, Nat.le_refl _⟩

/-- The buffer is the beginning of what lies within the limit. -/
theorem Tracks.buffer_eq {stream : List UInt8} {limit : Nat} {source : MarkedStream}
    (h : Tracks stream limit source) :
    source.buffer.toList = (stream.take limit).take source.buffer.size := by
  rw [List.take_take, Nat.min_eq_left h.bounded, ← h.bytes, ← Array.length_toList,
    List.take_left]

theorem Tracks.size_le {stream : List UInt8} {limit : Nat} {source : MarkedStream}
    (h : Tracks stream limit source) : source.buffer.size ≤ (stream.take limit).length := by
  have hlength := congrArg List.length h.buffer_eq
  rw [List.length_take, Array.length_toList] at hlength
  omega

/-- A source whose stream has ended, or that is full up to a target, has all that
    can be had up to the target. -/
theorem Tracks.min_le_size {stream : List UInt8} {limit target : Nat} {source : MarkedStream}
    (h : Tracks stream limit source)
    (hfull : source.exhausted = true ∨ min target limit ≤ source.buffer.size) :
    min target (stream.take limit).length ≤ source.buffer.size := by
  rw [List.length_take]
  rcases hfull with hend | hfull
  · have hlength := congrArg List.length h.bytes
    rw [pending, if_pos hend, List.append_nil, Array.length_toList] at hlength
    omega
  · omega

/-- Pulling keeps a source on its way. -/
theorem Tracks.pulled {stream : List UInt8} {limit target : Nat} {source : MarkedStream}
    {pulled : Pulled} (h : Tracks stream limit source) (hopen : source.exhausted = false)
    (htarget : target ≤ limit) (hpulled : pulled.Accounts target source.steps source.buffer) :
    Tracks stream limit { source with
      steps := pulled.steps, buffer := pulled.buffer, exhausted := pulled.exhausted } where
  bytes := by
    have hbytes := h.bytes
    rw [pending, hopen, if_neg Bool.false_ne_true] at hbytes
    exact hpulled.bytes.trans hbytes
  limit_eq := h.limit_eq
  bounded := Nat.le_trans hpulled.bounded (Nat.max_le.2 ⟨htarget, h.bounded⟩)
  within := Nat.le_trans h.within hpulled.grows

/-- The source has got further in its stream without moving, and has met a failure
    on the way or none. -/
structure ReadsOn (stream : List UInt8) (limit : Nat) (source : MarkedStream)
    (met : Option Text) (after : MarkedStream) : Prop where
  tracks : Tracks stream limit after
  position_eq : after.position = source.position
  failures_eq : failures source.steps = met.toList ++ failures after.steps

/-- Filling fails with the next failure of the stream, or it brings as many bytes as
    were asked for and can be had. -/
theorem fillTo_readsOn (stream : List UInt8) (limit target : Nat) (source : MarkedStream)
    (h : Tracks stream limit source) :
    (∃ filled, fillTo target source = .ok () filled ∧ ReadsOn stream limit source none filled
      ∧ min target (stream.take limit).length ≤ filled.buffer.size)
    ∨ ∃ reason failed, fillTo target source = .error (.io reason) failed
      ∧ ReadsOn stream limit source (some reason) failed := by
  obtain rfl : source.limit = limit := h.limit_eq
  unfold fillTo
  by_cases hend : source.exhausted = true
  · -- After the end of its stream a source asks for nothing.
    rw [if_pos hend]
    exact Or.inl ⟨source, rfl, ⟨h, rfl, rfl⟩, h.min_le_size (Or.inl hend)⟩
  · rw [if_neg hend]
    have haccounts := pull_accounts (min target source.limit) source.steps source.buffer
    have hfills := pull_fills (min target source.limit) source.steps source.buffer
    generalize pull (min target source.limit) source.buffer source.steps = pulled
      at haccounts hfills ⊢
    have htracks := h.pulled (Bool.eq_false_iff.2 hend) (Nat.min_le_right _ _) haccounts
    have hreasons := haccounts.reasons
    unfold Pulled.Fills at hfills
    simp only
    cases hfailure : pulled.failure with
    | none =>
        rw [hfailure] at hfills hreasons
        exact Or.inl ⟨_, rfl, ⟨htracks, rfl, hreasons.symm⟩, htracks.min_le_size hfills.2.2⟩
    | some reason =>
        rw [hfailure] at hreasons
        exact Or.inr ⟨reason, _, rfl, ⟨htracks, rfl, hreasons.symm⟩⟩

/-- Measuring the size fails with the next failure of the stream, or it finds what
    lies within the limit. -/
theorem size_readsOn (stream : List UInt8) (limit : Nat) (source : MarkedStream)
    (h : Tracks stream limit source) :
    (∃ filled, size source = .ok (stream.take limit).length filled
      ∧ ReadsOn stream limit source none filled)
    ∨ ∃ reason failed, size source = .error (.io reason) failed
      ∧ ReadsOn stream limit source (some reason) failed := by
  have hsize : size source = EStateM.bind (fillTo source.limit)
      (fun _ => fun filled => .ok filled.buffer.size filled) source := rfl
  rw [hsize]
  unfold EStateM.bind
  rcases fillTo_readsOn stream limit source.limit source h with
    ⟨filled, hrun, hreads, hreached⟩ | ⟨reason, failed, hrun, hreads⟩
  · -- The buffer has reached the limit or the end of the stream, whichever comes first.
    have hall : filled.buffer.size = (stream.take limit).length := by
      have hle := hreads.tracks.size_le
      have hlimit := List.length_take_le limit stream
      rw [h.limit_eq] at hreached
      omega
    rw [hrun, ← hall]
    exact Or.inl ⟨filled, rfl, hreads⟩
  · rw [hrun]
    exact Or.inr ⟨reason, failed, rfl, hreads⟩

end MarkedStream

/-- The failure of a resource that a fault reports. -/
def Fault.outage? : Fault → Option Text
  | .io reason => some reason
  | _ => none

/-- The failure of the resource that a request met. -/
def Exchange.outage? (exchange : Exchange) : Option Text :=
  match exchange.answer with
  | .error fault => fault.outage?
  | .ok _ => none

namespace MarkedStream

section Requests

variable {stream : List UInt8} {limit : Nat} {source : MarkedStream}

/-- The cursor that a source stands for. -/
abbrev cursorOf (stream : List UInt8) (limit : Nat) (source : MarkedStream) : Cursor :=
  ⟨stream.take limit, source.position⟩

theorem ReadsOn.cursorOf_eq {met : Option Text} {after : MarkedStream}
    (h : ReadsOn stream limit source met after) :
    cursorOf stream limit source = cursorOf stream limit after := by
  rw [cursorOf, cursorOf, h.position_eq]

/-- An operation on a source is one on its cursor, and no failure has been met, or it
    fails with the next failure of the stream and does not move. -/
abbrev IsOfCursor {α : Type} (stream : List UInt8) (limit : Nat) (source : MarkedStream) :
    EStateM.Result Fault MarkedStream α → EStateM.Result Fault Cursor α → Prop :=
  Accords (fun fault => fault.outage?.isNone = false)
    (fun after cursor => Tracks stream limit after ∧ cursor = cursorOf stream limit after
      ∧ failures source.steps = failures after.steps)
    (fun fault after => ReadsOn stream limit source fault.outage? after)

theorem seek_isOfCursor (position : Nat) (h : Tracks stream limit source) :
    IsOfCursor stream limit source (ByteSource.seek position source)
      (ByteSource.seek position (cursorOf stream limit source)) := by
  rcases fillTo_readsOn stream limit position source h with
    ⟨filled, hrun, hreads, hreached⟩ | ⟨reason, failed, hrun, hreads⟩
  · have htracks := hreads.tracks
    have hseek : ByteSource.seek position source = _ := seek_of_fillTo position source filled hrun
    -- Neither moves beyond the last byte, and filled up to there the buffer has as many.
    have hstop : min position filled.buffer.size = min position (stream.take limit).length := by
      have hle := htracks.size_le
      omega
    have hmoved : Tracks stream limit
        { filled with position := min position filled.buffer.size } :=
      ⟨htracks.bytes, htracks.limit_eq, htracks.bounded, Nat.min_le_right _ _⟩
    rw [hseek]
    exact .answered () _ _ ⟨hmoved, by rw [cursorOf, hstop], hreads.failures_eq⟩
  · have hseek : ByteSource.seek position source = .error (.io reason) failed :=
      bind_of_error (fillTo position) _ source failed _ hrun
    rw [hseek]
    exact .leftOut _ _ _ rfl hreads

theorem read_isOfCursor (count : Nat) (h : Tracks stream limit source) :
    IsOfCursor stream limit source (ByteSource.read count source)
      (ByteSource.read count (cursorOf stream limit source)) := by
  rcases fillTo_readsOn stream limit (source.position + count) source h with
    ⟨filled, hrun, hreads, hreached⟩ | ⟨reason, failed, hrun, hreads⟩
  · have htracks := hreads.tracks
    have hposition := hreads.position_eq
    have hread : ByteSource.read count source = _ := read_of_fillTo count source filled hrun
    have hle := htracks.size_le
    have hwithin := htracks.within
    rw [hread]
    change IsOfCursor stream limit source _ (Cursor.read count _)
    unfold Cursor.read
    simp only
    by_cases hshort : filled.buffer.size < filled.position + count
    · -- Filling has brought all there is, so the cursor lacks as many bytes.
      have hsize : filled.buffer.size = (stream.take limit).length := by omega
      rw [if_pos hshort, if_neg (by omega), hsize, hposition]
      exact .failed _ _ _ Bool.noConfusion ⟨htracks, hreads.cursorOf_eq, hreads.failures_eq⟩
    · have hwindow : window filled.buffer filled.position count
          = ((stream.take limit).drop source.position).take count := by
        rw [window_eq, htracks.buffer_eq, hposition, List.drop_take, List.take_take]
        congr 1
        omega
      rw [if_neg hshort, if_pos (by omega), hwindow, ← hposition]
      have hmoved : Tracks stream limit { filled with position := filled.position + count } :=
        ⟨htracks.bytes, htracks.limit_eq, htracks.bounded, Nat.le_of_not_lt hshort⟩
      exact .answered _ _ _ ⟨hmoved, rfl, hreads.failures_eq⟩
  · have hread : ByteSource.read count source = .error (.io reason) failed :=
      bind_of_error (fillTo (source.position + count)) _ source failed _ hrun
    rw [hread]
    exact .leftOut _ _ _ rfl hreads

theorem size_isOfCursor (h : Tracks stream limit source) :
    IsOfCursor stream limit source (ByteSource.size source)
      (ByteSource.size (cursorOf stream limit source)) := by
  rcases size_readsOn stream limit source h with
    ⟨filled, hrun, hreads⟩ | ⟨reason, failed, hrun, hreads⟩
  · have hsize : ByteSource.size source = .ok (stream.take limit).length filled := hrun
    rw [hsize]
    exact .answered _ _ _ ⟨hreads.tracks, hreads.cursorOf_eq, hreads.failures_eq⟩
  · have hsize : ByteSource.size source = .error (.io reason) failed := hrun
    rw [hsize]
    exact .leftOut _ _ _ rfl hreads

theorem remaining_isOfCursor (h : Tracks stream limit source) :
    IsOfCursor stream limit source (ByteSource.remaining source)
      (ByteSource.remaining (cursorOf stream limit source)) := by
  rcases size_readsOn stream limit source h with
    ⟨filled, hrun, hreads⟩ | ⟨reason, failed, hrun, hreads⟩
  · have hremaining : ByteSource.remaining source
        = .ok ((stream.take limit).length - filled.position) filled :=
      bind_of_ok size _ source filled _ hrun
    -- Measuring moves nothing, so both count from the same position.
    rw [hremaining, hreads.position_eq]
    exact .answered _ _ _ ⟨hreads.tracks, hreads.cursorOf_eq, hreads.failures_eq⟩
  · have hremaining : ByteSource.remaining source = .error (.io reason) failed :=
      bind_of_error size _ source failed _ hrun
    rw [hremaining]
    exact .leftOut _ _ _ rfl hreads

/-- A request is one of the cursor, unless it meets a failure. -/
theorem perform_isOfCursor (request : Request) (h : Tracks stream limit source) :
    IsOfCursor stream limit source (request.perform source)
      (request.perform (cursorOf stream limit source)) := by
  cases request with
  | seek position => exact accords_map _ _ _ _ _ (seek_isOfCursor position h)
  | read count => exact accords_map _ _ _ _ _ (read_isOfCursor count h)
  | readByte =>
      exact accords_map _ _ _ _ _ (accords_map _ _ _ _ _ (read_isOfCursor 1 h))
  | remaining => exact accords_map _ _ _ _ _ (remaining_isOfCursor h)
  | size => exact accords_map _ _ _ _ _ (size_isOfCursor h)

end Requests

/-- A request keeps the source on its way, and takes the failure that it meets from
    the front of those to come. -/
theorem exchange_tracks (request : Request) (stream : List UInt8) (limit : Nat)
    (source : MarkedStream) (h : Tracks stream limit source) :
    Tracks stream limit (exchange source request).2
      ∧ failures source.steps = (exchange source request).1.outage?.toList
        ++ failures (exchange source request).2.steps := by
  have haccord := perform_isOfCursor request h
  unfold exchange
  generalize request.perform source = first at haccord ⊢
  generalize request.perform (cursorOf stream limit source) = second at haccord
  -- Only a request that is left out takes a failure from those to come.
  cases haccord with
  | answered reply after cursor hafter => exact ⟨hafter.1, hafter.2.2⟩
  | failed fault after cursor hkept hafter =>
      have hnone : fault.outage? = none := Option.isNone_iff_eq_none.1 (Bool.ne_false_iff.1 hkept)
      refine ⟨hafter.1, ?_⟩
      change failures source.steps = fault.outage?.toList ++ failures after.steps
      rw [hnone, hafter.2.2]
      rfl
  | leftOut fault after _ _ hreads => exact ⟨hreads.tracks, hreads.failures_eq⟩

/-- The failures that a session meets are the first ones of the stream. -/
theorem failures_session (stream : List UInt8) (limit : Nat) (requests : List Request)
    (source : MarkedStream) (h : Tracks stream limit source) :
    failures source.steps = (transcript source requests).filterMap Exchange.outage?
      ++ failures (afterwards source requests).steps := by
  induction requests generalizing source with
  | nil => rfl
  | cons request rest ih =>
      -- What the request meets is taken from the front, and the rest is met later.
      rcases exchange_tracks request stream limit source h with ⟨htracks, hfailures⟩
      rw [transcript, afterwards, List.filterMap_cons, hfailures, ih _ htracks]
      cases (exchange source request).1.outage? <;> rfl

/-- A session with a marked stream. Its requests that do not meet a failure of the
    stream are answered as by a cursor over the bytes that the stream delivers within
    the limit, to which nothing but these requests is put. The failures that the
    others meet are the first ones of the stream, each once. At the end no byte is
    lost, and position, buffer and limit are in order. -/
theorem marked_session (steps : List StreamStep) (limit : Nat) (requests : List Request) :
    let source := mark steps limit
    let cursor := Cursor.mk ((delivered steps).take limit) 0
    let answered := (transcript source requests).filter fun exchange => exchange.outage?.isNone
    transcript cursor (answered.map Exchange.request) = answered
      ∧ (transcript source requests).filterMap Exchange.outage? <+: failures steps
      ∧ Tracks (delivered steps) limit (afterwards source requests)
      ∧ afterwards cursor (answered.map Exchange.request)
        = ⟨(delivered steps).take limit, (afterwards source requests).position⟩ := by
  have hstart := tracks_mark steps limit
  -- The invariant: the source tracks the stream, and the cursor is the one of its position.
  have hsession := transcript_of_accords (fun exchange => exchange.outage?.isNone)
    (fun source cursor => Tracks (delivered steps) limit source
      ∧ cursor = cursorOf (delivered steps) limit source)
    (fun _ _ => rfl) ?_ requests (mark steps limit)
    (Cursor.mk ((delivered steps).take limit) 0) ⟨hstart, rfl⟩
  · have hfailures := failures_session (delivered steps) limit requests _ hstart
    exact ⟨hsession.1, ⟨_, hfailures.symm⟩, hsession.2⟩
  · rintro request source _ ⟨htracks, rfl⟩
    refine accords_mono _ _ ?_ ?_ (perform_isOfCursor request htracks)
    · rintro after cursor ⟨hafter, hcursor, -⟩
      exact ⟨hafter, hcursor⟩
    · intro fault after hreads
      exact ⟨hreads.tracks, hreads.cursorOf_eq⟩

/-- A failure between two bytes of a read: asked again, the read gets both. -/
example : (transcript (mark [.chunk [65], .failure ['!'], .chunk [66, 67]] 2)
      [.read 2, .remaining, .read 2, .readByte]).map Exchange.answer
    = [.error (.io ['!']), .ok (.count 2), .ok (.bytes [65, 66]), .error (.endOfData 1 0)] :=
  rfl

end MarkedStream

end FileSignatures
