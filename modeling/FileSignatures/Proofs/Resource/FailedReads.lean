import FileSignatures.Proofs.Resource.Seekable
import FileSignatures.Proofs.Resource.Session

/-!
# Failed reads of seekable sources

A read of a seekable source fails if fewer bytes are expected than it asks for, if a
spot is unreadable, or if the medium ends before it should. The first two leave the
source as it was. The third one moves the head of the medium to its end, while the
source keeps its position, and nothing puts the two together before the next seek.

That this shows nowhere else is the point of this module. The size and what remains
are told from the position, a seek sets the head anew, and a head at the end of the
medium has nothing in front of it, so that until then every read of a byte fails as
well. Such a read is one of the failed ones, too, and leaving all of them out of a
session changes no other answer (`session_without_failed_reads`).

The sessions with and without the failed reads run side by side, in states that are
`Alongside`: they differ in the head at most, and then it is past the last byte.

## Main definitions

* `Exchange.isFailedRead`: A read that was answered with a fault.
* `SeekableSource.Alongside`: What failed reads may change.

## Theorems

* `read_eq_ok`, `read_eq_error`: What a read does to a source.
* `read_accords`: A read succeeds alike in both sessions, or it fails.
* `session_without_failed_reads`: Other answers do not depend on failed reads.
-/

namespace FileSignatures

/-- Whether a request asks for bytes. -/
def Request.isRead : Request → Bool
  | .read _ => true
  | .readByte => true
  | _ => false

/-- Whether a request asked for bytes and met a fault. -/
def Exchange.isFailedRead (exchange : Exchange) : Bool :=
  exchange.request.isRead && !exchange.answer.isOk

namespace SeekableSource

/-- What a read that succeeds does: the bytes fit into the medium, and position and
    head move by them. -/
theorem read_eq_ok (count : Nat) (source after : SeekableSource) (bytes : List UInt8)
    (h : read count source = .ok bytes after) :
    count ≤ source.medium.content.size - source.head
      ∧ after = { source with
          position := source.position + count, head := source.head + count } := by
  unfold read at h
  simp only at h
  split at h
  · exact absurd h (by simp only [reduceCtorEq, not_false_eq_true])
  · split at h
    · exact absurd h (by simp only [reduceCtorEq, not_false_eq_true])
    · split at h
      · rename_i hfits
        exact ⟨hfits, (EStateM.Result.ok.inj h).2.symm⟩
      · exact absurd h (by simp only [reduceCtorEq, not_false_eq_true])

/-- What a read that fails does: nothing, or it runs the head to the end of a medium
    that holds fewer bytes than were expected. -/
theorem read_eq_error (count : Nat) (source after : SeekableSource) (fault : Fault)
    (h : read count source = .error fault after) :
    after = source
      ∨ (count ≤ source.available ∧ source.medium.content.size - source.head < count
        ∧ after = { source with head := max source.head source.medium.content.size }) := by
  unfold read at h
  simp only at h
  split at h
  · exact Or.inl (EStateM.Result.error.inj h).2.symm
  · rename_i hexpected
    split at h
    · exact Or.inl (EStateM.Result.error.inj h).2.symm
    · split at h
      · exact absurd h (by simp only [reduceCtorEq, not_false_eq_true])
      · -- Only here has something been read, and the head has moved over it.
        rename_i hmissing
        exact Or.inr ⟨Nat.le_of_not_lt hexpected, Nat.lt_of_not_le hmissing,
          (EStateM.Result.error.inj h).2.symm⟩

theorem read_zero (source : SeekableSource) : read 0 source = .ok [] source := by
  have hnone : source.failure? 0 = none := by
    unfold failure?
    split
    · rw [if_neg (by omega)]
    · rfl
  unfold read
  rw [if_neg (Nat.not_lt_zero _), hnone]
  simp only [Nat.zero_le, if_true, Nat.add_zero, window_eq, List.take_zero]

/-- A source that has gone through failed reads, and one that has been spared them. -/
structure Alongside (source spared : SeekableSource) : Prop where
  medium_eq : source.medium = spared.medium
  position_eq : source.position = spared.position
  in_step : spared.head = spared.position
  /-- The head of the first source has nothing in front of it if it is not where it
      should be. -/
  head : source.head = source.position ∨ source.medium.content.size ≤ source.head

theorem Alongside.refl {source : SeekableSource} (h : source.head = source.position) :
    Alongside source source :=
  ⟨rfl, rfl, h, Or.inl h⟩

/-- A source whose head is where it should be is the one that has been spared. -/
theorem Alongside.eq_of_in_step {source spared : SeekableSource} (h : Alongside source spared)
    (hhead : source.head = source.position) : source = spared := by
  have hsame : source.head = spared.head := by rw [hhead, h.position_eq, h.in_step]
  cases source
  cases spared
  simp only [SeekableSource.mk.injEq]
  exact ⟨h.medium_eq, h.position_eq, hsame⟩

/-- A failed read leaves the source alongside the one that is spared the read. -/
theorem Alongside.of_read_eq_error {source spared after : SeekableSource} {count : Nat}
    {fault : Fault} (h : Alongside source spared) (hread : read count source = .error fault after) :
    Alongside after spared := by
  rcases read_eq_error count source after fault hread with rfl | ⟨-, -, rfl⟩
  · exact h
  · exact ⟨h.medium_eq, h.position_eq, h.in_step, Or.inr (Nat.le_max_right _ _)⟩

/-- A read succeeds on both sources alike, or it fails on the first one and is left
    out. -/
theorem read_accords (drops : Fault → Prop) (hdrops : ∀ fault, drops fault) (count : Nat)
    (source spared : SeekableSource) (h : Alongside source spared) :
    Accords drops Alongside (fun _ after => Alongside after spared)
      (ByteSource.read count source) (ByteSource.read count spared) := by
  change Accords drops Alongside _ (read count source) (read count spared)
  cases hread : read count source with
  | error fault after =>
      exact .leftOut fault after _ (hdrops fault) (h.of_read_eq_error hread)
  | ok bytes after =>
      rcases read_eq_ok count source after bytes hread with ⟨hfits, hafter⟩
      rcases h.head with hhead | hend
      · -- The sources are the same, and head and position move together.
        rw [← h.eq_of_in_step hhead, hread]
        refine .answered bytes after after (.refl ?_)
        rw [hafter, hhead]
      · -- Behind the last byte only nothing can be read.
        obtain rfl : count = 0 := by omega
        rw [read_zero, EStateM.Result.ok.injEq] at hread
        rw [read_zero, ← hread.1, ← hread.2]
        exact .answered [] source spared h

/-- A request is answered alike by both sources, unless it is a failed read. -/
theorem perform_accords (request : Request) (source spared : SeekableSource)
    (h : Alongside source spared) :
    Accords (fun fault => (!Exchange.isFailedRead ⟨request, .error fault⟩) = false) Alongside
      (fun _ after => Alongside after spared)
      (request.perform source) (request.perform spared) := by
  cases request with
  | seek position =>
      -- A seek brings head and position together again.
      exact accords_map _ _ _ _ _ (.answered () { source with position, head := position }
        { spared with position, head := position } ⟨h.medium_eq, rfl, rfl, Or.inl rfl⟩)
  | read count =>
      exact accords_map _ _ _ _ _ (read_accords _ (fun _ => rfl) count source spared h)
  | readByte =>
      exact accords_map _ _ _ _ _ (accords_map _ _ _ _ _
        (read_accords _ (fun _ => rfl) 1 source spared h))
  | remaining =>
      have havailable : source.available = spared.available := by
        rw [available, available, h.medium_eq, h.position_eq]
      change Accords _ _ _ (.ok (Reply.count source.available) source)
        (.ok (Reply.count spared.available) spared)
      rw [havailable]
      exact .answered _ _ _ h
  | size =>
      change Accords _ _ _ (.ok (Reply.count source.medium.measured) source)
        (.ok (Reply.count spared.medium.measured) spared)
      rw [h.medium_eq]
      exact .answered _ _ _ h

/-- Leaving the reads that failed out of a session changes the answer to no other
    request, whatever the medium is: it may be shorter than it was measured, and have
    an unreadable spot. Nor does it change where the source stands in the end. -/
theorem session_without_failed_reads (medium : Medium) (requests : List Request) :
    let source := ofMedium medium
    let others := (transcript source requests).filter fun exchange => !exchange.isFailedRead
    transcript source (others.map Exchange.request) = others
      ∧ (afterwards source requests).position
        = (afterwards source (others.map Exchange.request)).position := by
  have hsession := transcript_of_accords (fun exchange => !exchange.isFailedRead) Alongside
    (fun request _ => by cases request <;> rfl)
    perform_accords requests (ofMedium medium) (ofMedium medium) (.refl rfl)
  exact ⟨hsession.1, hsession.2.position_eq⟩

/-- A medium that has lost all but two of its six bytes: the head stays at its end
    until it is sent back. -/
example : (transcript (ofMedium ⟨#[65, 66], 6, none⟩)
      [.read 3, .readByte, .remaining, .seek 0, .read 2]).map Exchange.answer
    = [.error (.endOfData 3 6), .error (.endOfData 1 6), .ok (.count 6), .ok .done,
      .ok (.bytes [65, 66])] :=
  rfl

end SeekableSource

end FileSignatures
