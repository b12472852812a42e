import FileSignatures.Proofs.Resource.Service
import FileSignatures.Resource.Seekable

/-!
# Seekable sources serve their medium

A seekable source can be used in every state, because a seek sets its position
and the head of its medium alike. What it serves are the bytes of the medium up
to the size that was measured; a medium that has shrunk serves fewer bytes than
it claims, and one that has grown serves no more.

The source fails only where the medium has an unreadable spot, and only if the
spot lies within the size that was measured: the check of the size comes first.

## Main definitions

* `Medium.readable`: The bytes of a medium that can be read.
* `Medium.FailsFor`: The reason of an unreadable spot within reach.
* `SeekableSource.service`: A seekable source as a service of bytes.

## Theorems

* `window_eq`: A stretch of an array as a stretch of its list.
* `seekable_read_yields`: A read delivers the readable bytes.
* `Medium.readable_eq_content`: A medium of the measured size is readable in
  full.
-/

namespace FileSignatures

theorem window_eq (content : Array UInt8) (position count : Nat) :
    window content position count = (content.toList.drop position).take count := by
  unfold window
  rw [Array.toList_extract, List.extract_eq_take_drop, Nat.add_sub_cancel_left]

namespace Medium

/-- The bytes of a medium that can be read: those up to the measured size. -/
def readable (medium : Medium) : List UInt8 :=
  medium.content.toList.take medium.measured

/-- A medium whose measured size is its size is readable in full. -/
theorem readable_eq_content (content : Array UInt8) (badSpot : Option (Nat × Text)) :
    readable ⟨content, content.size, badSpot⟩ = content.toList := by
  unfold readable
  rw [← Array.length_toList, List.take_length]

/-- The unreadable spot of a medium lies within reach, and its reason is the one
    given. -/
def FailsFor (medium : Medium) (reason : Text) : Prop :=
  ∃ spot, medium.badSpot = some (spot, reason) ∧ spot < medium.measured

end Medium

namespace SeekableSource

/-- The source reads the medium and stands at a position, its head as well. -/
def StandsAt (medium : Medium) (position : Nat) (source : SeekableSource) : Prop :=
  source.medium = medium ∧ source.position = position ∧ source.head = position

/-- Only an unreadable spot within reach makes a read fail, a read of nothing
    being out of reach of every spot. -/
theorem failsFor_of_failure? (source : SeekableSource) (count : Nat) (reason : Text)
    (hreach : count ≤ source.medium.measured - source.head)
    (h : source.failure? count = some reason) : source.medium.FailsFor reason := by
  unfold failure? at h
  rcases hspot : source.medium.badSpot with _ | ⟨spot, why⟩
  · rw [hspot] at h
    exact absurd h (by simp only [reduceCtorEq, not_false_eq_true])
  · rw [hspot] at h
    simp only at h
    split at h
    · rename_i hwithin
      rw [Option.some.injEq] at h
      exact ⟨spot, by rw [hspot, h], by omega⟩
    · exact absurd h (by simp only [reduceCtorEq, not_false_eq_true])

/-- A read delivers the readable bytes at the position, or runs short where they
    end. Either way the medium is the same. -/
theorem seekable_read_yields (medium : Medium) (position count : Nat) (source : SeekableSource)
    (hat : StandsAt medium position source) :
    Yields medium.FailsFor (fun s => s.medium = medium) (StandsAt medium (position + count))
      (stretch? medium.readable position count) (read count source) := by
  rcases hat with ⟨rfl, rfl, hhead⟩
  have hlength : source.medium.readable.length
      = min source.medium.measured source.medium.content.size := by
    rw [Medium.readable, List.length_take, Array.length_toList]
  unfold read
  simp only []
  by_cases hshort : source.available < count
  · -- The measured size is too small already, so the readable bytes are too few.
    rw [if_pos hshort]
    refine ⟨?_, rfl⟩
    unfold available at hshort
    rw [stretch?, if_neg (by omega)]
  · rw [if_neg hshort]
    unfold available at hshort
    cases hfail : source.failure? count with
    | some reason =>
        exact failsFor_of_failure? source count reason (by omega) hfail
    | none =>
        simp only []
        -- The medium itself may be shorter than it was when it was measured.
        by_cases hfits : count ≤ source.medium.content.size - source.head
        · rw [if_pos hfits]
          refine ⟨?_, rfl, rfl, by rw [hhead]⟩
          rw [stretch?_eq_some_iff, hlength, window_eq, hhead]
          refine ⟨by omega, ?_⟩
          rw [Medium.readable, List.drop_take, List.take_take]
          congr 1
          omega
        · rw [if_neg hfits]
          refine ⟨?_, rfl⟩
          rw [stretch?, if_neg (by omega)]

/-- A seekable source serves the readable bytes of its medium. -/
def service (medium : Medium) : Service SeekableSource where
  content := medium.readable
  size := medium.measured
  mayFail := medium.FailsFor
  Ready source := source.medium = medium
  StandsAt := StandsAt medium
  ready_of_standsAt _ _ h := h.1
  seek_yields _ _ _ hready := ⟨rfl, hready, rfl, rfl⟩
  read_yields := seekable_read_yields medium

end SeekableSource

end FileSignatures
