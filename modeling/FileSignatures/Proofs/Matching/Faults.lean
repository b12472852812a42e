import FileSignatures.Proofs.Matching.Sources
import FileSignatures.Proofs.Property.Tokens

/-!
# What can go wrong

Identification by a parsed rule set can fail in two ways. The resource itself may
fail, and a numeric property of the winner's description may have no value.
Running short of data never comes out, on any path, since every read that a test
makes turns it into "does not hold". A comparison without a meaning never comes
out, since the reader of databases lets no such rule through.

## Main definitions

* `Fault.Possible`: The faults that identification can end with.

## Theorems

* `verdict_error_possible`: A verdict fails for a numeric key only.
* `identify_error_possible`: So does identification, or the resource fails.
-/

namespace FileSignatures

/-- The faults that identification can end with: those of the resource, where
    they are to be expected, and numeric properties without a value. -/
def Fault.Possible (mayFail : Text → Prop) : Fault → Prop
  | .io reason => mayFail reason
  | .badNumber error =>
    error.key = PropertyKey.channels ∨ error.key = PropertyKey.frameRate
  | .endOfData _ _ => False
  | .operatorMismatch _ _ _ => False

/-- A verdict fails for a numeric key only. -/
theorem verdict_error_possible (rules : RuleSet) (evaluator : Evaluator) (size : Nat)
    (content : List UInt8) (error : BadNumber)
    (h : rules.verdict evaluator size content = .error error) :
    error.key = PropertyKey.channels ∨ error.key = PropertyKey.frameRate := by
  unfold RuleSet.verdict at h
  split at h
  · exact absurd h (by simp only [reduceCtorEq, not_false_eq_true])
  · rename_i winner _
    unfold Signature.report at h
    generalize hextraction : Extraction.ofDescription evaluator (winner.head.description
      ++ Rule.contributionsIn size content winner.extras) = extraction at h
    cases extraction with
    | ok extraction => exact absurd h (by simp only [Except.map, reduceCtorEq, not_false_eq_true])
    | error other =>
        -- The report passes on the fault of the extraction.
        simp only [Except.map, Except.error.injEq] at h
        exact key_of_ofDescription evaluator _ error (h ▸ hextraction)

/-- On a source that serves bytes, identification ends with a possible fault if
    it ends with any. -/
theorem possible_of_service {σ : Type} [ByteSource σ] (service : Service σ) (rules : RuleSet)
    (hrules : rules.WellFormed) (evaluator : Evaluator) (source settled after : σ)
    (hsize : ByteSource.size source = .ok service.size settled) (hready : service.Ready settled)
    (fault : Fault) (h : rules.identify evaluator source = .error fault after) :
    fault.Possible service.mayFail := by
  -- Either the run ends with the verdict, or the source failed on the way.
  rcases identify_of_service service rules hrules evaluator source settled hsize hready with
    ⟨t, hrun⟩ | ⟨reason, t, hmay, hrun⟩
  · rw [h] at hrun
    cases hverdict : rules.verdict evaluator service.size service.content with
    | ok result =>
        rw [hverdict] at hrun
        exact absurd hrun (by simp only [reduceCtorEq, not_false_eq_true])
    | error error =>
        rw [hverdict] at hrun
        simp only [EStateM.Result.error.injEq] at hrun
        rw [hrun.1]
        exact verdict_error_possible rules evaluator _ _ error hverdict
  · rw [h, EStateM.Result.error.injEq] at hrun
    rw [hrun.1]
    exact hmay

/-- Identification by a parsed rule set ends with possible faults only: on a
    seekable source in any state over any medium, where an unreadable spot must
    lie within reach, and on any stream, of which a failure must come before all
    bytes within the limit and the end of a shorter stream have been seen. -/
theorem identify_error_possible (text : Text) (rules : RuleSet) (evaluator : Evaluator)
    (h : RuleSet.ofText text = .ok rules) :
    (∀ (source after : SeekableSource) (fault : Fault),
      rules.identify evaluator source = .error fault after →
        fault.Possible source.medium.FailsFor)
    ∧ ∀ (steps : List StreamStep) (limit : Nat) (after : MarkedStream) (fault : Fault),
      rules.identify evaluator (MarkedStream.mark steps limit) = .error fault after →
        fault.Possible (FailsWithin steps limit) := by
  have hrules := wellFormed_of_ofText text rules h
  refine ⟨fun source after fault hrun => ?_, fun steps limit after fault hrun => ?_⟩
  · exact possible_of_service (SeekableSource.service source.medium) rules hrules evaluator source
      source after rfl rfl fault hrun
  · rcases MarkedStream.size_mark steps limit with
      ⟨reason, source, hreach, hsize⟩ | ⟨settled, -, hready, hsize⟩
    · -- The size is measured first, so its failure is the outcome.
      have hfails : rules.identify evaluator (MarkedStream.mark steps limit)
          = .error (.io reason) source := bind_of_error ByteSource.size _ _ _ _ hsize
      rw [hfails, EStateM.Result.error.injEq] at hrun
      rw [← hrun.1]
      exact hreach
    · -- A settled source cannot fail, so what is left is a property without a value.
      have hpossible := possible_of_service (MarkedStream.service ((delivered steps).take limit))
        rules hrules evaluator _ settled after hsize hready fault hrun
      cases fault with
      | io reason => exact absurd hpossible not_false
      | badNumber error => exact hpossible
      | endOfData needed available => exact hpossible
      | operatorMismatch line operator type => exact hpossible

/-- A medium with an unreadable byte, a count of channels that is no number, and a
    stream that fails before its third byte. -/
theorem identify_error_possible_of_sample :
    (∃ fault after, Database.sampleRules.identify .arithmetic
        (SeekableSource.ofMedium ⟨#[65, 66], 2, some (1, ['!'])⟩) = .error fault after
      ∧ fault.Possible (Medium.FailsFor ⟨#[65, 66], 2, some (1, ['!'])⟩))
    ∧ (∃ fault after, Database.sampleRules.identify .arithmetic
        (SeekableSource.ofBytes #[65, 66, 32, 3, 120, 121, 0]) = .error fault after
      ∧ fault.Possible (SeekableSource.ofBytes #[65, 66, 32, 3, 120, 121, 0]).medium.FailsFor)
    ∧ ∃ fault after, Database.sampleRules.identify .arithmetic
        (MarkedStream.mark [.chunk [65], .chunk [66], .failure ['!']] 3) = .error fault after
      ∧ fault.Possible (FailsWithin [.chunk [65], .chunk [66], .failure ['!']] 3) := by
  have hpossible := identify_error_possible Database.sampleText Database.sampleRules .arithmetic
    Database.ofText_sampleText
  refine ⟨⟨_, _, rfl, ?_⟩, ⟨_, _, rfl, ?_⟩, ⟨_, _, rfl, ?_⟩⟩
  · exact hpossible.1 (SeekableSource.ofMedium ⟨#[65, 66], 2, some (1, ['!'])⟩) _ _ rfl
  · exact hpossible.1 (SeekableSource.ofBytes #[65, 66, 32, 3, 120, 121, 0]) _ _ rfl
  · exact hpossible.2 [.chunk [65], .chunk [66], .failure ['!']] 3 _ _ rfl

end FileSignatures
