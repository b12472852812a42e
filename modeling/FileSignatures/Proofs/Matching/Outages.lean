import FileSignatures.Proofs.Matching.Sources

/-!
# Outages do not change the verdict

A resource that fails while it is identified may cost the identification, but it
cannot turn it into another one: no test takes a failing read for a rule that does
not hold. So whoever can make reads fail at will, can at most keep a resource from
being identified.

This compares two runs, one on a resource with a failure and one on the same
resource without it. The runs need not be followed step by step. Each of them ends
with the verdict on the bytes that the resource serves or with the failure, and the
bytes are the same in both; the run without the failure has no failure to end with.

## Main definitions

* `withoutFailures`: A stream that never fails.

## Theorems

* `delivered_withoutFailures`: It delivers the same bytes.
* `not_failsWithin_withoutFailures`: No failure is within reach.
* `identification_despite_outages`: An outage is reported, or nobody notices.
-/

namespace FileSignatures

/-- A stream with the failures taken out. -/
def withoutFailures (steps : List StreamStep) : List StreamStep :=
  steps.filter fun step =>
    match step with
    | .failure _ => false
    | _ => true

/-- Failures deliver no bytes, and taking them out takes none away. -/
theorem delivered_withoutFailures (steps : List StreamStep) :
    delivered (withoutFailures steps) = delivered steps := by
  induction steps with
  | nil => rfl
  | cons step rest ih =>
      rcases step with ⟨_ | ⟨byte, content⟩⟩ | _ | reason
      · -- Nothing is delivered behind an empty chunk, failures or not.
        rfl
      · exact congrArg (byte :: content ++ ·) ih
      · exact ih
      · exact ih

theorem not_failsWithin_withoutFailures (steps : List StreamStep) (limit : Nat)
    (reason : Text) : ¬ FailsWithin (withoutFailures steps) limit reason := by
  rintro ⟨before, after, hsteps, -⟩
  have hmem : StreamStep.failure reason ∈ withoutFailures steps :=
    hsteps ▸ List.mem_append_right before List.mem_cons_self
  exact absurd (List.mem_filter.1 hmem).2 Bool.false_ne_true

/-- A verdict is no failure of the resource. -/
theorem verdict_ne_io (verdict : Except BadNumber Identification) (reason : Text) :
    verdict.mapError Fault.badNumber ≠ .error (.io reason) := by
  cases verdict with
  | ok result => simp only [Except.mapError, ne_eq, reduceCtorEq, not_false_eq_true]
  | error error =>
      simp only [Except.mapError, ne_eq, Except.error.injEq, reduceCtorEq, not_false_eq_true]

/-- A medium with all of its spots readable. -/
def Medium.sound (medium : Medium) : Medium :=
  { medium with badSpot := none }

section Runs

variable (rules : RuleSet) (evaluator : Evaluator) (hrules : rules.WellFormed)

include hrules

/-- A sound medium is identified by the verdict on its readable bytes, which are those
    of the medium as it is. -/
theorem identifySource_sound (medium : Medium) :
    rules.identifySource evaluator (SeekableSource.ofMedium medium.sound)
      = (rules.verdict evaluator medium.measured medium.readable).mapError .badNumber := by
  rcases identifySource_medium rules evaluator hrules (SeekableSource.ofMedium medium.sound) with
    hrun | ⟨reason, hfails, -⟩
  · exact hrun
  · exact absurd hfails (not_failsFor_of_noBadSpot medium.content medium.measured reason)

/-- So is a stream that never fails, by the bytes within the limit. -/
theorem identifyStream_withoutFailures (steps : List StreamStep) (limit : Nat) :
    rules.identifyStream evaluator (withoutFailures steps) limit
      = (rules.verdict evaluator ((delivered steps).take limit).length
        ((delivered steps).take limit)).mapError .badNumber := by
  have hrun := identifyStream_eq_verdict rules evaluator hrules (withoutFailures steps) limit
    (not_failsWithin_withoutFailures steps limit)
  rw [delivered_withoutFailures] at hrun
  exact hrun

end Runs

/-- Identification by a parsed rule set either reports an outage, or comes to the same
    as it would without: on a medium that may be shorter than it claims and have an
    unreadable spot, which must then lie within the size that is claimed, and on a
    stream that may fail any number of times, where the first failure must then come
    before all bytes within the limit and the end of a shorter stream have been seen.
    Without outages none is reported. -/
theorem identification_despite_outages (text : Text) (rules : RuleSet) (evaluator : Evaluator)
    (h : RuleSet.ofText text = .ok rules) :
    (∀ medium : Medium,
      (rules.identifySource evaluator (SeekableSource.ofMedium medium)
          = rules.identifySource evaluator (SeekableSource.ofMedium medium.sound)
        ∨ ∃ reason, medium.FailsFor reason
          ∧ rules.identifySource evaluator (SeekableSource.ofMedium medium) = .error (.io reason))
      ∧ ∀ reason, rules.identifySource evaluator (SeekableSource.ofMedium medium.sound)
        ≠ .error (.io reason))
    ∧ ∀ (steps : List StreamStep) (limit : Nat),
      (rules.identifyStream evaluator steps limit
          = rules.identifyStream evaluator (withoutFailures steps) limit
        ∨ ∃ reason, FailsWithin steps limit reason
          ∧ rules.identifyStream evaluator steps limit = .error (.io reason))
      ∧ ∀ reason, rules.identifyStream evaluator (withoutFailures steps) limit
        ≠ .error (.io reason) := by
  have hrules := wellFormed_of_ofText text rules h
  refine ⟨fun medium => ⟨?_, fun reason => ?_⟩, fun steps limit => ⟨?_, fun reason => ?_⟩⟩
  · rw [identifySource_sound rules evaluator hrules medium]
    exact identifySource_medium rules evaluator hrules (SeekableSource.ofMedium medium)
  · rw [identifySource_sound rules evaluator hrules medium]
    exact verdict_ne_io _ reason
  · rw [identifyStream_withoutFailures rules evaluator hrules steps limit]
    -- The first failure decides the run if it is within reach, and none does else.
    by_cases hreach : ∃ reason, FailsWithin steps limit reason
    · rcases hreach with ⟨reason, hreason⟩
      exact Or.inr ⟨reason, hreason,
        identifyStream_of_failsWithin rules evaluator steps limit reason hreason⟩
    · exact Or.inl (identifyStream_eq_verdict rules evaluator hrules steps limit
        (not_exists.1 hreach))
  · rw [identifyStream_withoutFailures rules evaluator hrules steps limit]
    exact verdict_ne_io _ reason

/-- A spot behind the size that is claimed is never met; an unreadable byte of the
    signature is, and so is a failure of a stream before its third byte. -/
theorem identification_despite_unreadable_byte :
    Database.sampleRules.identifySource .arithmetic
        (SeekableSource.ofMedium ⟨#[65, 66, 32, 9, 0], 4, some (4, ['!'])⟩)
      = Database.sampleRules.identifySource .arithmetic
        (SeekableSource.ofMedium ⟨#[65, 66, 32, 9, 0], 4, none⟩)
    ∧ (∃ reason, Medium.FailsFor ⟨#[65, 66, 32, 9, 0], 5, some (1, ['!'])⟩ reason
      ∧ Database.sampleRules.identifySource .arithmetic
        (SeekableSource.ofMedium ⟨#[65, 66, 32, 9, 0], 5, some (1, ['!'])⟩)
        = .error (.io reason))
    ∧ ∃ reason, FailsWithin [.chunk [65, 66], .failure ['!'], .chunk [32, 9, 0]] 5 reason
      ∧ Database.sampleRules.identifyStream .arithmetic
        [.chunk [65, 66], .failure ['!'], .chunk [32, 9, 0]] 5 = .error (.io reason) := by
  have hsample := identification_despite_outages Database.sampleText Database.sampleRules
    .arithmetic Database.ofText_sampleText
  refine ⟨?_, ?_, ?_⟩
  · refine (hsample.1 ⟨#[65, 66, 32, 9, 0], 4, some (4, ['!'])⟩).1.resolve_right ?_
    rintro ⟨reason, ⟨spot, hspot, hlt⟩, -⟩
    rw [Option.some.injEq, Prod.mk.injEq] at hspot
    exact absurd hlt (by rw [← hspot.1]; exact Nat.lt_irrefl 4)
  · -- The run fails, and the one on the sound medium does not.
    have hmedium := hsample.1 ⟨#[65, 66, 32, 9, 0], 5, some (1, ['!'])⟩
    exact hmedium.1.resolve_left (fun hsame => hmedium.2 ['!'] (hsame.symm.trans rfl))
  · have hstream := hsample.2 [.chunk [65, 66], .failure ['!'], .chunk [32, 9, 0]] 5
    exact hstream.1.resolve_left (fun hsame => hstream.2 ['!'] (hsame.symm.trans rfl))

end FileSignatures
