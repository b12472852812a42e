import FileSignatures.Proofs.Matching.Evaluation
import FileSignatures.Proofs.Resource.Marked

/-!
# All sources are identified alike

Bytes in memory, a medium of a claimed size and a marked stream are three ways to
present the same bytes. Both kinds of sources serve bytes, so each of them is
identified by the verdict on what it serves, or fails on its own account.

For a stream this says more than that identification does not depend on how its
bytes are cut into chunks. A failure of the stream matters exactly if it comes
before the bytes within the limit and, for a shorter stream, its end have been
seen; then it is what identification fails with, whatever the rules are. Any
later failure is never met.

## Theorems

* `identifySource_medium`: The verdict on the readable bytes of a medium.
* `test_of_bytes`, `contributions_of_bytes`: Rules on bytes in memory.
* `identifyBytes_eq_verdict`: The verdict on bytes in memory.
* `identifyStream_of_failsWithin`: A failure within reach is what comes out.
* `identifyStream_eq_verdict`: Otherwise it is the verdict on the bytes within
  the limit.
* `identification_of_same_bytes`: Streams and media are identified as the bytes
  that they present.
-/

namespace FileSignatures

variable (rules : RuleSet) (evaluator : Evaluator)

/-- A seekable source in any state is identified by the verdict on the readable
    bytes of its medium, unless the medium fails. -/
theorem identifySource_medium (hrules : rules.WellFormed) (source : SeekableSource) :
    rules.identifySource evaluator source
        = (rules.verdict evaluator source.medium.measured source.medium.readable).mapError
          .badNumber
      ∨ ∃ reason, source.medium.FailsFor reason
        ∧ rules.identifySource evaluator source = .error (.io reason) :=
  identifySource_of_service (SeekableSource.service source.medium) rules hrules evaluator source
    source rfl rfl

theorem not_failsFor_of_noBadSpot (content : Array UInt8) (measured : Nat) (reason : Text) :
    ¬ Medium.FailsFor ⟨content, measured, none⟩ reason := by
  rintro ⟨spot, hspot, -⟩
  exact absurd hspot (by simp only [reduceCtorEq, not_false_eq_true])

/-- On bytes in memory a rule is tested alike in every state of the source. -/
theorem test_of_bytes (rule : Rule) (hrule : rule.WellFormed) (content : Array UInt8)
    (source : SeekableSource) (h : source.medium = ⟨content, content.size, none⟩) :
    ∃ settled : SeekableSource, rule.test content.size source
        = .ok (rule.valueIn? content.size content.toList) settled
      ∧ settled.medium = source.medium := by
  have hrun := test_yields (SeekableSource.service source.medium) rule hrule source rfl
  simp only [SeekableSource.service, h, Medium.readable_eq_content] at hrun
  rcases yields_some_cases _ _ hrun with ⟨settled, heq, hmedium⟩ | ⟨reason, settled, -, hfails⟩
  · exact ⟨settled, heq, hmedium.trans h.symm⟩
  · exact absurd hfails (not_failsFor_of_noBadSpot content content.size reason)

theorem contributions_of_bytes (added : List Rule) (hrules : ∀ rule ∈ added, rule.WellFormed)
    (content : Array UInt8) (source : SeekableSource)
    (h : source.medium = ⟨content, content.size, none⟩) :
    ∃ settled : SeekableSource, Rule.contributions content.size added source
        = .ok (Rule.contributionsIn content.size content.toList added) settled
      ∧ settled.medium = source.medium := by
  have hrun := contributions_yields (SeekableSource.service source.medium) added hrules source rfl
  simp only [SeekableSource.service, h, Medium.readable_eq_content] at hrun
  rcases yields_some_cases _ _ hrun with ⟨settled, heq, hmedium⟩ | ⟨reason, settled, -, hfails⟩
  · exact ⟨settled, heq, hmedium.trans h.symm⟩
  · exact absurd hfails (not_failsFor_of_noBadSpot content content.size reason)

/-- Bytes in memory are identified by the verdict on them. -/
theorem identifyBytes_eq_verdict (hrules : rules.WellFormed) (content : Array UInt8) :
    rules.identifyBytes evaluator content
      = (rules.verdict evaluator content.size content.toList).mapError .badNumber := by
  rcases identifySource_medium rules evaluator hrules (SeekableSource.ofBytes content) with
    hrun | ⟨reason, hfails, -⟩
  · rw [SeekableSource.ofBytes, SeekableSource.ofMedium, Medium.readable_eq_content] at hrun
    exact hrun
  · exact absurd hfails (not_failsFor_of_noBadSpot content content.size reason)

/-- A failure of a stream within reach of the limit is met, and identification
    ends with it. -/
theorem identifyStream_of_failsWithin (steps : List StreamStep) (limit : Nat) (reason : Text)
    (h : FailsWithin steps limit reason) :
    rules.identifyStream evaluator steps limit = .error (.io reason) := by
  rcases MarkedStream.size_mark steps limit with ⟨other, source, hother, hsize⟩ | ⟨_, hnone, -⟩
  · have hsame : other = reason := failsWithin_unique steps limit other reason hother h
    -- The size is measured before any rule is tested.
    have hrun : rules.identify evaluator (MarkedStream.mark steps limit)
        = .error (.io other) source := bind_of_error ByteSource.size _ _ _ _ hsize
    unfold RuleSet.identifyStream RuleSet.identifySource
    rw [hrun, hsame]
  · exact absurd h (hnone reason)

/-- Without one, the stream is identified by the verdict on the bytes within the
    limit. -/
theorem identifyStream_eq_verdict (hrules : rules.WellFormed) (steps : List StreamStep)
    (limit : Nat) (h : ∀ reason, ¬ FailsWithin steps limit reason) :
    rules.identifyStream evaluator steps limit
      = (rules.verdict evaluator ((delivered steps).take limit).length
        ((delivered steps).take limit)).mapError .badNumber := by
  -- Measuring meets all failures there are, and there are none within the limit.
  rcases MarkedStream.size_mark steps limit with
    ⟨reason, -, hreason, -⟩ | ⟨settled, -, hready, hsize⟩
  · exact absurd hreason (h reason)
  · rcases identifySource_of_service (MarkedStream.service ((delivered steps).take limit)) rules
      hrules evaluator (MarkedStream.mark steps limit) settled hsize hready with
      hrun | ⟨reason, hfalse, -⟩
    · exact hrun
    · exact absurd hfalse not_false

/-- A stream without a failure within reach is identified as the bytes within the
    limit, however they are cut into chunks and wherever it is interrupted. One
    with a failure within reach fails with it. A medium that can be read is
    identified as the bytes that it claims to have. -/
theorem identification_of_same_bytes (text : Text) (h : RuleSet.ofText text = .ok rules) :
    (∀ steps limit, (∀ reason, ¬ FailsWithin steps limit reason) →
      rules.identifyStream evaluator steps limit
        = rules.identifyBytes evaluator ((delivered steps).take limit).toArray)
    ∧ (∀ steps limit reason, FailsWithin steps limit reason →
      rules.identifyStream evaluator steps limit = .error (.io reason))
    ∧ ∀ medium : Medium, medium.measured ≤ medium.content.size →
      (∀ reason, ¬ medium.FailsFor reason) →
      rules.identifySource evaluator (SeekableSource.ofMedium medium)
        = rules.identifyBytes evaluator (medium.content.extract 0 medium.measured) := by
  have hrules := wellFormed_of_ofText text rules h
  refine ⟨fun steps limit hnone => ?_, fun steps limit reason hreach => ?_,
    fun medium hclaim hnone => ?_⟩
  · rw [identifyStream_eq_verdict rules evaluator hrules steps limit hnone,
      identifyBytes_eq_verdict rules evaluator hrules, List.size_toArray]
  · exact identifyStream_of_failsWithin rules evaluator steps limit reason hreach
  · -- What can be read of the medium are the bytes that it claims to have.
    rw [identifyBytes_eq_verdict rules evaluator hrules]
    have hsize : (medium.content.extract 0 medium.measured).size = medium.measured := by
      rw [Array.size_extract]
      omega
    have hreadable : (medium.content.extract 0 medium.measured).toList = medium.readable := by
      rw [Array.toList_extract, List.extract_eq_take_drop, List.drop_zero, Nat.sub_zero,
        Medium.readable]
    rw [hsize, hreadable]
    rcases identifySource_medium rules evaluator hrules (SeekableSource.ofMedium medium) with
      hrun | ⟨reason, hfails, -⟩
    · exact hrun
    · exact absurd hfails (hnone reason)

/-- Four bytes in two chunks with an interruption in between, and a failure that
    comes after the limit; the same failure within reach; and a medium that claims
    four of its five bytes. -/
theorem identification_of_interrupted_chunks :
    Database.sampleRules.identifyStream .arithmetic
        [.chunk [65], .interruption, .chunk [66, 32, 0], .failure ['!']] 4
      = Database.sampleRules.identifyBytes .arithmetic #[65, 66, 32, 0]
    ∧ Database.sampleRules.identifyStream .arithmetic
        [.chunk [65], .interruption, .chunk [66, 32, 0], .failure ['!']] 5
      = .error (.io ['!'])
    ∧ Database.sampleRules.identifySource .arithmetic
        (SeekableSource.ofMedium ⟨#[65, 66, 32, 0, 0], 4, some (4, ['!'])⟩)
      = Database.sampleRules.identifyBytes .arithmetic #[65, 66, 32, 0] := by
  have hsame := identification_of_same_bytes Database.sampleRules .arithmetic
    Database.sampleText Database.ofText_sampleText
  have hreach : ∀ limit reason, FailsWithin
      [.chunk [65], .interruption, .chunk [66, 32, 0], .failure ['!']] limit reason
        ↔ 4 < limit ∧ ['!'] = reason := by
    intro limit reason
    -- The failure is the fourth step, and the three before it deliver four bytes.
    rw [failsWithin_iff_failsBefore, failsBefore_cons_iff _ _ _ _ (by simp) (by simp),
      failsBefore_cons_iff _ _ _ _ (by simp) (by simp),
      failsBefore_cons_iff _ _ _ _ (by simp) (by simp), failsBefore_failure_iff]
    refine and_congr_left' ?_
    simp only [delivered, List.length_append, List.length_cons, List.length_nil]
    omega
  refine ⟨?_, ?_, ?_⟩
  · refine hsame.1 _ 4 (fun reason hfails => ?_)
    exact absurd ((hreach 4 reason).1 hfails).1 (by omega)
  · exact hsame.2.1 _ 5 _ ((hreach 5 _).2 ⟨by omega, rfl⟩)
  · refine hsame.2.2 _ (by decide) ?_
    rintro reason ⟨spot, hspot, hlt⟩
    simp only [Option.some.injEq, Prod.mk.injEq] at hspot
    exact absurd hlt (by rw [← hspot.1]; decide)

end FileSignatures
