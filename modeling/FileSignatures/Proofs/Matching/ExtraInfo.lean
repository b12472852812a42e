import FileSignatures.Proofs.Database.ReadingOrder
import FileSignatures.Proofs.Matching.Sources

/-!
# Extra-info rules decide nothing

A database whose extra-info lines are commented out has the same signatures, only
without their extra-info rules (`ofText_of_commentsOut`). These have no part in what
matches: a signature holds by its head and its continuations, and is as long as these
are heavy. So the same signature wins under both databases, and all that is missing
without the extra-info rules is the text that they add behind the description of the
winner.

What an identification reports says in three ways whether the bytes were identified:
by its flag, by the line of the winner, and by the comment among the properties.

## Main definitions

* `Signature.withoutExtras`, `RuleSet.withoutExtras`: What remains without extra-info
  rules.
* `Database.CommentsOut`: A line after the extra-info lines are commented out.
* `Identification.Consistent`: The parts of a result that say the same.

## Theorems

* `entries_withoutExtras`: The other rules keep their order.
* `ofText_of_commentsOut`: What a database denotes without its extra-info lines.
* `winnerIn?_withoutExtras`: The winner does not depend on extra-info rules.
* `report_eq_ok`: What is reported of a winner.
* `consistent_of_identifyBytes`: Identification gives consistent results.
* `identification_without_extras`: Extra-info lines never affect what is matched.
-/

namespace FileSignatures

/-- A signature with its extra-info rules taken off. -/
def Signature.withoutExtras (signature : Signature) : Signature :=
  { signature with extras := [] }

/-- A rule set with all extra-info rules taken off. -/
def RuleSet.withoutExtras (rules : RuleSet) : RuleSet :=
  ⟨rules.signatures.map Signature.withoutExtras⟩

/-- A line after the extra-info lines are commented out: one of these has become a
    comment, and every other line is what it was. -/
def Database.CommentsOut (line bare : Text) : Prop :=
  if line.head? = some '>' then bare.head? = some '#' else bare = line

instance (line bare : Text) : Decidable (Database.CommentsOut line bare) :=
  inferInstanceAs (Decidable (if line.head? = some '>' then bare.head? = some '#'
    else bare = line))

/-- The parts of a result that say whether the bytes were identified agree, and the
    comment among the properties is the comment of the result. -/
structure Identification.Consistent (result : Identification) : Prop where
  line : result.identified = true ↔ result.matchedLine.isSome = true
  property : result.identified = true ↔ result.commentProperty?.isSome = true
  comment : result.identified = true → result.commentProperty? = some result.comment

/-- Sub-rules are continuations or extra-info rules. -/
theorem kind_of_mem_subRules (signature : Signature) (entry : LineKind × Rule)
    (h : entry ∈ signature.subRules) : entry.1 = .continuation ∨ entry.1 = .extraInfo := by
  rcases List.mem_merge.1 h with hmem | hmem
  · rcases List.mem_map.1 hmem with ⟨rule, -, rfl⟩
    exact Or.inl rfl
  · rcases List.mem_map.1 hmem with ⟨rule, -, rfl⟩
    exact Or.inr rfl

theorem signature_entries_withoutExtras (signature : Signature) :
    signature.withoutExtras.entries
      = signature.entries.filter fun entry => decide (entry.1 ≠ .extraInfo) := by
  -- Among sub-rules, those that are no extra-info rules are the continuations.
  have hkept : signature.subRules.filter (fun entry => decide (entry.1 ≠ .extraInfo))
      = signature.continuations.map fun rule => (LineKind.continuation, rule) := by
    rw [← (filter_subRules signature).1]
    refine List.filter_congr (fun entry hentry => ?_)
    rcases kind_of_mem_subRules signature entry hentry with hkind | hkind
    · rw [hkind]
      rfl
    · rw [hkind]
      rfl
  have hrest : signature.withoutExtras.subRules
      = signature.continuations.map fun rule => (LineKind.continuation, rule) := by
    rw [Signature.subRules, Signature.withoutExtras, List.map_nil, List.merge_right]
  rw [Signature.entries, Signature.entries, List.filter_cons, if_pos (by simp), hkept, hrest]
  rfl

/-- Without extra-info rules, the others are read in the order that they had. -/
theorem entries_withoutExtras (rules : RuleSet) :
    rules.withoutExtras.entries
      = rules.entries.filter fun entry => decide (entry.1 ≠ .extraInfo) := by
  unfold RuleSet.entries RuleSet.withoutExtras
  rw [List.flatMap_map, List.filter_flatMap]
  congr 1
  funext signature
  exact signature_entries_withoutExtras signature

namespace Database

/-- A line that is commented out is a rule line no more, and the numbers of the other
    ones stay. -/
theorem ruleLinesFrom_commentsOut (number : Nat) (lines bare : List Text)
    (h : List.Forall₂ CommentsOut lines bare) :
    ruleLinesFrom number bare
      = (ruleLinesFrom number lines).filter fun line => decide (line.1.head? ≠ some '>') := by
  induction h generalizing number with
  | nil => rfl
  | @cons line other rest bareRest hline _ ih =>
      unfold CommentsOut at hline
      by_cases hextra : line.head? = some '>'
      · rw [if_pos hextra] at hline
        have hrule : isRuleLine line = true := by
          rw [isRuleLine_iff, hextra]
          refine ⟨fun hnil => ?_, by decide⟩
          rw [hnil] at hextra
          exact absurd hextra (by decide)
        -- What was an extra-info line is a comment in the other text, at the same line number.
        have hcomment : ¬ isRuleLine other = true := by
          rw [isRuleLine_iff]
          exact fun hboth => hboth.2 hline
        rw [ruleLinesFrom_cons number line rest hrule, List.filter_cons,
          if_neg (by simp [hextra]), ruleLinesFrom_skip number other bareRest hcomment,
          ih (number + 1)]
      · rw [if_neg hextra] at hline
        subst hline
        by_cases hrule : isRuleLine other = true
        · rw [ruleLinesFrom_cons number other bareRest hrule,
            ruleLinesFrom_cons number other rest hrule, List.filter_cons,
            if_pos (decide_eq_true hextra), ih (number + 1)]
        · rw [ruleLinesFrom_skip number other bareRest hrule,
            ruleLinesFrom_skip number other rest hrule, ih (number + 1)]

/-- What the other lines denote does not change. -/
theorem denotes_filter (lines : List (Text × Nat)) (entries : List (LineKind × Rule))
    (h : List.Forall₂ Denotes lines entries) :
    List.Forall₂ Denotes (lines.filter fun line => decide (line.1.head? ≠ some '>'))
      (entries.filter fun entry => decide (entry.1 ≠ .extraInfo)) := by
  refine List.rel_filter (fun line entry hdenotes => ?_) h
  have hkind := (kind_and_line_of_ruleOf line.2 line.1 entry.1 entry.2 hdenotes).1
  simp only [hkind, ne_eq, lineKind_eq_extraInfo_iff]

/-- A header has no extra-info line in it. -/
theorem lines_of_commentsOut (text bare : Text) (date source : Text) (rest : List Text)
    (hlines : text.lines = magicHeader :: (dateHeader ++ date) :: (sourceHeader ++ source) :: rest)
    (h : List.Forall₂ CommentsOut text.lines bare.lines) :
    ∃ bareRest, bare.lines
        = magicHeader :: (dateHeader ++ date) :: (sourceHeader ++ source) :: bareRest
      ∧ List.Forall₂ CommentsOut rest bareRest := by
  rw [hlines] at h
  rcases List.forall₂_cons_left_iff.1 h with ⟨first, others, hfirst, hothers, hbare⟩
  rcases List.forall₂_cons_left_iff.1 hothers with ⟨second, _, hsecond, hlast, rfl⟩
  rcases List.forall₂_cons_left_iff.1 hlast with ⟨third, bareRest, hthird, hrest, rfl⟩
  -- The three lines of a header begin with a number sign and so are kept.
  have hkept : ∀ line other : Text, line.head? = some '#' → CommentsOut line other →
      other = line := by
    intro line other hhead hline
    unfold CommentsOut at hline
    rw [if_neg (by rw [hhead]; decide)] at hline
    exact hline
  rw [hkept _ _ rfl hfirst, hkept _ _ rfl hsecond, hkept _ _ rfl hthird] at hbare
  exact ⟨bareRest, hbare, hrest⟩

end Database

open Database

/-- A database whose extra-info lines are commented out denotes the rule set without
    the extra-info rules. -/
theorem ofText_of_commentsOut (text bare : Text) (rules : RuleSet)
    (h : RuleSet.ofText text = .ok rules)
    (hbare : List.Forall₂ CommentsOut text.lines bare.lines) :
    RuleSet.ofText bare = .ok rules.withoutExtras := by
  rcases (ofText_eq_ok_iff text rules).1 h with ⟨⟨date, source, rest, hlines⟩, hdenotes⟩
  rcases lines_of_commentsOut text bare date source rest hlines hbare with
    ⟨bareRest, hbareLines, hrest⟩
  refine (ofText_eq_ok_iff bare rules.withoutExtras).2 ⟨⟨date, source, bareRest, hbareLines⟩, ?_⟩
  rw [ruleLines_of_header text _ _ _ rest hlines] at hdenotes
  rw [ruleLines_of_header bare _ _ _ bareRest hbareLines,
    ruleLinesFrom_commentsOut 4 rest bareRest hrest, entries_withoutExtras]
  exact denotes_filter _ _ hdenotes

/-- The winner without extra-info rules is the winner with them, less its own. -/
theorem winnerIn?_withoutExtras (rules : RuleSet) (size : Nat) (content : List UInt8) :
    RuleSet.winnerIn? size content rules.withoutExtras.signatures
      = (RuleSet.winnerIn? size content rules.signatures).map Signature.withoutExtras := by
  -- Neither holding nor the length looks at extra-info rules.
  have hrel := rel_winnerIn? (fun a b => b = a.withoutExtras) size content
    (fun a b hab => by rw [hab]; rfl) (fun a b hab => by rw [hab]; rfl)
    rules.signatures rules.withoutExtras.signatures
    (List.forall₂_map_right_iff.2 (List.forall₂_same.2 fun signature _ => rfl))
  generalize RuleSet.winnerIn? size content rules.signatures = kept,
    RuleSet.winnerIn? size content rules.withoutExtras.signatures = other at hrel
  cases hrel with
  | none => rfl
  | some heq => rw [heq]; rfl

/-- What is reported of a winner: its line, the description with the text that was
    added, and the comment, which is one of the properties. -/
theorem report_eq_ok (winner : Signature) (evaluator : Evaluator) (added : Text)
    (result : Identification) (h : winner.report evaluator added = .ok result) :
    result.identified = true ∧ result.matchedLine = some winner.head.line
      ∧ result.description = winner.head.description ++ added
      ∧ result.commentProperty? = some result.comment := by
  unfold Signature.report at h
  cases hextraction : Extraction.ofDescription evaluator (winner.head.description ++ added) with
  | error error =>
      rw [hextraction] at h
      simp only [Except.map, reduceCtorEq] at h
  | ok extraction =>
      rw [hextraction] at h
      simp only [Except.map, Except.ok.injEq] at h
      subst h
      refine ⟨rfl, rfl, rfl, ?_⟩
      -- The comment is the last of the properties that are set.
      unfold Extraction.ofDescription at hextraction
      simp only at hextraction
      split at hextraction
      · exact absurd hextraction (by simp only [reduceCtorEq, not_false_eq_true])
      · rw [Except.ok.injEq] at hextraction
        subst hextraction
        simp only [Identification.commentProperty?, Identification.property?,
          PropertyMap.get?_insert, if_true]

section WellFormed

variable (rules : RuleSet) (hrules : rules.WellFormed)

include hrules

/-- An identification that succeeds reports the winner, or that there is none. -/
theorem identifyBytes_eq_ok (evaluator : Evaluator) (d : Array UInt8) (result : Identification)
    (h : rules.identifyBytes evaluator d = .ok result) :
    (RuleSet.winnerIn? d.size d.toList rules.signatures = none ∧ result = .unidentified)
    ∨ ∃ winner, RuleSet.winnerIn? d.size d.toList rules.signatures = some winner
      ∧ winner.report evaluator (Rule.contributionsIn d.size d.toList winner.extras)
        = .ok result := by
  rw [identifyBytes_eq_verdict rules evaluator hrules] at h
  unfold RuleSet.verdict at h
  split at h
  · rename_i hnone
    rw [Except.mapError, Except.ok.injEq] at h
    exact Or.inl ⟨hnone, h.symm⟩
  · rename_i winner hsome
    refine Or.inr ⟨winner, hsome, ?_⟩
    -- Only the report of a winner can still fail.
    cases hreport : winner.report evaluator
        (Rule.contributionsIn d.size d.toList winner.extras) with
    | error error =>
        rw [hreport] at h
        simp only [Except.mapError, reduceCtorEq] at h
    | ok other =>
        rw [hreport, Except.mapError, Except.ok.injEq] at h
        rw [h]

theorem consistent_of_identifyBytes (evaluator : Evaluator) (d : Array UInt8)
    (result : Identification) (h : rules.identifyBytes evaluator d = .ok result) :
    result.Consistent := by
  rcases identifyBytes_eq_ok rules hrules evaluator d result h with
    ⟨-, rfl⟩ | ⟨winner, -, hreport⟩
  · exact ⟨by decide, by decide, fun htrue => absurd htrue Bool.false_ne_true⟩
  · rcases report_eq_ok winner evaluator _ result hreport with ⟨htrue, hline, -, hcomment⟩
    exact ⟨by simp only [htrue, hline, Option.isSome_some],
      by simp only [htrue, hcomment, Option.isSome_some], fun _ => hcomment⟩

end WellFormed

/-- Extra-info lines never affect what is matched. With all of them commented out a
    database can still be read, and where identification succeeds under both databases,
    the results agree on whether the bytes are identified and by which line, and the
    description of the whole database begins with that of the other one. Both results
    are consistent. -/
theorem identification_without_extras (text bare : Text) (rules : RuleSet)
    (h : RuleSet.ofText text = .ok rules)
    (hbare : List.Forall₂ CommentsOut text.lines bare.lines) :
    ∃ fewer, RuleSet.ofText bare = .ok fewer
      ∧ ∀ (evaluator : Evaluator) (d : Array UInt8) (full reduced : Identification),
        rules.identifyBytes evaluator d = .ok full →
        fewer.identifyBytes evaluator d = .ok reduced →
        full.identified = reduced.identified ∧ full.matchedLine = reduced.matchedLine
          ∧ reduced.description <+: full.description ∧ full.Consistent ∧ reduced.Consistent := by
  have hfewer := ofText_of_commentsOut text bare rules h hbare
  have hrules := wellFormed_of_ofText text rules h
  have hreduced := wellFormed_of_ofText bare rules.withoutExtras hfewer
  refine ⟨rules.withoutExtras, hfewer, ?_⟩
  intro evaluator d full reduced hrun hrun'
  have hconsistent := consistent_of_identifyBytes rules hrules evaluator d full hrun
  have hconsistent' :=
    consistent_of_identifyBytes rules.withoutExtras hreduced evaluator d reduced hrun'
  have hsame := winnerIn?_withoutExtras rules d.size d.toList
  rcases identifyBytes_eq_ok rules hrules evaluator d full hrun with
    ⟨hwinner, rfl⟩ | ⟨winner, hwinner, hreport⟩
  · -- Without a winner, both results are the same.
    rw [hwinner, Option.map_none] at hsame
    rcases identifyBytes_eq_ok _ hreduced evaluator d reduced hrun' with
      ⟨-, rfl⟩ | ⟨other, hother, -⟩
    · exact ⟨rfl, rfl, List.prefix_rfl, hconsistent, hconsistent'⟩
    · rw [hsame] at hother
      exact absurd hother (by simp only [reduceCtorEq, not_false_eq_true])
  · rw [hwinner, Option.map_some] at hsame
    rcases identifyBytes_eq_ok _ hreduced evaluator d reduced hrun' with
      ⟨hother, -⟩ | ⟨other, hother, hreport'⟩
    · rw [hsame] at hother
      exact absurd hother (by simp only [reduceCtorEq, not_false_eq_true])
    · rw [hsame, Option.some.injEq] at hother
      subst hother
      rcases report_eq_ok winner evaluator _ full hreport with ⟨htrue, hline, htext, -⟩
      rcases report_eq_ok _ evaluator _ reduced hreport' with ⟨htrue', hline', htext', -⟩
      refine ⟨htrue.trans htrue'.symm, hline.trans hline'.symm, ?_, hconsistent, hconsistent'⟩
      -- No extra-info rule is left to add anything.
      rw [htext, htext']
      exact (List.prefix_append_right_inj winner.head.description).2 List.nil_prefix

/-- The small database with its extra-info line commented out. -/
def Database.sampleWithoutExtras : Text :=
  "# FILE_ID DB\n# Date:\n# Source:\n".toList ++ "0\tstring\tAB\tP [ext=ab]\n".toList
    ++ "&2\tbyte\t>0x10\n".toList ++ "#(3.b+1)\tstring\tx\t[chn=%.4s]".toList

/-- On bytes where the extra-info rule holds and adds a count of channels, the small
    database agrees on all the rest with the one in which that line is a comment. -/
theorem identification_without_sample_extras :
    ∃ fewer full reduced, RuleSet.ofText Database.sampleWithoutExtras = .ok fewer
      ∧ Database.sampleRules.identifyBytes .arithmetic #[65, 66, 32, 3, 49, 50, 0] = .ok full
      ∧ fewer.identifyBytes .arithmetic #[65, 66, 32, 3, 49, 50, 0] = .ok reduced
      ∧ full.matchedLine = reduced.matchedLine ∧ reduced.description <+: full.description
      ∧ full.description = "P [ext=ab][chn=12]".toList ∧ full.Consistent := by
  rcases identification_without_extras Database.sampleText Database.sampleWithoutExtras
    Database.sampleRules Database.ofText_sampleText (by decide) with ⟨fewer, hfewer, hsame⟩
  -- Reading the text in which the line is a comment gives the stripped rules.
  have hrules : fewer = Database.sampleRules.withoutExtras :=
    Except.ok.inj (hfewer.symm.trans rfl)
  subst hrules
  have hagree := hsame .arithmetic #[65, 66, 32, 3, 49, 50, 0] _ _ rfl rfl
  exact ⟨_, _, _, hfewer, rfl, rfl, hagree.2.1, hagree.2.2.1, rfl, hagree.2.2.2.1⟩

end FileSignatures
