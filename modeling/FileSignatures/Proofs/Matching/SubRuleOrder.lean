import FileSignatures.Proofs.Database.Continuation
import FileSignatures.Proofs.Database.Grouping
import FileSignatures.Proofs.Database.Renumbering
import FileSignatures.Proofs.Matching.Sources
import Mathlib.Data.List.Perm.Basic

/-!
# The order of sub-rules

The lines below a top-level line, up to the next one, may stand in any order, as long as
the extra-info lines among them stay in theirs. What a database identifies does not
depend on it (`identification_of_reordered`).

Two things have to come together. The reader gives the signature of the reordered lines
the same continuations in another order and the same extra-info rules, all with other
numbers (`exists_alike_block`), and the lines below go on being added to drafts that are
alike in this way (`alike_addLines`). Matching asks of the continuations whether all of
them hold and what they weigh together, neither of which depends on their order, and it
never asks for the number of a sub-rule; so signatures that are alike hold alike, are as
long, and are reported alike.

## Main definitions

* `Signature.Alike`: Signatures that differ in the order of continuations only.
* `Database.Draft.Alike`: Drafts whose signatures are alike.
* `Database.Opens`: A line that opens a signature.
* `Database.ReordersBlock`: Lines of which those below one top-level line are reordered.

## Theorems

* `exists_denotes_of_perm`: Reordered lines denote reordered rules.
* `exists_alike_block`: Reordered sub-rules make an alike signature.
* `alike_add?`, `alike_addAll?`, `alike_addLines`: Drafts that are alike stay alike.
* `exists_ofText_alike`: A reordered database is one, and its signatures are alike.
* `holdsIn_alike`, `length_alike`, `report_alike`: What is alike matches alike.
* `identification_of_reordered`: The order of sub-rules does not matter.
-/

namespace FileSignatures

/-- Signatures that differ, if at all, in the order of their continuations and in the
    numbers of their sub-rules. -/
structure Signature.Alike (first second : Signature) : Prop where
  head : second.head = first.head
  continuations : (second.continuations.map (Rule.atLine · 0)).Perm
    (first.continuations.map (Rule.atLine · 0))
  extras : second.extras.map (Rule.atLine · 0) = first.extras.map (Rule.atLine · 0)

namespace Database

/-- Drafts with the same number of signatures, each alike to the other one in its place. -/
structure Draft.Alike (first second : Draft) : Prop where
  finished : List.Forall₂ Signature.Alike first.finished.toList second.finished.toList
  current : Option.Rel Signature.Alike first.current second.current

/-- A line opens a signature if it is a rule line of the top level. -/
def Opens (line : Text) : Prop :=
  isRuleLine line = true ∧ lineKind line = .topLevel

instance (line : Text) : Decidable (Opens line) :=
  inferInstanceAs (Decidable (_ ∧ _))

/-- Lines of which those below one top-level line, behind the header and up to the next
    top-level line at most, have been reordered. The extra-info lines among them have kept
    their order. -/
inductive ReordersBlock : List Text → List Text → Prop
  | block (before after subs reordered : List Text) (opening : Text)
      (hheader : 3 ≤ before.length) (hopening : Opens opening)
      (hsubs : ∀ line ∈ subs, ¬ Opens line) (hperm : reordered.Perm subs)
      (hextras : reordered.filter (fun line => decide (line.head? = some '>'))
        = subs.filter fun line => decide (line.head? = some '>')) :
      ReordersBlock (before ++ opening :: (subs ++ after))
        (before ++ opening :: (reordered ++ after))

end Database

theorem alike_refl (signature : Signature) : signature.Alike signature :=
  ⟨rfl, List.Perm.refl _, rfl⟩

namespace Database

/-- The signatures of drafts that are alike are alike, the open one being the last. -/
theorem alike_signatures (first second : Draft) (h : first.Alike second) :
    List.Forall₂ Signature.Alike first.signatures second.signatures := by
  rcases first with ⟨finished, current⟩
  rcases second with ⟨finished', current'⟩
  refine List.rel_append h.finished ?_
  cases h.current with
  | none => exact .nil
  | some hopen => exact .cons hopen .nil

/-- A rule does the same to drafts that are alike. -/
theorem alike_add? (first second next : Draft) (kind : LineKind) (rule : Rule)
    (halike : first.Alike second) (h : first.add? kind rule = some next) :
    ∃ other, second.add? kind rule = some other ∧ next.Alike other := by
  rcases first with ⟨finished, current⟩
  rcases second with ⟨finished', current'⟩
  rcases halike with ⟨hfinished, hcurrent⟩
  simp only at hfinished hcurrent
  rcases add?_cases _ next kind rule h with ⟨rfl, rfl, rfl⟩ | ⟨done, rfl, rfl, rfl⟩
    | ⟨signature, rfl, rfl, rfl⟩ | ⟨signature, rfl, rfl, rfl⟩
  · cases hcurrent
    exact ⟨_, rfl, hfinished, .some (alike_refl _)⟩
  · -- The open signatures are finished on both sides, and the same one is opened.
    cases hcurrent with
    | some hdone =>
        refine ⟨_, rfl, ?_, .some (alike_refl _)⟩
        simp only [Array.toList_push]
        exact List.rel_append hfinished (.cons hdone .nil)
  · cases hcurrent with
    | some hopen =>
        refine ⟨_, rfl, hfinished, .some ⟨hopen.head, ?_, hopen.extras⟩⟩
        simp only [List.map_append]
        exact hopen.continuations.append_right _
  · cases hcurrent with
    | some hopen =>
        refine ⟨_, rfl, hfinished, .some ⟨hopen.head, hopen.continuations, ?_⟩⟩
        simp only [List.map_append, hopen.extras]

theorem alike_addAll? (entries : List (LineKind × Rule)) (first second next : Draft)
    (halike : first.Alike second) (h : first.addAll? entries = some next) :
    ∃ other, second.addAll? entries = some other ∧ next.Alike other := by
  -- Each rule leaves two other drafts to the next one, so both drafts are arbitrary.
  induction entries generalizing first second with
  | nil =>
      rw [Draft.addAll?, Option.some.injEq] at h
      subst h
      exact ⟨second, rfl, halike⟩
  | cons entry rest ih =>
      rcases entry with ⟨kind, rule⟩
      rw [Draft.addAll?, Option.bind_eq_some_iff] at h
      rcases h with ⟨added, hadd, hrest⟩
      rcases alike_add? first second added kind rule halike hadd with ⟨added', hadd', halike'⟩
      rcases ih added added' halike' hrest with ⟨other, hother, hresult⟩
      refine ⟨other, ?_, hresult⟩
      rw [Draft.addAll?, hadd', Option.bind_some, hother]

/-- Lines that denote the same rules do the same to drafts that are alike. -/
theorem alike_addLines (lines : List Text) (number : Nat) (first second next : Draft)
    (halike : first.Alike second) (h : addLines first number lines = .ok next) :
    ∃ other, addLines second number lines = .ok other ∧ next.Alike other := by
  rcases (addLines_eq_ok_iff lines number first next).1 h with ⟨entries, hdenotes, hadded⟩
  rcases alike_addAll? entries first second next halike hadded with ⟨other, hother, hresult⟩
  exact ⟨other, (addLines_eq_ok_iff lines number second other).2 ⟨entries, hdenotes, hother⟩,
    hresult⟩

/-- Reordered lines denote the same rules in another order, apart from the numbers. -/
theorem exists_denotes_of_perm (number : Nat) (lines reordered : List Text)
    (entries : List (LineKind × Rule)) (hperm : reordered.Perm lines)
    (h : List.Forall₂ Denotes (ruleLinesFrom number lines) entries) :
    ∃ others, List.Forall₂ Denotes (ruleLinesFrom number reordered) others
      ∧ (others.map unnumbered).Perm (entries.map unnumbered) := by
  have hsaid := says_of_denotes number lines entries h
  rcases List.perm_comp_forall₂ (hperm.filter isRuleLine) hsaid with ⟨plain, hplain, hmoved⟩
  rcases exists_denotes number reordered plain hplain with ⟨others, hothers, rfl⟩
  exact ⟨others, hothers, hmoved⟩

/-- The extra-info lines denote the extra-info rules, apart from the numbers. -/
theorem says_filter_extraInfo (number : Nat) (lines : List Text)
    (entries : List (LineKind × Rule))
    (h : List.Forall₂ Denotes (ruleLinesFrom number lines) entries) :
    List.Forall₂ Says
      ((lines.filter fun line => decide (line.head? = some '>')).filter isRuleLine)
      ((entries.map unnumbered).filter fun entry => decide (entry.1 = .extraInfo)) := by
  rw [List.filter_comm]
  refine List.rel_filter ?_ (says_of_denotes number lines entries h)
  -- The first character of a line decides about both, the line and its rule.
  intro line entry hentry
  have hkind := (kind_and_line_of_ruleOf 0 line entry.1 entry.2 hentry).1
  simp only [hkind, lineKind_eq_extraInfo_iff]

/-- Lines that open nothing denote sub-rules. -/
theorem kind_of_subs (number : Nat) (subs : List Text) (entries : List (LineKind × Rule))
    (hsubs : ∀ line ∈ subs, ¬ Opens line)
    (h : List.Forall₂ Denotes (ruleLinesFrom number subs) entries) :
    ∀ entry ∈ entries, entry.1 ≠ .topLevel := by
  intro entry hentry htop
  rcases exists_line_of_entry _ entries h entry.1 entry.2 hentry with ⟨line, hline, hkind, -⟩
  have hmem := List.mem_map_of_mem (f := Prod.fst) hline
  rw [map_fst_ruleLinesFrom] at hmem
  rcases List.mem_filter.1 hmem with ⟨hmem, hrule⟩
  exact hsubs line hmem ⟨hrule, hkind.trans htop⟩

/-- The rules of a kind, without numbers, are picked from all of them without numbers. -/
theorem map_snd_filter_unnumbered (entries : List (LineKind × Rule)) (p : LineKind → Bool) :
    ((entries.filter fun entry => p entry.1).map Prod.snd).map (Rule.atLine · 0)
      = ((entries.map unnumbered).filter fun entry => p entry.1).map Prod.snd := by
  rw [List.filter_map, List.map_map, List.map_map]
  rfl

/-- Of sub-rules, those that are no continuations are the extra-info rules. -/
theorem filter_not_continuation (entries : List (LineKind × Rule))
    (h : ∀ entry ∈ entries, entry.1 ≠ .topLevel) :
    entries.filter (fun entry => !decide (entry.1 = .continuation))
      = entries.filter fun entry => decide (entry.1 = .extraInfo) := by
  refine List.filter_congr ?_
  intro entry hentry
  have htop := h entry hentry
  generalize entry.1 = kind at htop ⊢
  cases kind with
  | topLevel => exact absurd rfl htop
  | continuation => rfl
  | extraInfo => rfl

/-- Sub-rules whose lines are reordered, the extra-info lines keeping their order, make a
    signature alike. -/
theorem exists_alike_block (finished : Array Signature) (signature : Signature) (number : Nat)
    (subs reordered : List Text) (next : Draft) (hsubs : ∀ line ∈ subs, ¬ Opens line)
    (hperm : reordered.Perm subs)
    (hextras : reordered.filter (fun line => decide (line.head? = some '>'))
      = subs.filter fun line => decide (line.head? = some '>'))
    (h : addLines ⟨finished, some signature⟩ number subs = .ok next) :
    ∃ other, addLines ⟨finished, some signature⟩ number reordered = .ok other
      ∧ next.Alike other := by
  rcases (addLines_eq_ok_iff subs number _ next).1 h with ⟨entries, hdenotes, hadded⟩
  rcases exists_denotes_of_perm number subs reordered entries hperm hdenotes with
    ⟨others, hothers, hmoved⟩
  have hsubs' : ∀ line ∈ reordered, ¬ Opens line := by
    intro line hline
    exact hsubs line (hperm.mem_iff.1 hline)
  have hkind := kind_of_subs number subs entries hsubs hdenotes
  have hkind' := kind_of_subs number reordered others hsubs' hothers
  -- The extra-info lines are the same, so they say the same.
  have hsaid := says_filter_extraInfo number subs entries hdenotes
  have hsaid' := says_filter_extraInfo number reordered others hothers
  rw [hextras] at hsaid'
  have hsame := List.right_unique_forall₂' says_rightUnique hsaid' hsaid
  rw [addAll?_subRules finished signature entries hkind, Option.some.injEq] at hadded
  refine ⟨_, (addLines_eq_ok_iff reordered number _ _).2 ⟨others, hothers,
    addAll?_subRules finished signature others hkind'⟩, ?_⟩
  subst hadded
  refine ⟨List.forall₂_same.2 fun done _ => alike_refl done, .some ⟨rfl, ?_, ?_⟩⟩
  · -- The continuations are picked from a permutation, so they are permuted themselves.
    simp only [List.map_append]
    rw [map_snd_filter_unnumbered others fun kind => decide (kind = .continuation),
      map_snd_filter_unnumbered entries fun kind => decide (kind = .continuation)]
    exact ((hmoved.filter _).map Prod.snd).append_left _
  · simp only [List.map_append, filter_not_continuation entries hkind,
      filter_not_continuation others hkind']
    rw [map_snd_filter_unnumbered others fun kind => decide (kind = .extraInfo),
      map_snd_filter_unnumbered entries fun kind => decide (kind = .extraInfo), hsame]

theorem addLines_cons_eq_ok_iff (draft next : Draft) (number : Nat) (line : Text)
    (rest : List Text) : addLines draft number (line :: rest) = .ok next ↔
      ∃ added, addLine draft number line = .ok added
        ∧ addLines added (number + 1) rest = .ok next := by
  rw [addLines]
  cases addLine draft number line with
  | error error => simp only [reduceCtorEq, false_and, exists_false]
  | ok added => simp only [Except.ok.injEq, exists_eq_left']

theorem addLines_append_eq_ok_iff (draft next : Draft) (number : Nat) (first second : List Text) :
    addLines draft number (first ++ second) = .ok next ↔
      ∃ added, addLines draft number first = .ok added
        ∧ addLines added (number + first.length) second = .ok next := by
  rw [addLines_append]
  cases addLines draft number first with
  | error error => simp only [Except.bind, reduceCtorEq, false_and, exists_false]
  | ok added => simp only [Except.bind, Except.ok.injEq, exists_eq_left']

/-- A line that opens a signature leaves it open. -/
theorem exists_current_of_opens (draft next : Draft) (number : Nat) (line : Text)
    (hline : Opens line) (h : addLine draft number line = .ok next) :
    ∃ finished signature, next = ⟨finished, some signature⟩ := by
  rcases (addLine_eq_ok_iff draft next number line hline.1).1 h with ⟨entry, hentry, hadd⟩
  have hkind := (kind_and_line_of_ruleOf number line entry.1 entry.2 hentry).1
  rw [hkind, hline.2] at hadd
  rcases add?_cases draft next .topLevel entry.2 hadd with ⟨-, -, rfl⟩ | ⟨done, -, -, rfl⟩
    | ⟨_, hother, -⟩ | ⟨_, hother, -⟩
  · exact ⟨_, _, rfl⟩
  · exact ⟨_, _, rfl⟩
  · exact LineKind.noConfusion hother
  · exact LineKind.noConfusion hother

end Database

open Database

/-- A database with reordered sub-rules is one, and its signatures are alike. -/
theorem exists_ofText_alike (text reordered : Text) (rules : RuleSet)
    (h : RuleSet.ofText text = .ok rules) (hblock : ReordersBlock text.lines reordered.lines) :
    ∃ others, RuleSet.ofText reordered = .ok others
      ∧ List.Forall₂ Signature.Alike rules.signatures others.signatures := by
  rcases (ofText_eq_ok_iff_exists_draft text rules).1 h with ⟨lines, draft, hlines, hdraft, rfl⟩
  -- From here on only the lines of both texts matter.
  generalize text.lines = all, hchanged : reordered.lines = changed at hlines hblock
  rcases hblock with ⟨before, after, subs, moved, opening, hheader, hopening, hsubs, hperm,
    hextras⟩
  rw [checkHeaders_append _ _ hheader] at hlines
  cases hfront : checkHeaders before with
  | error error =>
      rw [hfront] at hlines
      exact absurd hlines (by simp only [Except.map, reduceCtorEq, not_false_eq_true])
  | ok front =>
      rw [hfront, Except.map, Except.ok.injEq] at hlines
      subst hlines
      -- The lines are read in four stretches: before, the opening line, the block, after.
      rcases (addLines_append_eq_ok_iff _ _ _ _ _).1 hdraft with ⟨first, hfirst, hdraft⟩
      rcases (addLines_cons_eq_ok_iff _ _ _ _ _).1 hdraft with ⟨second, hsecond, hdraft⟩
      rcases (addLines_append_eq_ok_iff _ _ _ _ _).1 hdraft with ⟨third, hthird, hfourth⟩
      rcases exists_current_of_opens first second _ opening hopening hsecond with
        ⟨finished, signature, rfl⟩
      rcases exists_alike_block finished signature _ subs moved third hsubs hperm hextras hthird
        with ⟨third', hthird', halike⟩
      rcases alike_addLines after _ third third' draft halike hfourth with
        ⟨draft', hfourth', halike'⟩
      refine ⟨⟨draft'.signatures⟩, ?_, alike_signatures draft draft' halike'⟩
      refine (ofText_eq_ok_iff_exists_draft reordered _).2 ⟨front ++ opening :: (moved ++ after),
        draft', ?_, ?_, rfl⟩
      · rw [hchanged, checkHeaders_append _ _ hheader, hfront]
        rfl
      · refine (addLines_append_eq_ok_iff _ _ _ _ _).2 ⟨first, hfirst, ?_⟩
        refine (addLines_cons_eq_ok_iff _ _ _ _ _).2 ⟨_, hsecond, ?_⟩
        refine (addLines_append_eq_ok_iff _ _ _ _ _).2 ⟨third', hthird', ?_⟩
        -- The block has as many lines as before, so the numbers go on in the same way.
        rw [hperm.length_eq]
        exact hfourth'

section Matching

variable (first second : Signature) (h : first.Alike second)

include h

/-- Whether all continuations hold does not depend on their order, and whether one of them
    holds does not depend on its number. -/
theorem holdsIn_alike (size : Nat) (content : List UInt8) :
    first.holdsIn size content = second.holdsIn size content := by
  have hnumber : ∀ rules : List Rule,
      rules.all (fun rule => (rule.valueIn? size content).isSome)
        = (rules.map (Rule.atLine · 0)).all fun rule => (rule.valueIn? size content).isSome := by
    intro rules
    rw [List.all_map]
    rfl
  unfold Signature.holdsIn
  rw [List.all_cons, List.all_cons, h.head, hnumber first.continuations,
    hnumber second.continuations, h.continuations.all_eq]

theorem length_alike : first.length = second.length := by
  have hnumber : ∀ rules : List Rule,
      rules.map Rule.weight = (rules.map (Rule.atLine · 0)).map Rule.weight := by
    intro rules
    rw [List.map_map]
    rfl
  rw [signature_length_eq, signature_length_eq, h.head, hnumber first.continuations,
    hnumber second.continuations, (h.continuations.map Rule.weight).sum_nat]

/-- The extra-info rules, which are in their order, add the same text, and all the rest of
    a report comes from the head. -/
theorem report_alike (evaluator : Evaluator) (size : Nat) (content : List UInt8) :
    first.report evaluator (Rule.contributionsIn size content first.extras)
      = second.report evaluator (Rule.contributionsIn size content second.extras) := by
  have hnumber : ∀ rules : List Rule, Rule.contributionsIn size content rules
      = Rule.contributionsIn size content (rules.map (Rule.atLine · 0)) := by
    intro rules
    unfold Rule.contributionsIn
    rw [List.flatMap_map]
    rfl
  unfold Signature.report
  rw [h.head, hnumber first.extras, hnumber second.extras, h.extras]

end Matching

/-- Signatures that are alike, one by one, come to the same verdict. -/
theorem verdict_alike (rules others : RuleSet) (evaluator : Evaluator) (size : Nat)
    (content : List UInt8) (h : List.Forall₂ Signature.Alike rules.signatures others.signatures) :
    others.verdict evaluator size content = rules.verdict evaluator size content := by
  have hwinners := rel_winnerIn? Signature.Alike size content
    (fun a b hab => holdsIn_alike a b hab size content) length_alike _ _ h
  -- Either both databases have a winner, and these are alike, or neither has one.
  unfold RuleSet.verdict
  generalize RuleSet.winnerIn? size content rules.signatures = winner,
    RuleSet.winnerIn? size content others.signatures = winner' at hwinners
  cases hwinners with
  | none => rfl
  | some halike => exact (report_alike _ _ halike evaluator size content).symm

/-- The order of the lines below a top-level line does not matter, but for that of the
    extra-info lines among themselves. A database in which these lines are reordered
    still is a database, and identifies all bytes alike, or fails on them alike. -/
theorem identification_of_reordered (text reordered : Text) (rules : RuleSet)
    (h : RuleSet.ofText text = .ok rules) (hblock : ReordersBlock text.lines reordered.lines) :
    ∃ others, RuleSet.ofText reordered = .ok others
      ∧ ∀ (evaluator : Evaluator) (d : Array UInt8),
        others.identifyBytes evaluator d = rules.identifyBytes evaluator d := by
  rcases exists_ofText_alike text reordered rules h hblock with ⟨others, hothers, halike⟩
  refine ⟨others, hothers, ?_⟩
  intro evaluator d
  rw [identifyBytes_eq_verdict others evaluator (wellFormed_of_ofText reordered others hothers),
    identifyBytes_eq_verdict rules evaluator (wellFormed_of_ofText text rules h),
    verdict_alike rules others evaluator _ _ halike]

namespace Database

/-- A database with a block of two continuations and two extra-info rules, a comment among
    them, in front of a top-level rule without any. -/
def blockText : Text :=
  "# FILE_ID DB\n# Date:\n# Source:\n0\tstring\tAB\tP\n&(2.b)\tstring\t>A\t[t=%.2s]\n".toList
    ++ ">2\tbyte\tx\t[v=%d]\n# note\n&2\tbyte\t>0\n>(2.b)\tstring\tx\t[w=%.2s]\n".toList
    ++ "0\tbyte\t65\tQ\n".toList

/-- The rules of that database. -/
def blockRules : RuleSet where
  signatures := [{
    head := ⟨4, .direct 0, .string, Value.fullMask, .equal, .bytes [65, 66], ['P'], none, 2⟩
    continuations := [
      ⟨5, .indirect ⟨2, .byte, 0⟩, .string, Value.fullMask, .greater, .bytes [65],
        "[t=%.2s]".toList, some 2, 1⟩,
      ⟨8, .direct 2, .byte, Value.fullMask, .greater, .number 0, [], none, 1⟩]
    extras := [
      ⟨6, .direct 2, .byte, Value.fullMask, .any, .number 0, "[v=%d]".toList, none, 1⟩,
      ⟨9, .indirect ⟨2, .byte, 0⟩, .string, Value.fullMask, .any,
        .bytes (List.replicate Template.defaultCapture 0), "[w=%.2s]".toList, some 2, 0⟩] }, {
    head := ⟨10, .direct 0, .byte, Value.fullMask, .equal, .number 65, ['Q'], none, 1⟩
    continuations := []
    extras := [] }]

/-- The same database with the continuations exchanged and put behind the extra-info rules. -/
def reorderedText : Text :=
  "# FILE_ID DB\n# Date:\n# Source:\n0\tstring\tAB\tP\n>2\tbyte\tx\t[v=%d]\n".toList
    ++ ">(2.b)\tstring\tx\t[w=%.2s]\n&2\tbyte\t>0\n# note\n".toList
    ++ "&(2.b)\tstring\t>A\t[t=%.2s]\n0\tbyte\t65\tQ\n".toList

theorem reordersBlock_blockText : ReordersBlock blockText.lines reorderedText.lines := by
  have hlines : blockText.lines = blockText.lines.take 3 ++ "0\tstring\tAB\tP".toList
      :: ((blockText.lines.drop 4).take 5 ++ ["0\tbyte\t65\tQ".toList]) := by decide
  have hlines' : reorderedText.lines = blockText.lines.take 3 ++ "0\tstring\tAB\tP".toList
      :: ((reorderedText.lines.drop 4).take 5 ++ ["0\tbyte\t65\tQ".toList]) := by decide
  rw [hlines, hlines']
  exact .block _ _ _ _ _ (by decide) (by decide) (by decide) (by decide) (by decide)

end Database

/-- In both orders the block makes one signature, which wins with the text of its
    extra-info rules in their order. Where a continuation leads out of the bytes, the other
    signature wins, whose line has the same number both times. -/
theorem identification_of_reorderedText :
    RuleSet.ofText blockText = .ok blockRules ∧ ReordersBlock blockText.lines reorderedText.lines
      ∧ ∃ others, RuleSet.ofText reorderedText = .ok others
        ∧ (others.identifyBytes .arithmetic #[65, 66, 3, 67, 68, 0]).toOption.map
            (fun result => (result.matchedLine, result.description))
          = some (some 4, "P[v=3][w=CD]".toList)
        ∧ (others.identifyBytes .arithmetic #[65, 66, 9]).toOption.map
            (fun result => (result.matchedLine, result.description))
          = some (some 10, ['Q']) := by
  rcases identification_of_reordered blockText reorderedText blockRules rfl
    reordersBlock_blockText with ⟨others, hothers, hsame⟩
  refine ⟨rfl, reordersBlock_blockText, others, hothers, ?_, ?_⟩
  · rw [hsame]
    decide +kernel
  · rw [hsame]
    decide +kernel

end FileSignatures
