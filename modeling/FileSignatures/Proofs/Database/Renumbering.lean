import FileSignatures.Proofs.Database.ReadingOrder
import Mathlib.Data.Set.Monotone

/-!
# Rules apart from their numbers

A line denotes the same rule wherever it stands, except that the rule bears the number
of the line (`ruleOf_atLine`). So what a database denotes has two parts: what its rule
lines say, which has nothing to do with where they stand, and the numbers that they
happen to have.

`Database.Says` is the first part. What some rule lines denote they say as well, with
the numbers forgotten (`says_of_denotes`), and whatever lines say, they denote it under
the numbers they have (`exists_denotes`). Two databases that say the same denote rule
sets that differ in the numbers only, and since both are numbered downwards, one
strictly increasing renumbering takes the first to the second (`exists_renumbering`).

## Main definitions

* `Rule.atLine`, `Rule.renumber`: A rule with another number.
* `Signature.renumber`, `RuleSet.renumber`: The same for all rules.
* `Database.numbersOf`, `RuleSet.lineNumbers`: The numbers that occur.
* `Database.Says`: A line says a rule, which then has no number.

## Theorems

* `ruleOf_atLine`: A line denotes the same rule under every number.
* `map_fst_ruleLinesFrom`: The rule lines themselves do not depend on the numbering.
* `says_of_denotes`, `exists_denotes`: What lines denote is what they say.
* `entries_renumber`: A renumbering that keeps the order keeps the reading order.
* `exists_renumbering`: What two databases say alike is a renumbering.
* `exists_ofText_of_says`: A text that says what a database says is one, renumbered.
-/

namespace FileSignatures

/-- A rule, as if it stood on another line. -/
def Rule.atLine (rule : Rule) (line : Nat) : Rule :=
  { rule with line }

/-- A rule with its number replaced by what `number` assigns to it. -/
def Rule.renumber (number : Nat → Nat) (rule : Rule) : Rule :=
  rule.atLine (number rule.line)

/-- A signature with the numbers of all its rules replaced. -/
def Signature.renumber (number : Nat → Nat) (signature : Signature) : Signature where
  head := signature.head.renumber number
  continuations := signature.continuations.map (Rule.renumber number)
  extras := signature.extras.map (Rule.renumber number)

namespace RuleSet

/-- A rule set with the numbers of all its rules replaced. -/
def renumber (rules : RuleSet) (number : Nat → Nat) : RuleSet :=
  ⟨rules.signatures.map (Signature.renumber number)⟩

end RuleSet

namespace Database

/-- The numbers of the lines that some rules stand on. -/
def numbersOf (entries : List (LineKind × Rule)) : Set Nat :=
  {line | ∃ entry ∈ entries, entry.2.line = line}

/-- A rule with its kind, its number replaced. -/
def renumberEntry (number : Nat → Nat) (entry : LineKind × Rule) : LineKind × Rule :=
  (entry.1, entry.2.renumber number)

/-- A rule with its kind, its number forgotten. -/
def unnumbered : LineKind × Rule → LineKind × Rule :=
  renumberEntry fun _ => 0

/-- A line says a rule of a kind, wherever it stands. The rule is without a number,
    for which zero stands, as no line has it. -/
def Says (line : Text) (entry : LineKind × Rule) : Prop :=
  ruleOf 0 line = .ok entry

end Database

/-- The numbers of the lines that the rules of a rule set stand on. -/
def RuleSet.lineNumbers (rules : RuleSet) : Set Nat :=
  Database.numbersOf rules.entries

namespace Database

theorem numbersOf_cons (entry : LineKind × Rule) (rest : List (LineKind × Rule)) :
    numbersOf (entry :: rest) = insert entry.2.line (numbersOf rest) := by
  ext line
  simp only [numbersOf, Set.mem_ofPred_eq, List.exists_mem_cons_iff, Set.mem_insert_iff, eq_comm]

/-- A line denotes the same rule under every number. -/
theorem ruleOf_atLine (number other : Nat) (line : Text) (entry : LineKind × Rule)
    (h : ruleOf number line = .ok entry) :
    ruleOf other line = .ok (entry.1, entry.2.atLine other) := by
  rcases (ruleOf_eq_ok_iff number line entry.1 entry.2).1 h with
    ⟨offset, type, comparison, more, hfields, hkind, hrule⟩
  rcases (ruleOfFields_eq_ok_iff _ _ _ _ _ _).1 hrule with
    ⟨hoffset, htype, hcompared, hcapture, -, hdescription⟩
  -- The number is a part of the rule that comes from no field.
  exact (ruleOf_eq_ok_iff other line entry.1 _).2 ⟨offset, type, comparison, more, hfields, hkind,
    (ruleOfFields_eq_ok_iff _ _ _ _ _ _).2
      ⟨hoffset, htype, hcompared, hcapture, rfl, hdescription⟩⟩

theorem says_rightUnique : Relator.RightUnique Says := by
  intro line first second hfirst hsecond
  exact Except.ok.inj (hfirst.symm.trans hsecond)

/-- The rule lines are the same whatever number the first line has. -/
theorem map_fst_ruleLinesFrom (number : Nat) (lines : List Text) :
    (ruleLinesFrom number lines).map Prod.fst = lines.filter isRuleLine := by
  induction lines generalizing number with
  | nil => rfl
  | cons line rest ih =>
      by_cases hline : isRuleLine line = true
      · rw [ruleLinesFrom_cons number line rest hline, List.map_cons, ih,
          List.filter_cons_of_pos hline]
      · rw [ruleLinesFrom_skip number line rest hline, ih, List.filter_cons_of_neg hline]

/-- What rule lines denote they say, the numbers forgotten. -/
theorem says_of_denotes (number : Nat) (lines : List Text) (entries : List (LineKind × Rule))
    (h : List.Forall₂ Denotes (ruleLinesFrom number lines) entries) :
    List.Forall₂ Says (lines.filter isRuleLine) (entries.map unnumbered) := by
  rw [← map_fst_ruleLinesFrom number lines, List.forall₂_map_left_iff,
    List.forall₂_map_right_iff]
  exact h.imp fun line entry hentry => ruleOf_atLine line.2 0 line.1 entry hentry

/-- What rule lines say they denote, under the numbers that they have. -/
theorem exists_denotes (number : Nat) (lines : List Text) (plain : List (LineKind × Rule))
    (h : List.Forall₂ Says (lines.filter isRuleLine) plain) :
    ∃ entries, List.Forall₂ Denotes (ruleLinesFrom number lines) entries
      ∧ entries.map unnumbered = plain := by
  rw [← map_fst_ruleLinesFrom number lines, List.forall₂_map_left_iff] at h
  -- From here on it does not matter where the numbers come from.
  generalize ruleLinesFrom number lines = numbered at h ⊢
  induction h with
  | nil => exact ⟨[], .nil, rfl⟩
  | @cons line entry _ _ hentry _ ih =>
      rcases ih with ⟨entries, hdenotes, hplain⟩
      refine ⟨(entry.1, entry.2.atLine line.2) :: entries,
        .cons (ruleOf_atLine 0 line.2 line.1 entry hentry) hdenotes, ?_⟩
      -- What a line says has the number zero already.
      have hzero := (kind_and_line_of_ruleOf 0 line.1 entry.1 entry.2 hentry).2
      have hsame : unnumbered (entry.1, entry.2.atLine line.2) = entry := by
        rcases entry with ⟨kind, rule⟩
        simp only at hzero
        simp only [unnumbered, renumberEntry, Rule.renumber, Rule.atLine, ← hzero]
      rw [List.map_cons, hsame, hplain]

theorem subRules_renumber (signature : Signature) (number : Nat → Nat)
    (h : StrictMonoOn number (numbersOf signature.subRules)) :
    (signature.renumber number).subRules = signature.subRules.map (renumberEntry number) := by
  have htag : ∀ (rules : List Rule) (kind : LineKind),
      (rules.map (Rule.renumber number)).map (fun rule => (kind, rule))
        = (rules.map fun rule => (kind, rule)).map (renumberEntry number) := by
    intro rules kind
    rw [List.map_map, List.map_map]
    rfl
  simp only [Signature.subRules, Signature.renumber, htag]
  refine (List.map_merge fun a ha b hb => ?_).symm
  -- The merge compares numbers, and these compare as they did.
  have hcompare := h.le_iff_le ⟨a, List.mem_merge.2 (Or.inl ha), rfl⟩
    ⟨b, List.mem_merge.2 (Or.inr hb), rfl⟩
  simp only [renumberEntry, Rule.renumber, Rule.atLine, hcompare]

/-- A renumbering that keeps the order of the numbers keeps the reading order. -/
theorem entries_renumber (rules : RuleSet) (number : Nat → Nat)
    (h : StrictMonoOn number rules.lineNumbers) :
    (rules.renumber number).entries = rules.entries.map (renumberEntry number) := by
  unfold RuleSet.entries RuleSet.renumber
  rw [List.flatMap_map, List.map_flatMap]
  refine List.flatMap_congr fun signature hsignature => ?_
  have hoccurs : numbersOf signature.subRules ⊆ rules.lineNumbers := by
    rintro line ⟨entry, hentry, hline⟩
    exact ⟨entry, List.mem_flatMap.2 ⟨signature, hsignature, List.mem_cons_of_mem _ hentry⟩,
      hline⟩
  rw [Signature.entries, subRules_renumber signature number (h.mono hoccurs)]
  rfl

/-- What is the same but for the number is the same rule on another line. -/
theorem eq_atLine_of_unnumbered (entry other : LineKind × Rule)
    (h : unnumbered other = unnumbered entry) :
    other = (entry.1, entry.2.atLine other.2.line) := by
  rcases entry with ⟨kind, rule⟩
  rcases other with ⟨kind', rule'⟩
  simp only [unnumbered, renumberEntry, Rule.renumber, Rule.atLine, Prod.mk.injEq,
    Rule.mk.injEq, true_and] at h
  rcases rule' with ⟨line, offset, type, mask, operator, operand, description, capture, weight⟩
  simp only at h
  rcases h with ⟨rfl, rfl, rfl, rfl, rfl, rfl, rfl, rfl, rfl⟩
  rfl

/-- A new number for a rule in front does not touch those of the rules behind it. -/
theorem update_of_later (entry later : LineKind × Rule) (number : Nat → Nat) (line : Nat)
    (h : entry.2.line < later.2.line) :
    Function.update number entry.2.line line later.2.line = number later.2.line :=
  Function.update_of_ne (Nat.ne_of_gt h) _ _

/-- A renumbering that keeps the order still does with a new number for a rule in front,
    which has to be below all the other ones. -/
theorem strictMonoOn_update (entry : LineKind × Rule) (rest : List (LineKind × Rule))
    (number : Nat → Nat) (line : Nat) (hmono : StrictMonoOn number (numbersOf rest))
    (hfront : ∀ later ∈ rest, entry.2.line < later.2.line)
    (hbelow : ∀ later ∈ rest, line < number later.2.line) :
    StrictMonoOn (Function.update number entry.2.line line) (numbersOf (entry :: rest)) := by
  -- The rules behind have other numbers, so nothing changes for them.
  have hkept : Set.EqOn number (Function.update number entry.2.line line) (numbersOf rest) := by
    rintro _ ⟨later, hmem, rfl⟩
    exact (update_of_later entry later number line (hfront later hmem)).symm
  rw [numbersOf_cons, strictMonoOn_insert_iff_of_forall_ge]
  · refine ⟨?_, hmono.congr hkept⟩
    rintro _ ⟨later, hmem, rfl⟩ -
    rw [update_of_later entry later number line (hfront later hmem), Function.update_self]
    exact hbelow later hmem
  · rintro _ ⟨later, hmem, rfl⟩
    exact Nat.le_of_lt (hfront later hmem)

/-- Rules that are the same but for their numbers, and are numbered downwards twice, are
    renumbered by one function that keeps the order. -/
theorem exists_renumbering (entries others : List (LineKind × Rule))
    (hsame : others.map unnumbered = entries.map unnumbered)
    (hincreasing : entries.Pairwise fun a b => a.2.line < b.2.line)
    (hincreasing' : others.Pairwise fun a b => a.2.line < b.2.line) :
    ∃ number, StrictMonoOn number (numbersOf entries)
      ∧ others = entries.map (renumberEntry number) := by
  induction entries generalizing others with
  | nil =>
      rw [List.map_nil, List.map_eq_nil_iff] at hsame
      refine ⟨id, ?_, hsame⟩
      rintro _ ⟨entry, hentry, -⟩
      exact absurd hentry List.not_mem_nil
  | cons entry rest ih =>
      cases others with
      | nil => exact absurd hsame.symm (List.cons_ne_nil _ _)
      | cons other otherRest =>
          rw [List.map_cons, List.map_cons, List.cons.injEq] at hsame
          rcases List.pairwise_cons.1 hincreasing with ⟨hfront, hrest⟩
          rcases List.pairwise_cons.1 hincreasing' with ⟨hfront', hrest'⟩
          rcases ih otherRest hsame.2 hrest hrest' with ⟨number, hmono, hothers⟩
          -- The first rule gets its own new number, and the later ones, whose numbers are
          -- all greater, those that they get by themselves.
          refine ⟨Function.update number entry.2.line other.2.line, ?_, ?_⟩
          · refine strictMonoOn_update entry rest number _ hmono hfront ?_
            intro later hmem
            rw [hothers] at hfront'
            exact hfront' _ (List.mem_map_of_mem hmem)
          · have hhead : renumberEntry (Function.update number entry.2.line other.2.line) entry
                = other := by
              rw [eq_atLine_of_unnumbered entry other hsame.1]
              simp only [renumberEntry, Rule.renumber, Function.update_self]
              rfl
            rw [List.map_cons, hhead, hothers]
            refine congrArg (other :: ·) (List.map_congr_left ?_)
            intro later hmem
            simp only [renumberEntry, Rule.renumber,
              update_of_later entry later number _ (hfront later hmem)]

end Database

open Database

/-- Whatever has a header and says what a database says is a database as well, and its
    rules are those of the other one under numbers in the same order. -/
theorem exists_ofText_of_says (text other : Text) (rules : RuleSet)
    (h : RuleSet.ofText text = .ok rules) (hheader : HasHeader other)
    (hsaid : List.Forall₂ Says ((other.lines.drop 3).filter isRuleLine)
      (rules.entries.map unnumbered)) :
    ∃ number, StrictMonoOn number rules.lineNumbers
      ∧ RuleSet.ofText other = .ok (rules.renumber number) := by
  have hdenotes := ((ofText_eq_ok_iff text rules).1 h).2
  -- The lines of the other text denote the same rules under their own numbers.
  rcases exists_denotes 4 _ _ hsaid with ⟨others, hothers, hplain⟩
  rcases exists_renumbering rules.entries others hplain
    (increasing_of_forall₂_denotes 4 _ _ hdenotes)
    (increasing_of_forall₂_denotes 4 _ _ hothers) with ⟨number, hmono, rfl⟩
  refine ⟨number, hmono, (ofText_eq_ok_iff other _).2 ⟨hheader, ?_⟩⟩
  rw [entries_renumber rules number hmono]
  exact hothers

end FileSignatures
