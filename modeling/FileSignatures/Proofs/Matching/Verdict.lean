import FileSignatures.Proofs.Matching.Holding
import FileSignatures.Proofs.Matching.Sources

/-!
# What identification says

The identification of some bytes as a relation between a rule set, an evaluator,
the bytes and the outcome. It mentions no source, no order of reads and no scan:
a signature is a candidate if its head and its continuations hold, the winner is
the first of the longest candidates, and every extra-info rule of the winner that
holds adds its text.

The scan keeps the best candidate so far and replaces it by a longer one only.
What it has kept at the end is described by where it stands in the list: the
candidates before it are shorter, those after it are not longer. This determines
it, so the scan finds the winner and nothing else.

## Main definitions

* `Signature.Candidate`: The head of a signature and all continuations hold.
* `Signature.FirstLongest`: The first of the longest signatures with a property.
* `Signature.Keeps`: What a scan has kept when it is through.
* `Contributes`: The text that a list of extra-info rules adds.
* `RuleSet.Identifies`: The outcome of an identification.

## Theorems

* `firstLongest_unique`: There is at most one first longest signature.
* `foldl_better_keeps`: What a scan keeps.
* `winnerIn?_eq_some_iff`: The scan finds the first longest candidate.
* `contributes_iff`: Extra-info rules add what is computed.
* `identifies_iff`: Well-formed rules compute the outcome.
* `report_of_identifies`: What is reported of the winner.
* `identifyBytes_eq_iff`: So does any parsed rule set.
-/

namespace FileSignatures

/-- The head of a signature and all of its continuations hold. -/
def Signature.Candidate (d : List UInt8) (signature : Signature) : Prop :=
  ∀ rule ∈ signature.head :: signature.continuations, ∃ value, rule.HoldsWith d value

/-- The first of the longest signatures with a property: those before it are
    shorter, and those after it are not longer. -/
def Signature.FirstLongest (P : Signature → Prop) (signatures : List Signature)
    (winner : Signature) : Prop :=
  ∃ before after, signatures = before ++ winner :: after ∧ P winner
    ∧ (∀ signature ∈ before, P signature → signature.length < winner.length)
    ∧ ∀ signature ∈ after, P signature → signature.length ≤ winner.length

/-- The text that a list of extra-info rules adds: the filled description of
    every rule that holds, in order. -/
inductive Contributes (d : List UInt8) : List Rule → Text → Prop
  | nil : Contributes d [] []
  | holds (rule : Rule) (rest : List Rule) (value : Value) (text : Text)
      (hrule : rule.HoldsWith d value) (hrest : Contributes d rest text) :
      Contributes d (rule :: rest) (Template.fill rule.description value ++ text)
  | fails (rule : Rule) (rest : List Rule) (text : Text)
      (hrule : ∀ value, ¬ rule.HoldsWith d value) (hrest : Contributes d rest text) :
      Contributes d (rule :: rest) text

/-- The outcome of an identification. Without a candidate the bytes stay
    unidentified; otherwise the first longest candidate is reported, with the
    comment and the properties of its description and what extra-info rules add
    to it. It is a fault if a numeric property among them has no value. -/
inductive RuleSet.Identifies (rules : RuleSet) (evaluator : Evaluator) (d : List UInt8) :
    Except Fault Identification → Prop
  | unidentified (hnone : ∀ signature ∈ rules.signatures, ¬ signature.Candidate d) :
      Identifies rules evaluator d (.ok .unidentified)
  | identified (winner : Signature) (added : Text) (extraction : Extraction)
      (hwinner : Signature.FirstLongest (Signature.Candidate d) rules.signatures winner)
      (hadded : Contributes d winner.extras added)
      (hextraction : Extraction.ofDescription evaluator (winner.head.description ++ added)
        = .ok extraction) :
      Identifies rules evaluator d (.ok {
        identified := true
        description := winner.head.description ++ added
        comment := extraction.comment
        properties := extraction.properties
        matchedLine := some winner.head.line })
  | rejected (winner : Signature) (added : Text) (error : BadNumber)
      (hwinner : Signature.FirstLongest (Signature.Candidate d) rules.signatures winner)
      (hadded : Contributes d winner.extras added)
      (hextraction : Extraction.ofDescription evaluator (winner.head.description ++ added)
        = .error error) :
      Identifies rules evaluator d (.error (.badNumber error))

/-- Two signatures in the same list cannot both be the first longest one: the one
    that stands further behind would have to be longer than the other, and not
    longer. -/
theorem firstLongest_unique (P : Signature → Prop) (signatures : List Signature)
    (first second : Signature) (hfirst : Signature.FirstLongest P signatures first)
    (hsecond : Signature.FirstLongest P signatures second) : first = second := by
  rcases hfirst with ⟨before₁, after₁, rfl, hp₁, hbefore₁, hafter₁⟩
  rcases hsecond with ⟨before₂, after₂, heq, hp₂, hbefore₂, hafter₂⟩
  -- Either nothing stands between the two places in the list, or one signature is
  -- before the other.
  rcases List.append_eq_append_iff.1 heq with ⟨gap, hgap, htail⟩ | ⟨gap, hgap, htail⟩
  · cases gap with
    | nil => exact (List.cons.inj htail).1
    | cons step gap =>
        rw [List.cons_append, List.cons.injEq] at htail
        have hlt := hbefore₂ first (by rw [hgap, htail.1]; simp) hp₁
        have hle := hafter₁ second (by rw [htail.2]; simp) hp₂
        omega
  · cases gap with
    | nil => exact (List.cons.inj htail).1.symm
    | cons step gap =>
        rw [List.cons_append, List.cons.injEq] at htail
        have hlt := hbefore₁ second (by rw [hgap, htail.1]; simp) hp₂
        have hle := hafter₂ first (by rw [htail.2]; simp) hp₁
        omega

theorem mem_and_of_firstLongest (p : Signature → Prop) (signatures : List Signature)
    (winner : Signature) (h : Signature.FirstLongest p signatures winner) :
    winner ∈ signatures ∧ p winner := by
  rcases h with ⟨before, after, heq, hp, -, -⟩
  rw [heq]
  exact ⟨List.mem_append_right _ List.mem_cons_self, hp⟩

/-- A signature in front that is shorter, or lacks the property, changes nothing. -/
theorem firstLongest_cons (P : Signature → Prop) (signature winner : Signature)
    (rest : List Signature) (hshorter : P signature → signature.length < winner.length)
    (h : Signature.FirstLongest P rest winner) :
    Signature.FirstLongest P (signature :: rest) winner := by
  rcases h with ⟨before, after, rfl, hp, hbefore, hafter⟩
  exact ⟨signature :: before, after, rfl, hp, List.forall_mem_cons.2 ⟨hshorter, hbefore⟩, hafter⟩

theorem firstLongest_front (P : Signature → Prop) (signature : Signature)
    (rest : List Signature) (hp : P signature)
    (hrest : ∀ other ∈ rest, P other → other.length ≤ signature.length) :
    Signature.FirstLongest P (signature :: rest) signature :=
  ⟨[], rest, rfl, hp, fun _ h => absurd h List.not_mem_nil, hrest⟩

/-- What a scan that began with `best` has kept when it is through: nothing, or
    what it began with, or the first longest signature if that is longer. -/
inductive Signature.Keeps (P : Signature → Prop) (signatures : List Signature)
    (best : Option Signature) : Option Signature → Prop
  | nothing (hbest : best = none) (hnone : ∀ signature ∈ signatures, ¬ P signature) :
      Keeps P signatures best none
  | same (winner : Signature) (hbest : best = some winner)
      (hrest : ∀ signature ∈ signatures, P signature → signature.length ≤ winner.length) :
      Keeps P signatures best (some winner)
  | longer (winner : Signature)
      (hbest : ∀ current, best = some current → current.length < winner.length)
      (hfirst : Signature.FirstLongest P signatures winner) :
      Keeps P signatures best (some winner)

/-- A longer signature in front takes the place of the best one. -/
theorem keeps_replace (P : Signature → Prop) (signature : Signature) (rest : List Signature)
    (best kept : Option Signature) (hp : P signature)
    (hlonger : ∀ current, best = some current → current.length < signature.length)
    (h : Signature.Keeps P rest (some signature) kept) :
    Signature.Keeps P (signature :: rest) best kept := by
  -- What the rest keeps is this signature or one that is longer still.
  cases h with
  | nothing hbest hnone => exact absurd hbest (by simp only [reduceCtorEq, not_false_eq_true])
  | same winner hbest hrest =>
      rw [Option.some.injEq] at hbest
      rw [← hbest] at hrest ⊢
      exact .longer signature hlonger (firstLongest_front P signature rest hp hrest)
  | longer winner hbest hfirst =>
      have hlt := hbest signature rfl
      refine .longer winner (fun current hcurrent => ?_)
        (firstLongest_cons P signature winner rest (fun _ => hlt) hfirst)
      exact Nat.lt_trans (hlonger current hcurrent) hlt

/-- A signature in front that is not longer leaves the best one in place. -/
theorem keeps_hold (P : Signature → Prop) (signature current : Signature)
    (rest : List Signature) (kept : Option Signature)
    (hle : P signature → signature.length ≤ current.length)
    (h : Signature.Keeps P rest (some current) kept) :
    Signature.Keeps P (signature :: rest) (some current) kept := by
  -- What the rest keeps is the best one so far or one that is longer.
  cases h with
  | nothing hbest hnone => exact absurd hbest (by simp only [reduceCtorEq, not_false_eq_true])
  | same winner hbest hrest =>
      rw [Option.some.injEq] at hbest
      rw [hbest] at hle ⊢
      exact .same winner rfl (List.forall_mem_cons.2 ⟨hle, hrest⟩)
  | longer winner hbest hfirst =>
      have hlt := hbest current rfl
      exact .longer winner hbest (firstLongest_cons P signature winner rest
        (fun hp => Nat.lt_of_le_of_lt (hle hp) hlt) hfirst)

/-- A signature in front that lacks the property is passed over. -/
theorem keeps_skip (P : Signature → Prop) (signature : Signature) (rest : List Signature)
    (best kept : Option Signature) (hp : ¬ P signature)
    (h : Signature.Keeps P rest best kept) : Signature.Keeps P (signature :: rest) best kept := by
  cases h with
  | nothing hbest hnone => exact .nothing hbest (List.forall_mem_cons.2 ⟨hp, hnone⟩)
  | same winner hbest hrest =>
      exact .same winner hbest (List.forall_mem_cons.2 ⟨fun h => absurd h hp, hrest⟩)
  | longer winner hbest hfirst =>
      exact .longer winner hbest
        (firstLongest_cons P signature winner rest (fun h => absurd h hp) hfirst)

/-- The scan keeps what it should, by induction on the signatures that are left. -/
theorem foldl_better_keeps (holds : Signature → Bool) (signatures : List Signature)
    (best : Option Signature) :
    Signature.Keeps (fun signature => holds signature = true) signatures best
      ((signatures.filter holds).foldl Signature.better best) := by
  -- What the scan keeps of the rest depends on what it has kept so far, so `best`
  -- is not fixed.
  induction signatures generalizing best with
  | nil =>
      cases best with
      | none => exact .nothing rfl (fun _ h => absurd h List.not_mem_nil)
      | some current => exact .same current rfl (fun _ h => absurd h List.not_mem_nil)
  | cons signature rest ih =>
      rw [List.filter_cons]
      by_cases hholds : holds signature = true
      · rw [if_pos hholds, List.foldl_cons]
        cases best with
        | none =>
            refine keeps_replace _ signature rest none _ hholds (fun current h => ?_) (ih _)
            exact absurd h (by simp only [reduceCtorEq, not_false_eq_true])
        | some current =>
            unfold Signature.better
            by_cases hle : signature.length ≤ current.length
            · -- As long is not longer, so the earlier one stays.
              simp only [if_pos hle]
              exact keeps_hold _ signature current rest _ (fun _ => hle) (ih _)
            · simp only [if_neg hle]
              refine keeps_replace _ signature rest _ _ hholds (fun other h => ?_) (ih _)
              rw [← Option.some.inj h]
              omega
      · rw [if_neg hholds]
        exact keeps_skip _ signature rest best _ hholds (ih best)

theorem holdsIn_iff (d : List UInt8) (signature : Signature)
    (hrules : ∀ rule ∈ signature.rules, rule.WellFormed) :
    signature.holdsIn d.length d = true ↔ signature.Candidate d := by
  have hall := (Signature.forall_rules_iff _ signature).1 hrules
  have hmatched : ∀ rule ∈ signature.head :: signature.continuations, rule.WellFormed :=
    List.forall_mem_cons.2 ⟨hall.1, hall.2.1⟩
  unfold Signature.holdsIn Signature.Candidate
  rw [List.all_eq_true]
  refine forall₂_congr (fun rule hmem => ?_)
  rw [Option.isSome_iff_exists]
  exact exists_congr fun value => valueIn?_eq_some_iff d rule (hmatched rule hmem) value

/-- Being the first longest one depends on the property of the signatures in the
    list alone. -/
theorem firstLongest_congr (P Q : Signature → Prop) (signatures : List Signature)
    (winner : Signature) (hiff : ∀ signature ∈ signatures, (P signature ↔ Q signature))
    (h : Signature.FirstLongest P signatures winner) :
    Signature.FirstLongest Q signatures winner := by
  rcases h with ⟨before, after, rfl, hp, hbefore, hafter⟩
  refine ⟨before, after, rfl, (hiff winner ?_).1 hp, fun other hmem hq => ?_,
    fun other hmem hq => ?_⟩
  · exact List.mem_append_right _ List.mem_cons_self
  · exact hbefore other hmem ((hiff other (List.mem_append_left _ hmem)).2 hq)
  · exact hafter other hmem
      ((hiff other (List.mem_append_right _ (List.mem_cons_of_mem _ hmem))).2 hq)

section Winner

variable (d : List UInt8) (signatures : List Signature)
  (hrules : ∀ signature ∈ signatures, ∀ rule ∈ signature.rules, rule.WellFormed)

include hrules

/-- The scan keeps the first longest candidate, or nothing if there is none. -/
theorem winnerIn?_keeps :
    Signature.Keeps (Signature.Candidate d) signatures none
      (RuleSet.winnerIn? d.length d signatures) := by
  have hiff := fun signature hmem => holdsIn_iff d signature (hrules signature hmem)
  have hkeeps := foldl_better_keeps (fun signature => signature.holdsIn d.length d) signatures none
  unfold RuleSet.winnerIn?
  generalize (signatures.filter fun signature => signature.holdsIn d.length d).foldl
    Signature.better none = kept at hkeeps ⊢
  cases hkeeps with
  | nothing hbest hnone =>
      exact .nothing rfl fun signature hmem h => hnone signature hmem ((hiff signature hmem).2 h)
  | same winner hbest hrest =>
      -- The scan began with nothing.
      exact absurd hbest (by simp only [reduceCtorEq, not_false_eq_true])
  | longer winner hbest hfirst =>
      exact .longer winner hbest (firstLongest_congr _ _ signatures winner hiff hfirst)

/-- Without a candidate there is no winner, and the other way round. -/
theorem winnerIn?_eq_none_iff :
    RuleSet.winnerIn? d.length d signatures = none ↔
      ∀ signature ∈ signatures, ¬ signature.Candidate d := by
  have hkeeps := winnerIn?_keeps d signatures hrules
  constructor
  · intro hnone
    rw [hnone] at hkeeps
    cases hkeeps with
    | nothing hbest hall => exact hall
  · intro hall
    -- Whatever else would be kept is a candidate.
    generalize RuleSet.winnerIn? d.length d signatures = kept at hkeeps ⊢
    cases hkeeps with
    | nothing hbest hnone => rfl
    | same winner hbest hrest => exact absurd hbest (by simp only [reduceCtorEq, not_false_eq_true])
    | longer winner hbest hfirst =>
        rcases hfirst with ⟨before, after, rfl, hp, -, -⟩
        exact absurd hp (hall winner (List.mem_append_right _ List.mem_cons_self))

/-- The winner is the first longest candidate. -/
theorem winnerIn?_eq_some_iff (winner : Signature) :
    RuleSet.winnerIn? d.length d signatures = some winner ↔
      Signature.FirstLongest (Signature.Candidate d) signatures winner := by
  have hkeeps := winnerIn?_keeps d signatures hrules
  constructor
  · intro hsome
    rw [hsome] at hkeeps
    cases hkeeps with
    | same _ hbest hrest => exact absurd hbest (by simp only [reduceCtorEq, not_false_eq_true])
    | longer _ hbest hfirst => exact hfirst
  · intro hfirst
    -- What the search keeps is nothing or a first longest candidate, and there is but one.
    generalize RuleSet.winnerIn? d.length d signatures = kept at hkeeps ⊢
    cases hkeeps with
    | nothing hbest hnone =>
        rcases hfirst with ⟨before, after, rfl, hp, -, -⟩
        exact absurd hp (hnone winner (List.mem_append_right _ List.mem_cons_self))
    | same _ hbest hrest => exact absurd hbest (by simp only [reduceCtorEq, not_false_eq_true])
    | longer other hbest hother =>
        rw [firstLongest_unique _ signatures other winner hother hfirst]

end Winner

/-- Extra-info rules add the text that is computed for them, and no other. -/
theorem contributes_iff (d : List UInt8) (rules : List Rule)
    (hrules : ∀ rule ∈ rules, rule.WellFormed) (text : Text) :
    Contributes d rules text ↔ Rule.contributionsIn d.length d rules = text := by
  induction rules generalizing text with
  | nil =>
      constructor
      · intro h
        cases h with
        | nil => rfl
      · rintro rfl
        exact .nil
  | cons rule rest ih =>
      have hvalue := valueIn?_eq_some_iff d rule (hrules rule List.mem_cons_self)
      have hrest := ih (fun other hmem => hrules other (List.mem_cons_of_mem _ hmem))
      unfold Rule.contributionsIn at hrest ⊢
      rw [List.flatMap_cons]
      constructor
      · intro h
        cases h with
        | holds _ _ value tail hrule htail => rw [(hvalue value).2 hrule, (hrest tail).1 htail]
        | fails _ _ _ hrule htail =>
            -- Without a value to hold with, there is none to be computed.
            have hnone : rule.valueIn? d.length d = none :=
              Option.eq_none_iff_forall_ne_some.2 fun value h => hrule value ((hvalue value).1 h)
            rw [hnone, (hrest text).1 htail]
            rfl
      · rintro rfl
        cases hread : rule.valueIn? d.length d with
        | none =>
            refine .fails rule rest _ (fun value h => ?_) ((hrest _).2 rfl)
            rw [(hvalue value).2 h] at hread
            exact absurd hread (by simp only [reduceCtorEq, not_false_eq_true])
        | some value =>
            exact .holds rule rest value _ ((hvalue value).1 hread) ((hrest _).2 rfl)

theorem contributes_unique (d : List UInt8) (rules : List Rule)
    (hrules : ∀ rule ∈ rules, rule.WellFormed) (first second : Text)
    (hfirst : Contributes d rules first) (hsecond : Contributes d rules second) :
    first = second := by
  have hsame := contributes_iff d rules hrules
  exact ((hsame first).1 hfirst).symm.trans ((hsame second).1 hsecond)

/-- The verdict on some bytes is the outcome of their identification. -/
theorem verdict_identifies (rules : RuleSet) (hrules : rules.WellFormed) (evaluator : Evaluator)
    (d : List UInt8) :
    rules.Identifies evaluator d
      ((rules.verdict evaluator d.length d).mapError .badNumber) := by
  unfold RuleSet.verdict
  cases hwinner : RuleSet.winnerIn? d.length d rules.signatures with
  | none => exact .unidentified ((winnerIn?_eq_none_iff d rules.signatures hrules).1 hwinner)
  | some winner =>
      have hfirst := (winnerIn?_eq_some_iff d rules.signatures hrules winner).1 hwinner
      have hmem := (mem_of_winnerIn? _ _ _ winner hwinner).1
      have hextras := ((Signature.forall_rules_iff _ winner).1 (hrules winner hmem)).2.2
      have hadded := (contributes_iff d winner.extras hextras _).2 rfl
      simp only [Signature.report]
      -- The winner is reported, or its description is rejected.
      cases hextraction : Extraction.ofDescription evaluator (winner.head.description
          ++ Rule.contributionsIn d.length d winner.extras) with
      | ok extraction => exact .identified winner _ extraction hfirst hadded hextraction
      | error error => exact .rejected winner _ error hfirst hadded hextraction

/-- Every outcome is the verdict, since winner and added text are determined. -/
theorem eq_verdict_of_identifies (rules : RuleSet) (hrules : rules.WellFormed)
    (evaluator : Evaluator) (d : List UInt8) (outcome : Except Fault Identification)
    (h : rules.Identifies evaluator d outcome) :
    outcome = (rules.verdict evaluator d.length d).mapError .badNumber := by
  -- With a winner the outcome is its report, whether that is a fault or not.
  have hadds : ∀ winner added,
      Signature.FirstLongest (Signature.Candidate d) rules.signatures winner →
      Contributes d winner.extras added → rules.verdict evaluator d.length d
        = winner.report evaluator added := by
    intro winner added hwinner hadded
    have hfound := (winnerIn?_eq_some_iff d rules.signatures hrules winner).2 hwinner
    have hmem := (mem_of_winnerIn? _ _ _ winner hfound).1
    have hextras := ((Signature.forall_rules_iff _ winner).1 (hrules winner hmem)).2.2
    unfold RuleSet.verdict
    rw [hfound, ← (contributes_iff d winner.extras hextras added).1 hadded]
  cases h with
  | unidentified hnone =>
      unfold RuleSet.verdict
      rw [(winnerIn?_eq_none_iff d rules.signatures hrules).2 hnone]
      rfl
  | identified winner added extraction hwinner hadded hextraction =>
      rw [hadds winner added hwinner hadded, Signature.report, hextraction]
      rfl
  | rejected winner added error hwinner hadded hextraction =>
      rw [hadds winner added hwinner hadded, Signature.report, hextraction]
      rfl

/-- An identification that succeeds reports the winner with what its extra-info rules add,
    if there is a winner. -/
theorem report_of_identifies (rules : RuleSet) (evaluator : Evaluator) (d : List UInt8)
    (winner : Signature) (result : Identification)
    (hwinner : Signature.FirstLongest (Signature.Candidate d) rules.signatures winner)
    (h : rules.Identifies evaluator d (.ok result)) :
    ∃ added extraction, Contributes d winner.extras added
      ∧ Extraction.ofDescription evaluator (winner.head.description ++ added) = .ok extraction
      ∧ result = {
          identified := true
          description := winner.head.description ++ added
          comment := extraction.comment
          properties := extraction.properties
          matchedLine := some winner.head.line } := by
  cases h with
  | unidentified hnone =>
      obtain ⟨hmem, hcandidate⟩ := mem_and_of_firstLongest _ _ winner hwinner
      exact absurd hcandidate (hnone winner hmem)
  | identified other added extraction hother hadded hextraction =>
      -- The winner is unique, so it is the one that the outcome is about.
      have hsame := firstLongest_unique _ _ other winner hother hwinner
      subst hsame
      exact ⟨added, extraction, hadded, hextraction, rfl⟩

/-- Identification of bytes by well-formed rules computes the outcome. -/
theorem identifies_iff (rules : RuleSet) (hrules : rules.WellFormed) (evaluator : Evaluator)
    (d : Array UInt8) (outcome : Except Fault Identification) :
    rules.identifyBytes evaluator d = outcome ↔ rules.Identifies evaluator d.toList outcome := by
  rw [identifyBytes_eq_verdict rules evaluator hrules, ← Array.length_toList]
  constructor
  · rintro rfl
    exact verdict_identifies rules hrules evaluator d.toList
  · intro hidentifies
    exact (eq_verdict_of_identifies rules hrules evaluator d.toList outcome hidentifies).symm

/-- Identification of bytes by a parsed rule set computes the outcome that the
    rules, the evaluator and the bytes determine, whatever earlier tests have left
    behind in the source. -/
theorem identifyBytes_eq_iff (text : Text) (rules : RuleSet) (evaluator : Evaluator)
    (d : Array UInt8) (outcome : Except Fault Identification)
    (h : RuleSet.ofText text = .ok rules) :
    rules.identifyBytes evaluator d = outcome ↔ rules.Identifies evaluator d.toList outcome :=
  identifies_iff rules (wellFormed_of_ofText text rules h) evaluator d outcome

namespace Database

/-- A small database of two signatures, of which the longer one disregards case and follows
    pointers of four and of two bytes in either order. -/
def pointingText : Text :=
  "# FILE_ID DB\n# Date:\n# Source:\n".toList ++ "0\tbyte\tx\tAny\n".toList
    ++ "0\tstring/c\tmZ\tQ [ext=q]\n".toList ++ "&(2.L-2)\tbeshort&0xfff\t=0x102\n".toList
    ++ ">(6.s+2)\tstring/c\tx\t[title=%.4s]".toList

/-- The rules of this database. -/
def pointingRules : RuleSet where
  signatures := [
    { head := ⟨4, .direct 0, .byte, Value.fullMask, .any, .number 0, "Any".toList, none, 1⟩
      continuations := []
      extras := [] },
    { head := ⟨5, .direct 0, .caselessString, Value.fullMask, .equal, .bytes [77, 90],
        "Q [ext=q]".toList, none, 2⟩
      continuations := [⟨6, .indirect ⟨2, .beLong, -2⟩, .beShort, 0xfff, .equal, .number 258, [],
        none, 2⟩]
      extras := [⟨7, .indirect ⟨6, .leShort, 2⟩, .caselessString, Value.fullMask, .any,
        .bytes (List.replicate Template.defaultCapture 0), "[title=%.4s]".toList, some 4, 0⟩] }]

theorem ofText_pointingText : RuleSet.ofText pointingText = .ok pointingRules := rfl

end Database

/-- Both signatures are candidates, and the longer one wins. Its first pointer leads to a
    number of which the mask leaves what is compared, and its second one to a title, which is
    reported in upper case. Without the number only the other signature is a candidate. -/
theorem identifyBytes_of_sample :
    (∃ result, Database.pointingRules.Identifies .arithmetic
        [109, 90, 0, 0, 0, 12, 10, 0, 9, 9, 0xf1, 2, 97, 66, 0] (.ok result)
      ∧ result.description = "Q [ext=q][title=AB]".toList ∧ result.matchedLine = some 5)
    ∧ (∃ result, Database.pointingRules.Identifies .arithmetic
        [77, 90, 0, 0, 0, 12, 10, 0, 9, 9, 0xf1] (.ok result)
      ∧ result.matchedLine = some 4)
    ∧ Database.pointingRules.Identifies .arithmetic [] (.ok .unidentified) := by
  have hiff := fun d outcome => identifyBytes_eq_iff Database.pointingText Database.pointingRules
    .arithmetic d outcome Database.ofText_pointingText
  -- What is computed of both resources; the relation follows from it.
  have hlonger : (Database.pointingRules.identifyBytes .arithmetic
      #[109, 90, 0, 0, 0, 12, 10, 0, 9, 9, 0xf1, 2, 97, 66, 0]).toOption.map
        (fun result => (result.description, result.matchedLine))
      = some ("Q [ext=q][title=AB]".toList, some 5) := by decide +kernel
  have hshorter : (Database.pointingRules.identifyBytes .arithmetic
      #[77, 90, 0, 0, 0, 12, 10, 0, 9, 9, 0xf1]).toOption.map Identification.matchedLine
      = some (some 4) := by decide +kernel
  refine ⟨?_, ?_, (hiff #[] _).1 rfl⟩
  · obtain ⟨result, hresult, hreported⟩ := Option.map_eq_some_iff.1 hlonger
    rw [Prod.mk.injEq] at hreported
    exact ⟨result, (hiff _ _).1 (eq_ok_of_toOption _ result hresult), hreported⟩
  · obtain ⟨result, hresult, hline⟩ := Option.map_eq_some_iff.1 hshorter
    exact ⟨result, (hiff _ _).1 (eq_ok_of_toOption _ result hresult), hline⟩

end FileSignatures
