import FileSignatures.Matching
import FileSignatures.Proofs.Database.RuleShape
import FileSignatures.Proofs.Resource.Service
import Mathlib.Data.List.Forall2

/-!
# Matching as a function of the bytes

Matching runs on one source that all rules share. Every test moves it, and a
test that ends early leaves it wherever it was. None of this matters: before
anything is read the source is sent to a position, so what a test answers
depends on the bytes alone.

This module writes that answer down as functions on a list of bytes, with no
state, and shows that matching computes them on every source that serves the
bytes. The size is a second argument, since a source may claim more than it can
deliver: positions are checked against the claim, reads against the bytes.

The functions follow matching step by step, so that each `_yields` lemma is the
corresponding bind and its proof cites the lemmas of the steps. Well-formed
rules are needed in one place, where a comparison has to have a meaning
(`holds?_isSome`). Everything comes together in `identifySource_of_service`: a
source that serves bytes is identified by the verdict on the bytes, or fails for
a reason of its own.

## Main definitions

* `numberAt?`, `captureAt?`, `Rule.valueAt?`: What is read at a position.
* `Offset.target?`: Where an offset leads.
* `Rule.valueIn?`: The value of a rule that holds.
* `RuleSet.winnerIn?`: The signature that wins.
* `Rule.contributionsIn`: The text that extra-info rules add.
* `RuleSet.verdict`: The identification of the bytes.

## Theorems

* `seekIn_yields`: An offset leads where its function says.
* `holds?_isSome`: A well-formed rule's comparison has a meaning.
* `rel_winnerIn?`: Signatures that match alike have winners that correspond.
* `test_yields`: A rule holds as its function says, wherever the source stands.
* `winnerAmong_yields`: The winner is the one of the bytes.
* `identifySource_of_service`: Identification is the verdict on the bytes.
-/

namespace FileSignatures

/-- The masked number of a type at a position. -/
def numberAt? (content : List UInt8) (type : ValueType) (mask : UInt64) (position : Nat) :
    Option Int64 :=
  (stretch? content position type.width).bind (Value.decodeNumber? type mask)

/-- The bytes from a position up to and including the first zero byte, at most
    `limit`, or nothing if the end comes first. -/
def captureAt? (content : List UInt8) : (limit position : Nat) → Option (List UInt8)
  | 0, _ => some []
  | limit + 1, position =>
    (stretch? content position 1).bind fun bytes =>
      if bytes.headD 0 = 0 then some [bytes.headD 0]
      else (captureAt? content limit (position + 1)).map (bytes.headD 0 :: ·)

/-- Where an offset leads in a resource of a claimed size. -/
def Offset.target? (offset : Offset) (size : Nat) (content : List UInt8) : Option Nat :=
  (offset.start? size).bind fun start =>
    match offset with
    | .direct _ => some start
    | .indirect pointer =>
      (numberAt? content pointer.width Value.fullMask start).bind (pointer.target? size)

namespace Rule

/-- The value that a rule reads at a position. -/
def valueAt? (rule : Rule) (content : List UInt8) (position : Nat) : Option Value :=
  if rule.isNumeric then (numberAt? content rule.type rule.mask position).map .number
  else
    (if rule.operator = .any || rule.operator = .greater then
      captureAt? content rule.readLength position
    else stretch? content position rule.operand.size).map fun bytes =>
      .bytes (rule.type.foldCase bytes)

/-- The value of a rule, if the rule holds. -/
def valueIn? (rule : Rule) (size : Nat) (content : List UInt8) : Option Value :=
  ((rule.offset.target? size content).bind (rule.valueAt? content)).filter fun value =>
    rule.operator.holds? value rule.operand = some true

/-- The text that the rules that hold contribute, one after the other. -/
def contributionsIn (size : Nat) (content : List UInt8) (rules : List Rule) : Text :=
  rules.flatMap fun rule =>
    match rule.valueIn? size content with
    | some value => Template.fill rule.description value
    | none => []

end Rule

/-- Whether the head and all continuations of a signature hold. -/
def Signature.holdsIn (signature : Signature) (size : Nat) (content : List UInt8) : Bool :=
  (signature.head :: signature.continuations).all fun rule => (rule.valueIn? size content).isSome

/-- The longer of two signatures, the earlier one if they are as long. -/
def Signature.better (best : Option Signature) (signature : Signature) : Option Signature :=
  match best with
  | some current => if signature.length ≤ current.length then best else some signature
  | none => some signature

/-- What is reported of a signature that wins, given the text that its extra-info
    rules add. -/
def Signature.report (winner : Signature) (evaluator : Evaluator) (added : Text) :
    Except BadNumber Identification :=
  (Extraction.ofDescription evaluator (winner.head.description ++ added)).map fun extraction => {
    identified := true
    description := winner.head.description ++ added
    comment := extraction.comment
    properties := extraction.properties
    matchedLine := some winner.head.line }

namespace RuleSet

/-- The first of the longest signatures that hold. -/
def winnerIn? (size : Nat) (content : List UInt8) (signatures : List Signature) :
    Option Signature :=
  (signatures.filter fun signature => signature.holdsIn size content).foldl Signature.better none

/-- What identification comes to, given the bytes. -/
def verdict (rules : RuleSet) (evaluator : Evaluator) (size : Nat) (content : List UInt8) :
    Except BadNumber Identification :=
  match winnerIn? size content rules.signatures with
  | none => .ok .unidentified
  | some winner => winner.report evaluator (Rule.contributionsIn size content winner.extras)

end RuleSet

theorem start?_le (offset : Offset) (size start : Nat) (h : offset.start? size = some start) :
    start ≤ size := by
  unfold Offset.start? positionIn? at h
  simp only at h
  split at h
  · split at h
    · rename_i hle
      rw [Option.some.injEq] at h
      omega
    · exact absurd h (by simp only [reduceCtorEq, not_false_eq_true])
  · split at h
    · rw [Option.some.injEq] at h
      omega
    · exact absurd h (by simp only [reduceCtorEq, not_false_eq_true])

theorem pointer_target?_le (pointer : Pointer) (size target : Nat) (read : Int64)
    (h : pointer.target? size read = some target) : target ≤ size := by
  unfold Pointer.target? at h
  simp only at h
  split at h
  · rename_i hrange
    rw [Option.some.injEq] at h
    omega
  · exact absurd h (by simp only [reduceCtorEq, not_false_eq_true])

/-- The comparison of a well-formed rule has a meaning for every value that the
    rule reads. -/
theorem holds?_isSome (rule : Rule) (hrule : rule.WellFormed) (content : List UInt8)
    (position : Nat) (value : Value) (h : rule.valueAt? content position = some value) :
    ∃ answer, rule.operator.holds? value rule.operand = some answer := by
  unfold Rule.valueAt? Rule.isNumeric at h
  by_cases hnumeric : rule.type.isNumeric = true
  · rw [if_pos hnumeric, Option.map_eq_some_iff] at h
    rcases h with ⟨n, -, rfl⟩
    rcases hrule.number_operand hnumeric with ⟨m, hm⟩
    -- Numbers can be compared in every way.
    rw [hm]
    cases rule.operator <;> exact ⟨_, rfl⟩
  · rw [if_neg hnumeric, Option.map_eq_some_iff] at h
    rcases h with ⟨bytes, -, rfl⟩
    have hcomparison := hrule.string_comparison (Bool.eq_false_iff.2 hnumeric)
    generalize rule.operator = operator, rule.operand = operand, rule.capture = capture
      at hcomparison
    cases hcomparison with
    | equal other => exact ⟨_, rfl⟩
    | greater first limit hlimit => cases rule.type.foldCase bytes <;> exact ⟨_, rfl⟩
    | any limit hlimit => exact ⟨_, rfl⟩

theorem mem_of_foldl_better (signatures : List Signature) (best : Option Signature)
    (winner : Signature) (h : signatures.foldl Signature.better best = some winner) :
    winner ∈ signatures ∨ best = some winner := by
  induction signatures generalizing best with
  | nil => exact Or.inr h
  | cons signature rest ih =>
      rw [List.foldl_cons] at h
      rcases ih _ h with hmem | hbest
      · exact Or.inl (List.mem_cons_of_mem _ hmem)
      · -- The better one of two is one of the two.
        unfold Signature.better at hbest
        split at hbest
        · split at hbest
          · exact Or.inr hbest
          · exact Or.inl (Option.some.inj hbest ▸ List.mem_cons_self)
        · exact Or.inl (Option.some.inj hbest ▸ List.mem_cons_self)

/-- A winner is one of the signatures, and it holds. -/
theorem mem_of_winnerIn? (size : Nat) (content : List UInt8) (signatures : List Signature)
    (winner : Signature) (h : RuleSet.winnerIn? size content signatures = some winner) :
    winner ∈ signatures ∧ winner.holdsIn size content = true := by
  rcases mem_of_foldl_better _ none winner h with hmem | hnone
  · exact List.mem_filter.1 hmem
  · exact absurd hnone (by simp only [reduceCtorEq, not_false_eq_true])

/-- Lists of signatures that correspond one by one, where corresponding signatures hold
    alike and are as long, have winners that correspond. -/
theorem rel_winnerIn? (R : Signature → Signature → Prop) (size : Nat) (content : List UInt8)
    (hholds : ∀ a b, R a b → a.holdsIn size content = b.holdsIn size content)
    (hlength : ∀ a b, R a b → a.length = b.length) (first second : List Signature)
    (h : List.Forall₂ R first second) :
    Option.Rel R (RuleSet.winnerIn? size content first)
      (RuleSet.winnerIn? size content second) := by
  -- The scan keeps corresponding signatures all along.
  refine List.rel_foldl (P := Option.Rel R) ?_ Option.Rel.none (List.rel_filter ?_ h)
  · intro best best' hbest a b hab
    cases hbest with
    | none => exact .some hab
    | some hcurrent =>
        unfold Signature.better
        simp only [hlength _ _ hab, hlength _ _ hcurrent]
        split
        · exact .some hcurrent
        · exact .some hab
  · intro a b hab
    simp only [hholds a b hab]

section Service

variable {σ : Type} [ByteSource σ] (service : Service σ)

/-- A number is read from the bytes at the position. -/
theorem readNumber_yields (type : ValueType) (mask : UInt64) (position : Nat) (s : σ)
    (h : service.StandsAt position s) :
    Yields service.mayFail service.Ready service.Ready
      (numberAt? service.content type mask position) (readNumber type mask s) := by
  refine yields_bind _ _ _ _ s (service.read_yields position type.width s h)
    (fun bytes t _ ht => ?_)
  have hready := service.ready_of_standsAt _ t ht
  cases hn : Value.decodeNumber? type mask bytes with
  | none =>
      -- Only a string has no number, and reading one runs short.
      exact yields_short _ _ t hready
  | some n => exact yields_pure n t hready

/-- An offset leads where its function says, and the source stands there. -/
theorem seekIn_yields (offset : Offset) (s : σ) (h : service.Ready s) :
    Yields service.mayFail service.Ready
      (fun t => match offset.target? service.size service.content with
        | some position => service.StandsAt position t
        | none => service.Ready t)
      (some (offset.target? service.size service.content).isSome)
      (offset.seekIn service.size s) := by
  unfold Offset.seekIn Offset.target?
  cases hstart : offset.start? service.size with
  | none => exact yields_pure false s h
  | some start =>
      refine yields_bind_some _ _ () _ s (service.seek_yields start s
        (start?_le offset service.size start hstart) h) (fun t ht => ?_)
      cases offset with
      | direct position => exact yields_pure true t ht
      | indirect pointer =>
          -- The pointer is read from the base, after which the source may stand
          -- anywhere; only the second seek gives it a position again.
          refine yields_bind_some _ _ _ _ t (yields_unlessShort _ _ t (fun _ hu => hu)
            (readNumber_yields service pointer.width Value.fullMask start t ht)) (fun u hu => ?_)
          simp only [Option.bind_some]
          cases hread : numberAt? service.content pointer.width Value.fullMask start with
          | none => exact yields_pure false u hu
          | some read =>
              simp only [Option.bind_some]
              cases htarget : pointer.target? service.size read with
              | none => exact yields_pure false u hu
              | some target =>
                  exact yields_bind_some _ _ () _ u (service.seek_yields target u
                    (pointer_target?_le pointer service.size target read htarget) hu)
                    (fun v hv => yields_pure true v hv)

/-- A capture takes the bytes up to the first zero byte. -/
theorem captureBytes_yields (limit position : Nat) (s : σ) (h : service.StandsAt position s) :
    Yields service.mayFail service.Ready service.Ready
      (captureAt? service.content limit position) (captureBytes limit s) := by
  induction limit generalizing position s with
  | zero => exact yields_pure [] s (service.ready_of_standsAt _ s h)
  | succ limit ih =>
      -- The operation reads a byte, its function a stretch of one.
      have hbyte : Yields service.mayFail service.Ready (service.StandsAt (position + 1))
          ((stretch? service.content position 1).map fun bytes => bytes.headD 0)
          ((ByteSource.readByte : Reading σ UInt8) s) :=
        yields_map _ _ _ s (service.read_yields position 1 s h)
      have hanswer : captureAt? service.content (limit + 1) position
          = ((stretch? service.content position 1).map fun bytes => bytes.headD 0).bind
            fun byte => if byte = 0 then some [byte]
              else (captureAt? service.content limit (position + 1)).map (byte :: ·) := by
        rw [Option.bind_map]
        rfl
      rw [hanswer]
      refine yields_bind _ _ _ _ s hbyte (fun byte t _ ht => ?_)
      by_cases hzero : byte = 0
      · rw [if_pos hzero, if_pos hzero]
        exact yields_pure [byte] t (service.ready_of_standsAt _ t ht)
      · rw [if_neg hzero, if_neg hzero]
        exact yields_map _ _ _ t (ih (position + 1) t ht)

theorem readValue_yields (rule : Rule) (position : Nat) (s : σ)
    (h : service.StandsAt position s) :
    Yields service.mayFail service.Ready service.Ready
      (rule.valueAt? service.content position) (rule.readValue s) := by
  unfold Rule.readValue Rule.valueAt?
  -- Three ways to read: a number, a capture, or as many bytes as the operand has.
  by_cases hnumeric : rule.isNumeric = true
  · rw [if_pos hnumeric, if_pos hnumeric]
    exact yields_map _ _ _ s (readNumber_yields service rule.type rule.mask position s h)
  · rw [if_neg hnumeric, if_neg hnumeric]
    simp only
    by_cases hopen : (rule.operator = .any || rule.operator = .greater) = true
    · rw [if_pos hopen, if_pos hopen]
      exact yields_map _ _ _ s (captureBytes_yields service rule.readLength position s h)
    · rw [if_neg hopen, if_neg hopen]
      exact yields_map _ _ _ s (yields_mono _ _ (service.ready_of_standsAt _)
        (service.read_yields position rule.operand.size s h))

/-- A well-formed rule holds as its function says, wherever the source stands
    before and whatever state earlier tests have left. -/
theorem test_yields (rule : Rule) (hrule : rule.WellFormed) (s : σ) (h : service.Ready s) :
    Yields service.mayFail service.Ready service.Ready
      (some (rule.valueIn? service.size service.content)) (rule.test service.size s) := by
  unfold Rule.test Rule.valueIn?
  refine yields_bind_some _ _ _ _ s (seekIn_yields service rule.offset s h) (fun t ht => ?_)
  cases htarget : rule.offset.target? service.size service.content with
  | none =>
      rw [htarget] at ht
      exact yields_pure none t ht
  | some position =>
      rw [htarget] at ht
      simp only [Option.isSome_some, Bool.not_true, Bool.false_eq_true, if_false, Option.bind_some]
      refine yields_bind_some _ _ _ _ t (yields_unlessShort _ _ t (fun _ hu => hu)
        (readValue_yields service rule position t ht)) (fun u hu => ?_)
      cases hvalue : rule.valueAt? service.content position with
      | none => exact yields_pure none u hu
      | some value =>
          -- The only other fault of a test would be a comparison without a meaning.
          rcases holds?_isSome rule hrule service.content position value hvalue with
            ⟨answer, hanswer⟩
          simp only [hanswer, Option.filter_some]
          cases answer with
          | true => exact yields_pure (some value) u hu
          | false => exact yields_pure none u hu

theorem allHold_yields (rules : List Rule) (hrules : ∀ rule ∈ rules, rule.WellFormed) (s : σ)
    (h : service.Ready s) :
    Yields service.mayFail service.Ready service.Ready
      (some (rules.all fun rule => (rule.valueIn? service.size service.content).isSome))
      (Rule.allHold service.size rules s) := by
  induction rules generalizing s with
  | nil => exact yields_pure true s h
  | cons rule rest ih =>
      refine yields_bind_some _ _ _ _ s
        (test_yields service rule (hrules rule List.mem_cons_self) s h) (fun t ht => ?_)
      rw [List.all_cons]
      -- The first rule that does not hold ends the test, and the reading with it.
      cases hvalue : rule.valueIn? service.size service.content with
      | none => exact yields_pure false t ht
      | some value =>
          rw [Option.isSome_some, Bool.true_and]
          exact ih (fun r hr => hrules r (List.mem_cons_of_mem _ hr)) t ht

theorem contributions_yields (rules : List Rule) (hrules : ∀ rule ∈ rules, rule.WellFormed)
    (s : σ) (h : service.Ready s) :
    Yields service.mayFail service.Ready service.Ready
      (some (Rule.contributionsIn service.size service.content rules))
      (Rule.contributions service.size rules s) := by
  induction rules generalizing s with
  | nil => exact yields_pure [] s h
  | cons rule rest ih =>
      refine yields_bind_some _ _ _ _ s
        (test_yields service rule (hrules rule List.mem_cons_self) s h) (fun t ht => ?_)
      exact yields_map _ _ _ t (ih (fun r hr => hrules r (List.mem_cons_of_mem _ hr)) t ht)

/-- The scan keeps the longest of the signatures that hold, the first of several
    that are as long. -/
theorem winnerAmong_yields (signatures : List Signature) (best : Option Signature)
    (hrules : ∀ signature ∈ signatures, ∀ rule ∈ signature.rules, rule.WellFormed) (s : σ)
    (h : service.Ready s) :
    Yields service.mayFail service.Ready service.Ready
      (some ((signatures.filter fun signature =>
        signature.holdsIn service.size service.content).foldl Signature.better best))
      (RuleSet.winnerAmong service.size best signatures s) := by
  induction signatures generalizing best s with
  | nil => exact yields_pure best s h
  | cons signature rest ih =>
      have hrest := fun current t ht =>
        ih current (fun r hr => hrules r (List.mem_cons_of_mem _ hr)) t ht
      have hall := (Signature.forall_rules_iff _ signature).1
        (hrules signature List.mem_cons_self)
      -- Of the sub-rules, only the continuations decide on a match.
      have hmatches := allHold_yields service (signature.head :: signature.continuations)
        (List.forall_mem_cons.2 ⟨hall.1, hall.2.1⟩) s h
      refine yields_bind_some _ _ _ _ s hmatches (fun t ht => ?_)
      rw [List.filter_cons]
      change Yields _ _ _ _ ((if signature.holdsIn service.size service.content = true then _
        else _ : Reading σ (Option Signature)) t)
      by_cases hholds : signature.holdsIn service.size service.content = true
      · rw [if_pos hholds, if_pos hholds, List.foldl_cons]
        cases best with
        | none => exact hrest (some signature) t ht
        | some current =>
            simp only [Signature.better]
            by_cases hle : signature.length ≤ current.length
            · rw [if_pos hle, if_pos hle]
              exact hrest (some current) t ht
            · rw [if_neg hle, if_neg hle]
              exact hrest (some signature) t ht
      · rw [if_neg hholds, if_neg hholds]
        exact hrest best t ht

/-- A run of identification ends with the verdict on the bytes, or with a fault of
    the resource. -/
theorem identify_of_service (rules : RuleSet) (hrules : rules.WellFormed)
    (evaluator : Evaluator) (source settled : σ)
    (hsize : ByteSource.size source = .ok service.size settled) (hready : service.Ready settled) :
    (∃ t, rules.identify evaluator source
        = match rules.verdict evaluator service.size service.content with
          | .ok result => .ok result t
          | .error error => .error (.badNumber error) t)
      ∨ ∃ reason t, service.mayFail reason
        ∧ rules.identify evaluator source = .error (.io reason) t := by
  have hscan := winnerAmong_yields service rules.signatures none hrules settled hready
  unfold RuleSet.identify
  rw [bind_of_ok _ _ _ _ _ hsize]
  -- The scan never runs short, nor do the extra-info rules of the winner.
  rcases yields_some_cases _ _ hscan with ⟨t, hrun, ht⟩ | ⟨reason, t, hrun, hmay⟩
  · rw [bind_of_ok _ _ _ _ _ hrun]
    unfold RuleSet.verdict RuleSet.winnerIn?
    cases hbest : (rules.signatures.filter fun signature =>
        signature.holdsIn service.size service.content).foldl Signature.better none with
    | none => exact Or.inl ⟨t, rfl⟩
    | some winner =>
        -- The winner comes from the rule set, so its rules are well-formed.
        have hmem := (mem_of_winnerIn? _ _ _ _ hbest).1
        have hextras := ((Signature.forall_rules_iff _ winner).1 (hrules winner hmem)).2.2
        have hadd := contributions_yields service winner.extras hextras t ht
        simp only
        rcases yields_some_cases _ _ hadd with ⟨u, hadded, -⟩ | ⟨reason, u, hadded, hmay⟩
        · rw [bind_of_ok _ _ _ _ _ hadded]
          unfold Signature.report
          cases Extraction.ofDescription evaluator (winner.head.description
              ++ Rule.contributionsIn service.size service.content winner.extras) with
          | error error => exact Or.inl ⟨u, rfl⟩
          | ok extraction => exact Or.inl ⟨u, rfl⟩
        · rw [bind_of_error _ _ _ _ _ hadded]
          exact Or.inr ⟨reason, u, hmay, rfl⟩
  · rw [bind_of_error _ _ _ _ _ hrun]
    exact Or.inr ⟨reason, t, hmay, rfl⟩

/-- A source that serves bytes is identified by the verdict on the bytes, unless
    the resource fails. -/
theorem identifySource_of_service (rules : RuleSet) (hrules : rules.WellFormed)
    (evaluator : Evaluator) (source settled : σ)
    (hsize : ByteSource.size source = .ok service.size settled) (hready : service.Ready settled) :
    rules.identifySource evaluator source
        = (rules.verdict evaluator service.size service.content).mapError .badNumber
      ∨ ∃ reason, service.mayFail reason
        ∧ rules.identifySource evaluator source = .error (.io reason) := by
  unfold RuleSet.identifySource
  rcases identify_of_service service rules hrules evaluator source settled hsize hready with
    ⟨t, hrun⟩ | ⟨reason, t, hmay, hrun⟩
  · rw [hrun]
    cases rules.verdict evaluator service.size service.content with
    | ok result => exact Or.inl rfl
    | error error => exact Or.inl rfl
  · rw [hrun]
    exact Or.inr ⟨reason, hmay, rfl⟩

end Service

end FileSignatures
