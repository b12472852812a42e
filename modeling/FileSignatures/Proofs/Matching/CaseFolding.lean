import FileSignatures.Proofs.Database.Representation
import FileSignatures.Proofs.Matching.Verdict

/-!
# Rules without regard to case

Where case does not count, it is folded in two places: in the operand when a database is
read, and in the bytes of a resource when a rule is tested, behind the search for the zero
byte of a capture. Folding commutes with everything in between. It changes the length of
no string and the place of no zero byte, so a rule at a direct offset has the same value
on some bytes and on the same bytes folded (`valueIn?_map_upperByte`); an indirect offset
would read its pointer unfolded.

So a database of such rules tells resources apart by their folded bytes only
(`verdict_congr`), and a comparison for equality holds of the bytes that are the written
operand but for the case of letters (`holdsWith_caseless_iff`).

## Main definitions

* `SameButCase`: Two bytes are the same but for the case of an ASCII letter.
* `Rule.IgnoresCase`, `RuleSet.IgnoresCase`: Rules without regard to case at direct offsets.
* `Database.writtenOperand`: An operand as it is written.

## Theorems

* `sameButCase_iff`: Two bytes are the same but for case if they fold alike.
* `captureAt?_map_upperByte`: Captures of folded bytes.
* `valueIn?_map_upperByte`: Rules cannot tell folded bytes.
* `verdict_congr`: The verdict depends on the values of the rules only.
* `operand_of_caseless`: The operand is the written one, folded.
* `holdsWith_caseless_iff`: When a comparison for equality holds.
* `caseless_rules_ignore_case`: Neither identification nor a comparison can see case.
-/

namespace FileSignatures

/-- Two bytes are the same but for the case of an ASCII letter: the small letters are 97 to
    122, and the capital ones 32 below. -/
inductive SameButCase : UInt8 → UInt8 → Prop
  | same (b : UInt8) : SameButCase b b
  | lower (a b : UInt8) (hlow : 97 ≤ a.toNat) (hhigh : a.toNat ≤ 122)
      (hb : b.toNat + 32 = a.toNat) : SameButCase a b
  | upper (a b : UInt8) (hlow : 97 ≤ b.toNat) (hhigh : b.toNat ≤ 122)
      (ha : a.toNat + 32 = b.toNat) : SameButCase a b

theorem isLowerByte_iff (b : UInt8) : isLowerByte b = true ↔ 97 ≤ b.toNat ∧ b.toNat ≤ 122 := by
  unfold isLowerByte
  rw [Bool.and_eq_true, decide_eq_true_eq, decide_eq_true_eq]

theorem toNat_upperByte (b : UInt8) :
    (upperByte b).toNat = if 97 ≤ b.toNat ∧ b.toNat ≤ 122 then b.toNat - 32 else b.toNat := by
  by_cases hb : 97 ≤ b.toNat ∧ b.toNat ≤ 122
  · have hupper : upperByte b = b - 32 := if_pos hb
    rw [if_pos hb, hupper]
    exact UInt8.toNat_sub_of_le b 32 (Nat.le_trans (by decide) hb.1)
  · rw [if_neg hb, upperByte_eq_self]
    rw [Bool.eq_false_iff, ne_eq, isLowerByte_iff]
    exact hb

/-- Two bytes are the same but for case if they fold alike. -/
theorem sameButCase_iff (a b : UInt8) : SameButCase a b ↔ upperByte a = upperByte b := by
  rw [← UInt8.toNat_inj, toNat_upperByte, toNat_upperByte]
  constructor
  · intro h
    cases h with
    | same => rfl
    | lower hlow hhigh hb => split_ifs <;> omega
    | upper hlow hhigh ha => split_ifs <;> omega
  · intro h
    -- Four cases: each of the two bytes is a small letter or is not.
    by_cases ha : 97 ≤ a.toNat ∧ a.toNat ≤ 122
    · by_cases hb : 97 ≤ b.toNat ∧ b.toNat ≤ 122
      · rw [if_pos ha, if_pos hb] at h
        have hsame : a = b := UInt8.toNat_inj.1 (by omega)
        exact hsame ▸ .same a
      · rw [if_pos ha, if_neg hb] at h
        exact .lower a b ha.1 ha.2 (by omega)
    · by_cases hb : 97 ≤ b.toNat ∧ b.toNat ≤ 122
      · rw [if_neg ha, if_pos hb] at h
        exact .upper a b hb.1 hb.2 (by omega)
      · rw [if_neg ha, if_neg hb] at h
        have hsame : a = b := UInt8.toNat_inj.1 h
        exact hsame ▸ .same a

theorem forall₂_sameButCase_iff (first second : List UInt8) :
    List.Forall₂ SameButCase first second ↔ first.map upperByte = second.map upperByte := by
  have hrelation : SameButCase = fun a b => upperByte a = upperByte b := by
    funext a b
    exact propext (sameButCase_iff a b)
  rw [hrelation, ← List.forall₂_eq_eq_eq, List.forall₂_map_left_iff, List.forall₂_map_right_iff]

theorem upperByte_upperByte (b : UInt8) : upperByte (upperByte b) = upperByte b :=
  upperByte_eq_self _ (isLowerByte_upperByte b)

/-- Only the zero byte folds to it. -/
theorem upperByte_eq_zero_iff (b : UInt8) : upperByte b = 0 ↔ b = 0 := by
  rw [← UInt8.toNat_inj, ← UInt8.toNat_inj, toNat_upperByte, UInt8.toNat_zero]
  split_ifs <;> omega

/-- Folding changes no place of a read. -/
theorem stretch?_map_upperByte (content : List UInt8) (position count : Nat) :
    stretch? (content.map upperByte) position count
      = (stretch? content position count).map (List.map upperByte) := by
  unfold stretch?
  rw [List.length_map]
  split
  · rw [Option.map_some, List.map_take, List.map_drop]
  · rfl

theorem captureAt?_map_upperByte (content : List UInt8) (limit position : Nat) :
    captureAt? (content.map upperByte) limit position
      = (captureAt? content limit position).map (List.map upperByte) := by
  -- One byte a step: it ends the capture if and only if it does so folded.
  induction limit generalizing position with
  | zero => rfl
  | succ limit ih =>
      rw [captureAt?, captureAt?, stretch?_map_upperByte, stretch?_one]
      cases (content.drop position).head? with
      | none => rfl
      | some b =>
          simp only [Option.map_some, Option.bind_some, List.map_cons, List.map_nil,
            List.headD_cons, upperByte_eq_zero_iff, ih]
          by_cases hb : b = 0
          · simp only [hb, if_true]
            rfl
          · simp only [hb, if_false, Option.map_map]
            rfl

/-- A rule reads without regard to case, at an offset that no byte decides on. -/
def Rule.IgnoresCase (rule : Rule) : Prop :=
  rule.type = .caselessString ∧ ∃ base, rule.offset = .direct base

/-- All rules of a rule set do. -/
def RuleSet.IgnoresCase (rules : RuleSet) : Prop :=
  ∀ signature ∈ rules.signatures, ∀ rule ∈ signature.rules, rule.IgnoresCase

/-- Such a rule has the same value on folded bytes, since folding twice is folding once. -/
theorem valueIn?_map_upperByte (rule : Rule) (h : rule.IgnoresCase) (size : Nat)
    (content : List UInt8) :
    rule.valueIn? size (content.map upperByte) = rule.valueIn? size content := by
  obtain ⟨htype, base, hoffset⟩ := h
  have htwice : ∀ bytes : List UInt8,
      rule.type.foldCase (bytes.map upperByte) = rule.type.foldCase bytes := by
    intro bytes
    rw [htype]
    unfold ValueType.foldCase
    simp only [List.map_map]
    exact List.map_congr_left fun b _ => upperByte_upperByte b
  have hstring : ¬rule.isNumeric = true := by
    unfold Rule.isNumeric
    rw [htype]
    exact Bool.false_ne_true
  have hvalue : ∀ position, rule.valueAt? (content.map upperByte) position
      = rule.valueAt? content position := by
    intro position
    unfold Rule.valueAt?
    rw [if_neg hstring, if_neg hstring, captureAt?_map_upperByte, stretch?_map_upperByte,
      ← apply_ite (Option.map (List.map upperByte)), Option.map_map]
    simp only [Function.comp_def, htwice]
  -- No byte is read for the position; for an indirect offset this would fail.
  have htarget : rule.offset.target? size (content.map upperByte)
      = rule.offset.target? size content := by
    rw [hoffset]
    rfl
  unfold Rule.valueIn?
  rw [htarget]
  simp only [funext hvalue]

/-- The verdict depends on the values of the rules only. -/
theorem verdict_congr (rules : RuleSet) (evaluator : Evaluator) (size : Nat)
    (first second : List UInt8)
    (h : ∀ signature ∈ rules.signatures, ∀ rule ∈ signature.rules,
      rule.valueIn? size first = rule.valueIn? size second) :
    rules.verdict evaluator size first = rules.verdict evaluator size second := by
  have hholds : ∀ signature ∈ rules.signatures,
      signature.holdsIn size first = signature.holdsIn size second := by
    intro signature hmem
    obtain ⟨hhead, hcontinuations, -⟩ := (Signature.forall_rules_iff _ signature).1
      (h signature hmem)
    unfold Signature.holdsIn
    rw [Bool.eq_iff_iff, List.all_eq_true, List.all_eq_true]
    refine forall₂_congr fun rule hrule => ?_
    rcases List.mem_cons.1 hrule with rfl | hmember
    · rw [hhead]
    · rw [hcontinuations rule hmember]
  -- The same signatures hold, so the same one wins, and its extra rules add the same.
  have hwinner : RuleSet.winnerIn? size first rules.signatures
      = RuleSet.winnerIn? size second rules.signatures := by
    unfold RuleSet.winnerIn?
    rw [List.filter_congr hholds]
  unfold RuleSet.verdict
  rw [hwinner]
  cases hfound : RuleSet.winnerIn? size second rules.signatures with
  | none => rfl
  | some winner =>
      have hmem := (mem_of_winnerIn? size second rules.signatures winner hfound).1
      have hextras := ((Signature.forall_rules_iff _ winner).1 (h winner hmem)).2.2
      have hadded : Rule.contributionsIn size first winner.extras
          = Rule.contributionsIn size second winner.extras := by
        unfold Rule.contributionsIn
        refine List.flatMap_congr fun rule hrule => ?_
        rw [hextras rule hrule]
      simp only [hadded]

/-- A database of such rules cannot see case. -/
theorem identifyBytes_of_sameButCase (rules : RuleSet) (hrules : rules.WellFormed)
    (hcase : rules.IgnoresCase) (evaluator : Evaluator) (d e : Array UInt8)
    (h : List.Forall₂ SameButCase d.toList e.toList) :
    rules.identifyBytes evaluator d = rules.identifyBytes evaluator e := by
  have hsize : d.size = e.size := by
    rw [← Array.length_toList, ← Array.length_toList]
    exact h.length_eq
  have hfolded := (forall₂_sameButCase_iff d.toList e.toList).1 h
  have hverdict : rules.verdict evaluator d.size d.toList
      = rules.verdict evaluator d.size e.toList := by
    refine verdict_congr rules evaluator d.size d.toList e.toList
      fun signature hmem rule hrule => ?_
    -- Both resources have the same folded bytes.
    rw [← valueIn?_map_upperByte rule (hcase signature hmem rule hrule), hfolded,
      valueIn?_map_upperByte rule (hcase signature hmem rule hrule)]
  rw [identifyBytes_eq_verdict rules evaluator hrules, identifyBytes_eq_verdict rules evaluator
    hrules, hverdict, hsize]

namespace Database

/-- An operand as it is written, without the sign for equality. -/
def writtenOperand : Text → Text
  | '=' :: rest => rest
  | token => token

/-- What a rule without regard to case compares for equality with is the written operand,
    unescaped and folded. -/
theorem operand_of_caseless (token : Text) (operand : Value) (weight : Nat)
    (h : comparisonOf .caselessString token = .ok ⟨.equal, operand, weight⟩) :
    operand = .bytes ((unescape (writtenOperand token)).map upperByte) := by
  have hstring : ValueType.caselessString.isNumeric = false := rfl
  unfold comparisonOf at h
  split at h
  · simp only [Except.ok.injEq, Comparison.mk.injEq, reduceCtorEq, false_and] at h
  · rw [if_neg (by rw [hstring]; exact Bool.false_ne_true)] at h
    unfold stringComparisonOf at h
    split at h
    · exact absurd h (by simp only [reduceCtorEq, not_false_eq_true])
    · rw [Except.ok.injEq, Comparison.mk.injEq] at h
      exact h.2.1.symm
    · -- Only the sign for equality makes it one.
      split at h
      · exact absurd h (by simp only [reduceCtorEq, not_false_eq_true])
      · simp only [Except.ok.injEq, Comparison.mk.injEq, reduceCtorEq, false_and] at h
    · rename_i _ hequal _
      rw [Except.ok.injEq, Comparison.mk.injEq] at h
      have hwritten : writtenOperand token = token := by
        unfold writtenOperand
        split
        · exact absurd rfl (hequal _)
        · rfl
      rw [hwritten]
      exact h.2.1.symm

end Database

/-- A comparison for equality holds at a position if the bytes there are the operand but for
    case. -/
theorem holdsWith_caseless_iff (d : List UInt8) (rule : Rule) (start : Nat) (written : List UInt8)
    (htype : rule.type = .caselessString) (hoperator : rule.operator = .equal)
    (hoperand : rule.operand = .bytes (written.map upperByte))
    (hleads : rule.offset.LeadsTo d start) :
    (∃ value, rule.HoldsWith d value)
      ↔ List.Forall₂ SameButCase ((d.drop start).take written.length) written := by
  have hstring : rule.type.isNumeric = false := by
    rw [htype]
    rfl
  have hvalue : ∀ bytes, rule.valueOf bytes = .bytes (bytes.map upperByte) := by
    intro bytes
    rw [valueOf_of_string rule bytes hstring, htype]
    rfl
  have hsize : rule.operand.size = written.length := by
    rw [hoperand]
    exact List.length_map _
  have hreads := fun bytes =>
    reads_of_equal_iff d rule start bytes (leadsTo_le _ _ _ hleads) hstring hoperator
  simp only [stretch?_eq_some_iff, hsize] at hreads
  -- The offset leads to one place only, so what is compared is what stands there.
  constructor
  · rintro ⟨-, other, bytes, hother, hread, rfl, haccepts⟩
    rw [leadsTo_unique d rule.offset other start hother hleads] at hread
    obtain ⟨-, rfl⟩ := (hreads bytes).1 hread
    rw [hoperator, hoperand, hvalue] at haccepts
    have hsame := (holdsOnBytes?_iff .equal _ _).2 haccepts
    simp only [Operator.holdsOnBytes?, Option.some.injEq, decide_eq_true_eq] at hsame
    exact (forall₂_sameButCase_iff _ _).2 hsame
  · intro h
    have hlength := h.length_eq
    rw [List.length_take, List.length_drop] at hlength
    refine ⟨_, start, _, hleads, (hreads _).2 ⟨by omega, rfl⟩, rfl, ?_⟩
    rw [hoperator, hoperand, hvalue, (forall₂_sameButCase_iff _ _).1 h]
    exact .equal _

/-- Rules without regard to case cannot see it. Resources that are the same but for the case
    of letters are identified alike by a database of such rules, captured text included; and
    where a comparison for equality leads to a position, it holds exactly if the bytes there
    are its written operand, unescaped, but for case. -/
theorem caseless_rules_ignore_case :
    (∀ (text : Text) (rules : RuleSet) (evaluator : Evaluator) (d e : Array UInt8),
      RuleSet.ofText text = .ok rules → rules.IgnoresCase →
      List.Forall₂ SameButCase d.toList e.toList →
      rules.identifyBytes evaluator d = rules.identifyBytes evaluator e)
    ∧ ∀ (number : Nat) (line offset type token : Text) (more : List Text) (kind : LineKind)
        (rule : Rule) (d : Array UInt8) (source : SeekableSource) (start : Nat),
      Database.ruleOf number line = .ok (kind, rule) →
      Database.fields line = .ok (offset :: type :: token :: more) →
      rule.type = .caselessString → rule.operator = .equal →
      rule.offset.LeadsTo d.toList start → source.medium = ⟨d, d.size, none⟩ →
      let written := unescape (Database.writtenOperand token)
      ∃ answer settled, rule.test d.size source = .ok answer settled
        ∧ (answer ≠ none
          ↔ List.Forall₂ SameButCase ((d.toList.drop start).take written.length) written) := by
  refine ⟨fun text rules evaluator d e hparse hcase h => ?_, fun number line offset type token more
    kind rule d source start hrule hfields htype hoperator hleads hsource => ?_⟩
  · exact identifyBytes_of_sameButCase rules (wellFormed_of_ofText text rules hparse) hcase
      evaluator d e h
  · have hformed := Database.wellFormed_of_ruleOf number line kind rule hrule
    obtain ⟨_, _, _, _, hsame, -, hparts⟩ := (Database.ruleOf_eq_ok_iff number line kind rule).1
      hrule
    simp only [hfields, Except.ok.injEq, List.cons.injEq] at hsame
    obtain ⟨-, -, rfl, -⟩ := hsame
    obtain ⟨-, -, ⟨weight, hcompared, -⟩, -⟩ :=
      (Database.ruleOfFields_eq_ok_iff _ _ _ _ _ rule).1 hparts
    rw [htype, hoperator] at hcompared
    -- The operand of the rule is the unescaped token, folded.
    have hoperand := Database.operand_of_caseless token rule.operand weight hcompared
    obtain ⟨settled, hrun, -⟩ := test_of_bytes rule hformed d source hsource
    refine ⟨_, settled, hrun, ?_⟩
    rw [← holdsWith_caseless_iff d.toList rule start _ htype hoperator hoperand hleads,
      Option.ne_none_iff_exists', ← Array.length_toList]
    simp only [valueIn?_eq_some_iff d.toList rule hformed]

namespace Database

/-- A continuation whose operand has an escaped letter. -/
def caselessLine : Text :=
  "&2\tistring\t=c\\x64".toList

/-- A database of rules without regard to case, one of which captures. -/
def caselessText : Text :=
  "# FILE_ID DB\n# Date:\n# Source:\n0\tstring/c\tAb\tP \n".toList
    ++ (caselessLine ++ "\n>4\tstring/c\tx\t[title=%s]".toList)

/-- The rule of the line. -/
def caselessRule : Rule :=
  ⟨5, .direct 2, .caselessString, Value.fullMask, .equal, .bytes [67, 68], [], none, 2⟩

/-- Its signature, the only one of the database. -/
def caselessSignature : Signature where
  head := ⟨4, .direct 0, .caselessString, Value.fullMask, .equal, .bytes [65, 66], "P ".toList,
    none, 2⟩
  continuations := [caselessRule]
  extras := [⟨6, .direct 4, .caselessString, Value.fullMask, .any,
    .bytes (List.replicate Template.defaultCapture 0), "[title=%s]".toList, some 255, 0⟩]

end Database

open Database

theorem ofText_caselessText : RuleSet.ofText caselessText = .ok ⟨[caselessSignature]⟩ := rfl

theorem ignoresCase_caselessSignature : RuleSet.IgnoresCase ⟨[caselessSignature]⟩ := by
  intro signature hmem
  rw [List.mem_singleton.1 hmem]
  refine (Signature.forall_rules_iff _ _).2 ⟨⟨rfl, 0, rfl⟩, fun rule hrule => ?_,
    fun rule hrule => ?_⟩
  · rw [List.mem_singleton.1 hrule]
    exact ⟨rfl, 2, rfl⟩
  · rw [List.mem_singleton.1 hrule]
    exact ⟨rfl, 4, rfl⟩

/-- A title that is captured in either case, behind a letter that is written as its code. -/
theorem caseless_rules_ignore_case_of_title :
    (∃ result, RuleSet.identifyBytes ⟨[caselessSignature]⟩ .arithmetic
          #[97, 66, 99, 68, 104, 105, 0] = .ok result
        ∧ RuleSet.identifyBytes ⟨[caselessSignature]⟩ .arithmetic
          #[65, 98, 67, 68, 72, 105, 0] = .ok result
        ∧ result.description = "P [title=HI]".toList)
      ∧ unescape (writtenOperand "=c\\x64".toList) = [99, 100]
      ∧ ∃ answer settled, caselessRule.test 7
          (SeekableSource.ofBytes #[97, 66, 99, 68, 104, 105, 0]) = .ok answer settled
        ∧ answer ≠ none := by
  -- The bytes differ in the case of four letters; the three others are the same.
  have hbytes : List.Forall₂ SameButCase [65, 98, 67, 68, 72, 105, 0]
      [97, 66, 99, 68, 104, 105, 0] :=
    .cons (.upper _ _ (by decide) (by decide) rfl) (.cons (.lower _ _ (by decide) (by decide) rfl)
      (.cons (.upper _ _ (by decide) (by decide) rfl) (.cons (.same _)
        (.cons (.upper _ _ (by decide) (by decide) rfl) (.cons (.same _) (.cons (.same _) .nil))))))
  have hwritten : unescape (writtenOperand "=c\\x64".toList) = [99, 100] := rfl
  have halike := caseless_rules_ignore_case.1 caselessText ⟨[caselessSignature]⟩ .arithmetic
    #[65, 98, 67, 68, 72, 105, 0] #[97, 66, 99, 68, 104, 105, 0] ofText_caselessText
    ignoresCase_caselessSignature hbytes
  obtain ⟨answer, settled, hrun, hiff⟩ := caseless_rules_ignore_case.2 5 caselessLine _ _ _ _ _
    caselessRule #[97, 66, 99, 68, 104, 105, 0] (SeekableSource.ofBytes _) 2
    (show ruleOf 5 caselessLine = .ok (.continuation, caselessRule) from rfl)
    (show fields caselessLine = .ok ["&2".toList, "istring".toList, "=c\\x64".toList] from rfl) rfl
    rfl (.direct 2 2 ⟨by decide, rfl⟩) rfl
  refine ⟨⟨_, rfl, halike.trans rfl, rfl⟩, hwritten, answer, settled, hrun, hiff.2 ?_⟩
  exact .cons (.same 99) (.cons (.upper 68 100 (by decide) (by decide) rfl) .nil)

end FileSignatures
