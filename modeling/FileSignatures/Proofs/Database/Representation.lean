import FileSignatures.Proofs.Database.Grouping

/-!
# The representation invariant

Matching reads the fields of a rule without checking that they fit together. What
it relies on, for every rule of a parsed database and whatever its kind is, is
collected here in one structure: `Rule.Represented` for the fields of a rule, and
`RuleSet.Represented` with the positions of the lines as well.

`Rule.WellFormed` has most of it, from the field readers. What it leaves out comes
from three places. Operands without regard to case are folded before they are
stored, so no letter in lower case is left in them (`caseless_of_ruleOf`). A
description is a field of a line, so neither tabs nor line feeds get into it. And
the reading order puts sub-rules below their heads.

## Main definitions

* `isLowerByte`: A byte that folding changes.
* `Rule.Represented`: The fields of a rule are as matching expects them.
* `RuleSet.Represented`: So are all rules of a rule set, and their lines.

## Theorems

* `foldCase_eq_self`: Folding changes nothing without letters in lower case.
* `caseless_of_ruleOf`: Operands without regard to case are folded.
* `represented_of_line`: A line denotes a rule that is as matching expects it.
* `represented_of_ofText`: So are all rules of a parsed rule set.
-/

namespace FileSignatures

/-- Whether a byte is an ASCII letter in lower case, which folding changes. -/
def isLowerByte (b : UInt8) : Bool :=
  97 ≤ b.toNat && b.toNat ≤ 122

theorem upperByte_eq_self (b : UInt8) (h : isLowerByte b = false) : upperByte b = b := by
  unfold upperByte
  rw [if_neg]
  rintro ⟨hlow, hhigh⟩
  have hlow' : 97 ≤ b.toNat := hlow
  have hhigh' : b.toNat ≤ 122 := hhigh
  unfold isLowerByte at h
  rw [decide_eq_true hlow', decide_eq_true hhigh'] at h
  exact absurd h (by simp only [Bool.and_self, reduceCtorEq, not_false_eq_true])

theorem isLowerByte_upperByte (b : UInt8) : isLowerByte (upperByte b) = false := by
  by_cases hb : isLowerByte b = true
  · have hrange : 97 ≤ b.toNat ∧ b.toNat ≤ 122 := by
      unfold isLowerByte at hb
      simpa only [Bool.and_eq_true, decide_eq_true_eq] using hb
    have hupper : upperByte b = b - 32 := by
      unfold upperByte
      rw [if_pos ⟨hrange.1, hrange.2⟩]
    -- The capital letters end before the small ones begin.
    have hvalue : (b - 32).toNat = b.toNat - 32 := UInt8.toNat_sub_of_le b 32 (by
      have hle : (32 : UInt8).toNat ≤ b.toNat := Nat.le_trans (by decide) hrange.1
      exact hle)
    unfold isLowerByte
    rw [hupper, hvalue, Bool.and_eq_false_iff, decide_eq_false_iff_not]
    omega
  · rw [Bool.not_eq_true] at hb
    rw [upperByte_eq_self b hb]
    exact hb

/-- Folding changes nothing where there are no letters in lower case. -/
theorem foldCase_eq_self (type : ValueType) (content : List UInt8)
    (h : type = .caselessString → ∀ b ∈ content, isLowerByte b = false) :
    type.foldCase content = content := by
  cases type with
  | caselessString =>
      have hall := h rfl
      unfold ValueType.foldCase
      simp only
      rw [List.map_congr_left (g := id) fun b hb => upperByte_eq_self b (hall b hb), List.map_id]
  | _ => rfl

/-- Folding leaves no letter in lower case. -/
theorem caseless_foldCase (content : List UInt8) (b : UInt8)
    (h : b ∈ ValueType.caselessString.foldCase content) : isLowerByte b = false := by
  rcases List.mem_map.1 h with ⟨original, -, rfl⟩
  exact isLowerByte_upperByte original

/-- The fields of a rule are as matching expects them. -/
structure Rule.Represented (rule : Rule) : Prop where
  /-- Numbers are compared with a number and capture nothing. -/
  number : rule.type.isNumeric = true →
    (∃ n, rule.operand = .number n) ∧ rule.capture = none
  /-- Strings are compared with bytes, unmasked, by one of three operators. -/
  string : rule.type.isNumeric = false → (∃ content, rule.operand = .bytes content)
    ∧ rule.mask = Value.fullMask
    ∧ (rule.operator = .equal ∨ rule.operator = .greater ∨ rule.operator = .any)
  string_greater : rule.type.isNumeric = false → rule.operator = .greater →
    ∃ first, rule.operand = .bytes [first]
  string_any : rule.type.isNumeric = false → rule.operator = .any →
    rule.operand = .bytes (List.replicate 255 0)
  caseless : rule.type = .caselessString → ∀ content, rule.operand = .bytes content →
    ∀ b ∈ content, isLowerByte b = false
  /-- Exactly the strings whose length the operand does not fix capture... -/
  captures : rule.capture.isSome = true ↔
    rule.type.isNumeric = false ∧ (rule.operator = .any ∨ rule.operator = .greater)
  /-- ...and that as many bytes as the description says, which are then read. -/
  capture_length : ∀ limit, rule.capture = some limit →
    Template.captureLength rule.description = .ok limit ∧ rule.readLength = limit
  operand_length : rule.capture = none → rule.readLength = rule.operand.size
  pointer_width : ∀ pointer, rule.offset = .indirect pointer → pointer.width.isNumeric = true
  description : '\t' ∉ rule.description ∧ '\n' ∉ rule.description
  line : 4 ≤ rule.line

/-- All rules of a rule set are as matching expects them, and sub-rules stand below
    the rule that they depend on. -/
structure RuleSet.Represented (rules : RuleSet) : Prop where
  fields : ∀ signature ∈ rules.signatures, ∀ rule ∈ signature.rules, rule.Represented
  sub_rules : ∀ signature ∈ rules.signatures,
    ∀ rule ∈ signature.continuations ++ signature.extras, signature.head.line < rule.line

namespace Database

/-- The operand of a string is folded, or a byte of what is folded, or a
    placeholder. -/
theorem caseless_of_comparisonOf (token : Text) (comparison : Comparison) (content : List UInt8)
    (h : comparisonOf .caselessString token = .ok comparison)
    (hcontent : comparison.operand = .bytes content) : ∀ b ∈ content, isLowerByte b = false := by
  unfold comparisonOf at h
  split at h
  · rw [Except.ok.injEq] at h
    subst h
    rw [← Value.bytes.inj hcontent]
    -- The placeholder consists of zero bytes.
    intro b hb
    rw [(List.mem_replicate.1 hb).2]
    rfl
  · have hstring : ValueType.caselessString.isNumeric = false := rfl
    rw [if_neg (by rw [hstring]; exact Bool.false_ne_true)] at h
    unfold stringComparisonOf at h
    split at h
    · exact absurd h (by simp only [reduceCtorEq, not_false_eq_true])
    · rw [Except.ok.injEq] at h
      subst h
      rw [← Value.bytes.inj hcontent]
      exact caseless_foldCase _
    · split at h
      · exact absurd h (by simp only [reduceCtorEq, not_false_eq_true])
      · rename_i first more hfold
        rw [Except.ok.injEq] at h
        subst h
        rw [← Value.bytes.inj hcontent]
        -- What is stored is the first byte of the folded string.
        intro b hb
        rw [List.mem_singleton.1 hb]
        exact caseless_foldCase _ first (hfold ▸ List.mem_cons_self)
    · rw [Except.ok.injEq] at h
      subst h
      rw [← Value.bytes.inj hcontent]
      exact caseless_foldCase _

/-- An operand that is compared without regard to case is stored folded. -/
theorem caseless_of_ruleOf (number : Nat) (line : Text) (kind : LineKind) (rule : Rule)
    (content : List UInt8) (h : ruleOf number line = .ok (kind, rule))
    (htype : rule.type = .caselessString) (hcontent : rule.operand = .bytes content) :
    ∀ b ∈ content, isLowerByte b = false := by
  rcases (ruleOf_eq_ok_iff number line kind rule).1 h with
    ⟨offset, type, comparison, more, -, -, hrule⟩
  rcases (ruleOfFields_eq_ok_iff number _ type comparison _ rule).1 hrule with
    ⟨-, -, ⟨weight, hcompared, -⟩, -⟩
  rw [htype] at hcompared
  exact caseless_of_comparisonOf comparison _ content hcompared hcontent

/-- Numbered lines are at or below the first of them, and are lines. -/
theorem mem_ruleLinesFrom (number n : Nat) (lines : List Text) (line : Text)
    (h : (line, n) ∈ ruleLinesFrom number lines) : number ≤ n ∧ line ∈ lines := by
  have hmem := List.mem_zipIdx (List.mem_filter.1 h).1
  exact ⟨hmem.1, List.mem_of_getElem hmem.2.2.symm⟩

/-- The operator of a string decides what its operand is and whether it captures. -/
theorem parts_of_stringComparison (description : Text) (operator : Operator) (operand : Value)
    (capture : Option Nat) (h : StringComparison description operator operand capture) :
    (∃ content, operand = .bytes content)
      ∧ (operator = .equal ∨ operator = .greater ∨ operator = .any)
      ∧ (operator = .greater → ∃ first, operand = .bytes [first])
      ∧ (operator = .any → operand = .bytes (List.replicate 255 0))
      ∧ (capture.isSome = true ↔ operator = .any ∨ operator = .greater) := by
  -- The operator is a different one in each case, so most implications are void.
  cases h with
  | equal content =>
      refine ⟨⟨content, rfl⟩, Or.inl rfl, fun h => Operator.noConfusion h,
        fun h => Operator.noConfusion h, ?_⟩
      simp only [Option.isSome_none, Bool.false_eq_true, reduceCtorEq, or_self]
  | greater first limit _ =>
      refine ⟨⟨[first], rfl⟩, Or.inr (Or.inl rfl), fun _ => ⟨first, rfl⟩,
        fun h => Operator.noConfusion h, ?_⟩
      simp only [Option.isSome_some, reduceCtorEq, or_true]
  | any limit _ =>
      refine ⟨⟨_, rfl⟩, Or.inr (Or.inr rfl), fun h => Operator.noConfusion h, fun _ => rfl, ?_⟩
      simp only [Option.isSome_some, reduceCtorEq, or_false]

/-- What is captured is what the description says, for strings only. -/
theorem capture_of_wellFormed (rule : Rule) (hshape : rule.WellFormed) (limit : Nat)
    (h : rule.capture = some limit) : rule.type.isNumeric = false
      ∧ Template.captureLength rule.description = .ok limit ∧ rule.readLength = limit := by
  cases hnumeric : rule.type.isNumeric with
  | true =>
      rw [hshape.number_capture hnumeric] at h
      exact absurd h (by simp only [reduceCtorEq, not_false_eq_true])
  | false =>
      have hcomparison := hshape.string_comparison hnumeric
      rw [h] at hcomparison
      -- Of the three operators of a string only the two that capture are left.
      unfold Rule.readLength
      rw [h]
      generalize rule.operator = operator at hcomparison
      generalize rule.operand = operand at hcomparison
      cases hcomparison with
      | greater _ _ hlimit => exact ⟨rfl, hlimit, rfl⟩
      | any _ hlimit => exact ⟨rfl, hlimit, rfl⟩

/-- A line of a text denotes a rule whose fields are as matching expects them. -/
theorem represented_of_line (text line : Text) (number : Nat) (kind : LineKind) (rule : Rule)
    (hline : (line, number) ∈ ruleLines text) (h : ruleOf number line = .ok (kind, rule)) :
    rule.Represented := by
  have hshape := wellFormed_of_ruleOf number line kind rule h
  have hstring := fun hs => parts_of_stringComparison _ _ _ _ (hshape.string_comparison hs)
  rcases mem_ruleLinesFrom 4 number _ line hline with ⟨hnumber, hmem⟩
  have hnewline := newline_notMem_of_mem_lines text line (List.mem_of_mem_drop hmem)
  rcases description_of_ruleOf number line kind rule h with ⟨htab, hchars⟩
  have hplace := (kind_and_line_of_ruleOf number line kind rule h).2
  -- The description is a piece of a line, so it can hold no separator of either kind.
  refine {
    number := fun hnumeric => ⟨hshape.number_operand hnumeric, hshape.number_capture hnumeric⟩
    string := fun hs => ⟨(hstring hs).1, hshape.string_mask hs, (hstring hs).2.1⟩
    string_greater := fun hs => (hstring hs).2.2.1
    string_any := fun hs => (hstring hs).2.2.2.1
    caseless := fun htype content hcontent =>
      caseless_of_ruleOf number line kind rule content h htype hcontent
    captures := ⟨fun hsome => ?_, fun hopen => (hstring hopen.1).2.2.2.2.2 hopen.2⟩
    capture_length := fun limit hlimit => (capture_of_wellFormed rule hshape limit hlimit).2
    operand_length := fun hnone => ?_
    pointer_width := hshape.pointer_width
    description := ⟨htab, fun hc => hnewline (hchars _ hc)⟩
    line := by rw [hplace]; exact hnumber }
  · rcases Option.isSome_iff_exists.1 hsome with ⟨limit, hlimit⟩
    have hs := (capture_of_wellFormed rule hshape limit hlimit).1
    exact ⟨hs, (hstring hs).2.2.2.2.1 hsome⟩
  · unfold Rule.readLength
    rw [hnone]
    cases rule.operator <;> rfl

end Database

open Database

/-- Every rule of a parsed database is as matching expects it. -/
theorem represented_of_ofText (text : Text) (rules : RuleSet)
    (h : RuleSet.ofText text = .ok rules) : rules.Represented := by
  -- A rule is of one of the three kinds, and a line of that kind denotes it.
  have hkind : ∀ signature ∈ rules.signatures, ∀ kind, ∀ rule ∈ signature.ofKind kind,
      rule.Represented := by
    intro signature hsignature kind rule hrule
    rcases exists_line_of_rule text rules h signature kind rule hsignature hrule with
      ⟨line, hline, -, hdenotes⟩
    exact represented_of_line text line rule.line kind rule hline hdenotes
  refine {
    fields := fun signature hsignature => ?_
    sub_rules := fun signature hsignature rule hrule => ?_ }
  · exact (Signature.forall_rules_iff Rule.Represented signature).2
      ⟨hkind signature hsignature .topLevel _ (List.mem_singleton.2 rfl),
        hkind signature hsignature .continuation, hkind signature hsignature .extraInfo⟩
  · have hbelow := fun kind => head_lt_of_sub_rule text rules h signature kind rule hsignature
    rcases List.mem_append.1 hrule with hrule | hrule
    · exact hbelow .continuation LineKind.noConfusion hrule
    · exact hbelow .extraInfo LineKind.noConfusion hrule

/-- A database with strings of all three operators, one without regard to case. -/
def Database.stringText : Text :=
  "# FILE_ID DB\n# Date:\n# Source:\n0\tstring/c\taB\\x7f\tP\n".toList
    ++ ">4\tstring/c\t>q\t[k=%.9s]\n&(0.S-2)\tstring\tx".toList

/-- The rules of that database. -/
def Database.stringRules : RuleSet where
  signatures := [{
    head := ⟨4, .direct 0, .caselessString, Value.fullMask, .equal, .bytes [65, 66, 127], ['P'],
      none, 3⟩
    continuations := [⟨6, .indirect ⟨0, .beShort, -2⟩, .string, Value.fullMask, .any,
      .bytes (List.replicate Template.defaultCapture 0), [], some 255, 0⟩]
    extras := [⟨5, .direct 4, .caselessString, Value.fullMask, .greater, .bytes [81],
      "[k=%.9s]".toList, some 9, 1⟩] }]

/-- The rules of that database are as matching expects them. -/
theorem represented_of_stringText : RuleSet.ofText stringText = .ok stringRules
    ∧ stringRules.Represented :=
  ⟨rfl, represented_of_ofText stringText stringRules rfl⟩

end FileSignatures
