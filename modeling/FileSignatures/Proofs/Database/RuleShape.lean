import FileSignatures.Proofs.Database.Line

/-!
# The shape of parsed rules

A rule has five fields that depend on each other: type, mask, operator, operand
and capture. Matching never checks that they fit together; it relies on the
reader of databases for that. This module says what fits, and that every rule of
a parsed database does.

`Rule.WellFormed` is the representation invariant. Numbers are compared with
numbers and capture nothing. Strings have no mask and know three comparisons
only, each with its own kind of operand, and capture exactly where the operand
does not fix their length. Pointers are numbers.

Each field of a line is read by a function of its own, so the invariant is
assembled from one lemma per function, and then carried through the reading of
all lines (`ofText_all`), which works for any property of single lines.

## Main definitions

* `StringComparison`: The comparisons that strings know.
* `Rule.WellFormed`: The fields of a rule fit together.
* `Signature.rules`: The rules of a signature.
* `RuleSet.WellFormed`: All rules of a rule set are well-formed.
* `Database.sampleText`, `Database.sampleRules`: A small database and its rules.

## Theorems

* `wellFormed_of_ruleOf`: A line denotes a well-formed rule.
* `add?_cases`: What a rule does to a draft.
* `ofText_eq_ok_iff_exists_draft`: A text is read into a draft.
* `ofText_all`: What holds of every line's rule holds of a parsed rule set.
* `wellFormed_of_ofText`: A parsed rule set is well-formed.
-/

namespace FileSignatures

/-- The comparisons of strings: with an operand of its own length, with the
    first byte of the operand, and with nothing in particular. The last two
    capture as many bytes as the description says. -/
inductive StringComparison (description : Text) : Operator → Value → Option Nat → Prop
  | equal (content : List UInt8) : StringComparison description .equal (.bytes content) none
  | greater (first : UInt8) (limit : Nat) (h : Template.captureLength description = .ok limit) :
      StringComparison description .greater (.bytes [first]) (some limit)
  | any (limit : Nat) (h : Template.captureLength description = .ok limit) :
      StringComparison description .any (.bytes (List.replicate Template.defaultCapture 0))
        (some limit)

/-- The fields of a rule fit together. -/
structure Rule.WellFormed (rule : Rule) : Prop where
  number_operand : rule.type.isNumeric = true → ∃ n, rule.operand = .number n
  number_capture : rule.type.isNumeric = true → rule.capture = none
  string_mask : rule.type.isNumeric = false → rule.mask = Value.fullMask
  string_comparison : rule.type.isNumeric = false →
    StringComparison rule.description rule.operator rule.operand rule.capture
  pointer_width : ∀ pointer, rule.offset = .indirect pointer → pointer.width.isNumeric = true

/-- The rules of a signature: its head and all sub-rules. -/
def Signature.rules (signature : Signature) : List Rule :=
  signature.head :: (signature.continuations ++ signature.extras)

/-- A rule of a signature is its head or one of the sub-rules of either kind. -/
theorem Signature.forall_rules_iff (P : Rule → Prop) (signature : Signature) :
    (∀ rule ∈ signature.rules, P rule) ↔ P signature.head
      ∧ (∀ rule ∈ signature.continuations, P rule) ∧ ∀ rule ∈ signature.extras, P rule := by
  simp only [Signature.rules, List.mem_cons, List.mem_append, or_imp, forall_and,
    forall_eq]

/-- All rules of a rule set are well-formed. -/
def RuleSet.WellFormed (rules : RuleSet) : Prop :=
  ∀ signature ∈ rules.signatures, ∀ rule ∈ signature.rules, rule.WellFormed

namespace Database

theorem isNumeric_of_ofWidthLetter? (letter : Char) (type : ValueType)
    (h : ValueType.ofWidthLetter? letter = some type) : type.isNumeric = true := by
  unfold ValueType.ofWidthLetter? at h
  split at h <;> first
    | exact absurd h (by simp only [reduceCtorEq, not_false_eq_true])
    | (rw [Option.some.injEq] at h; rw [← h]; rfl)

/-- The pointer of an indirect offset is a number. -/
theorem isNumeric_of_ofText? (token : Text) (pointer : Pointer)
    (h : Offset.ofText? token = .ok (.indirect pointer)) : pointer.width.isNumeric = true := by
  unfold Offset.ofText? at h
  split at h
  · unfold Offset.ofIndirectText? at h
    split at h
    · exact absurd h (by simp only [reduceCtorEq, not_false_eq_true])
    · exact absurd h (by simp only [reduceCtorEq, not_false_eq_true])
    · split at h
      · exact absurd h (by simp only [reduceCtorEq, not_false_eq_true])
      · -- The width letter stands for a type, and only numbers have one.
        rename_i width hwidth
        split at h
        · rw [Except.ok.injEq, Offset.indirect.injEq] at h
          rw [← h]
          exact isNumeric_of_ofWidthLetter? _ width hwidth
        · exact absurd h (by simp only [reduceCtorEq, not_false_eq_true])
  · split at h <;> simp only [Except.ok.injEq, reduceCtorEq] at h

/-- Only numbers have a mask. -/
theorem mask_of_typeOf (token : Text) (type : ValueType) (mask : UInt64)
    (h : typeOf token = .ok (type, mask)) (hstring : type.isNumeric = false) :
    mask = Value.fullMask := by
  unfold typeOf at h
  split at h
  · unfold keywordType at h
    split at h
    · simp only [Except.map, Except.ok.injEq, Prod.mk.injEq] at h
      exact h.2.symm
    · simp only [Except.map, reduceCtorEq] at h
  · -- A type that has a mask must be a number, so it is none of the strings.
    rcases except_bind_eq_ok _ _ _ h with ⟨named, -, h⟩
    split at h
    · rename_i hnumeric
      split at h
      · simp only [Except.ok.injEq, Prod.mk.injEq] at h
        rw [← h.1, hnumeric] at hstring
        exact absurd hstring (by simp only [reduceCtorEq, not_false_eq_true])
      · simp only [reduceCtorEq] at h
    · simp only [reduceCtorEq] at h

/-- A number is compared with a number, and the comparison by itself weighs nothing. -/
theorem comparison_of_numericComparisonOf (token : Text) (comparison : Comparison)
    (h : numericComparisonOf token = .ok comparison) :
    ∃ operator n, comparison = ⟨operator, .number n, 0⟩ := by
  -- With an operator in front or without, the rest is read in the same way.
  have hmap : ∀ (operator : Operator) (text : Text),
      (numberOf text).map (fun n => (⟨operator, .number n, 0⟩ : Comparison)) = .ok comparison →
        ∃ n, comparison = ⟨operator, .number n, 0⟩ := by
    intro operator text hnumber
    cases hn : numberOf text with
    | error e =>
        rw [hn] at hnumber
        exact absurd hnumber (by simp only [Except.map, reduceCtorEq, not_false_eq_true])
    | ok n =>
        rw [hn, Except.map, Except.ok.injEq] at hnumber
        exact ⟨n, hnumber.symm⟩
  unfold numericComparisonOf at h
  split at h
  · exact absurd h (by simp only [reduceCtorEq, not_false_eq_true])
  · split at h
    · exact ⟨_, hmap _ _ h⟩
    · exact ⟨_, hmap _ _ h⟩

/-- A string is compared for equality, or with a first byte. -/
theorem comparison_of_stringComparisonOf (type : ValueType) (token : Text)
    (comparison : Comparison) (h : stringComparisonOf type token = .ok comparison) :
    (∃ content, comparison.operator = .equal ∧ comparison.operand = .bytes content)
      ∨ ∃ first, comparison.operator = .greater ∧ comparison.operand = .bytes [first] := by
  unfold stringComparisonOf at h
  split at h
  · exact absurd h (by simp only [reduceCtorEq, not_false_eq_true])
  · rw [Except.ok.injEq] at h
    exact Or.inl ⟨_, by rw [← h], by rw [← h]⟩
  · split at h
    · exact absurd h (by simp only [reduceCtorEq, not_false_eq_true])
    · -- Of what stands behind the greater sign only the first byte is kept.
      rename_i first _ _
      rw [Except.ok.injEq] at h
      exact Or.inr ⟨first, by rw [← h], by rw [← h]⟩
  · rw [Except.ok.injEq] at h
    exact Or.inl ⟨_, by rw [← h], by rw [← h]⟩

theorem capture_of_numeric (type : ValueType) (operator : Operator) (description : Text)
    (capture : Option Nat) (h : captureOf type operator description = .ok capture)
    (hnumeric : type.isNumeric = true) : capture = none := by
  unfold captureOf at h
  simp only [hnumeric, Bool.not_true, Bool.false_and, Bool.false_eq_true, if_false,
    Except.ok.injEq] at h
  exact h.symm

theorem capture_of_equal (type : ValueType) (description : Text) (capture : Option Nat)
    (h : captureOf type .equal description = .ok capture) : capture = none := by
  unfold captureOf at h
  simp only [reduceCtorEq, decide_false, Bool.or_self, Bool.and_false, Bool.false_eq_true,
    if_false, Except.ok.injEq] at h
  exact h.symm

/-- Every other string captures as many bytes as its description says. -/
theorem capture_of_string (type : ValueType) (operator : Operator) (description : Text)
    (capture : Option Nat) (h : captureOf type operator description = .ok capture)
    (hstring : type.isNumeric = false) (hopen : operator = .any ∨ operator = .greater) :
    ∃ limit, Template.captureLength description = .ok limit ∧ capture = some limit := by
  have hguard : (!type.isNumeric && (operator = .any || operator = .greater)) = true := by
    rcases hopen with rfl | rfl <;> rw [hstring] <;> rfl
  unfold captureOf at h
  rw [if_pos hguard] at h
  split at h
  · rename_i limit hlimit
    rw [Except.ok.injEq] at h
    exact ⟨limit, hlimit, h.symm⟩
  · exact absurd h (by simp only [reduceCtorEq, not_false_eq_true])

/-- What a comparison and a capture of strings are together. -/
theorem stringComparison_of_comparisonOf (type : ValueType) (token description : Text)
    (comparison : Comparison) (capture : Option Nat)
    (hcomparison : comparisonOf type token = .ok comparison)
    (hcapture : captureOf type comparison.operator description = .ok capture)
    (hstring : type.isNumeric = false) :
    StringComparison description comparison.operator comparison.operand capture := by
  unfold comparisonOf at hcomparison
  split at hcomparison
  · -- The comparison with anything, whose operand is a placeholder.
    rw [Except.ok.injEq] at hcomparison
    subst hcomparison
    rcases capture_of_string _ _ _ _ hcapture hstring (Or.inl rfl) with ⟨limit, hlimit, rfl⟩
    simp only [Value.placeholder, hstring, Bool.false_eq_true, if_false]
    exact .any limit hlimit
  · rw [if_neg (by rw [hstring]; exact Bool.false_ne_true)] at hcomparison
    rcases comparison_of_stringComparisonOf _ _ _ hcomparison with
      ⟨content, hop, hval⟩ | ⟨first, hop, hval⟩
    · rw [hop] at hcapture ⊢
      rw [hval, capture_of_equal _ _ _ hcapture]
      exact .equal content
    · rcases capture_of_string _ _ _ _ hcapture hstring (Or.inr hop) with ⟨limit, hlimit, rfl⟩
      rw [hop, hval]
      exact .greater first limit hlimit

/-- A number's comparison has a number as its operand, also that with anything. -/
theorem operand_of_comparisonOf (type : ValueType) (token : Text) (comparison : Comparison)
    (h : comparisonOf type token = .ok comparison) (hnumeric : type.isNumeric = true) :
    ∃ n, comparison.operand = .number n := by
  unfold comparisonOf at h
  split at h
  · rw [Except.ok.injEq] at h
    refine ⟨0, ?_⟩
    rw [← h]
    simp only [Value.placeholder, hnumeric, if_true]
  · obtain ⟨_, n, rfl⟩ := comparison_of_numericComparisonOf token comparison h
    exact ⟨n, rfl⟩

theorem wellFormed_of_ruleOfFields (line : Nat) (offset type comparison description : Text)
    (rule : Rule) (h : ruleOfFields line offset type comparison description = .ok rule) :
    rule.WellFormed := by
  rcases (ruleOfFields_eq_ok_iff line offset type comparison description rule).1 h with
    ⟨hoffset, htype, ⟨weight, hcompared, -⟩, hcapture, -, hdescription⟩
  rw [← hdescription] at hcapture
  -- Each condition is a result about the field that decides it.
  exact {
    number_operand := operand_of_comparisonOf rule.type comparison _ hcompared
    number_capture := capture_of_numeric rule.type rule.operator _ _ hcapture
    string_mask := mask_of_typeOf type rule.type rule.mask htype
    string_comparison := stringComparison_of_comparisonOf rule.type comparison _ _ _ hcompared
      hcapture
    pointer_width := fun pointer hpointer =>
      isNumeric_of_ofText? offset pointer (hpointer ▸ hoffset) }

theorem wellFormed_of_ruleOf (number : Nat) (line : Text) (kind : LineKind) (rule : Rule)
    (h : ruleOf number line = .ok (kind, rule)) : rule.WellFormed := by
  rcases (ruleOf_eq_ok_iff number line kind rule).1 h with
    ⟨offset, type, comparison, more, -, -, hrule⟩
  exact wellFormed_of_ruleOfFields _ _ _ _ _ _ hrule

/-- What a rule does to a draft, by cases: it opens the first signature, it finishes the
    open one and opens the next, or it joins the open one as a continuation or as an
    extra-info rule. -/
theorem add?_cases (draft next : Draft) (kind : LineKind) (rule : Rule)
    (h : draft.add? kind rule = some next) :
    (kind = .topLevel ∧ draft.current = none
      ∧ next = ⟨draft.finished, some ⟨rule, [], []⟩⟩)
    ∨ (∃ done, kind = .topLevel ∧ draft.current = some done
      ∧ next = ⟨draft.finished.push done, some ⟨rule, [], []⟩⟩)
    ∨ (∃ signature, kind = .continuation ∧ draft.current = some signature
      ∧ next = ⟨draft.finished,
        some { signature with continuations := signature.continuations ++ [rule] }⟩)
    ∨ ∃ signature, kind = .extraInfo ∧ draft.current = some signature
      ∧ next = ⟨draft.finished, some { signature with extras := signature.extras ++ [rule] }⟩ := by
  unfold Draft.add? at h
  split at h
  · rename_i hnone
    exact Or.inl ⟨rfl, hnone, (Option.some.inj h).symm⟩
  · rename_i done hdone
    exact Or.inr (Or.inl ⟨done, rfl, hdone, (Option.some.inj h).symm⟩)
  · rename_i signature hopen
    exact Or.inr (Or.inr (Or.inl ⟨signature, rfl, hopen, (Option.some.inj h).symm⟩))
  · rename_i signature hopen
    exact Or.inr (Or.inr (Or.inr ⟨signature, rfl, hopen, (Option.some.inj h).symm⟩))
  · -- A sub-rule without a signature is no draft.
    exact absurd h (by simp only [reduceCtorEq, not_false_eq_true])

section Lines

variable {P : Rule → Prop}

/-- All rules of all signatures of a draft have a property. -/
def Draft.All (P : Rule → Prop) (draft : Draft) : Prop :=
  ∀ signature ∈ draft.signatures, ∀ rule ∈ signature.rules, P rule

/-- The signatures of a draft are the finished ones and the current one. -/
theorem Draft.all_iff (draft : Draft) : draft.All P ↔
    (∀ signature ∈ draft.finished.toList, ∀ rule ∈ signature.rules, P rule)
      ∧ ∀ signature ∈ draft.current.toList, ∀ rule ∈ signature.rules, P rule := by
  simp only [Draft.All, Draft.signatures, List.mem_append, or_imp, forall_and]

theorem forall_rules_new (rule : Rule) (hrule : P rule) :
    ∀ r ∈ (Signature.mk rule [] []).rules, P r :=
  (Signature.forall_rules_iff P _).2 ⟨hrule, fun _ h => absurd h List.not_mem_nil,
    fun _ h => absurd h List.not_mem_nil⟩

theorem forall_mem_snoc (rules : List Rule) (rule : Rule) (hrules : ∀ r ∈ rules, P r)
    (hrule : P rule) : ∀ r ∈ rules ++ [rule], P r := by
  intro r hr
  rcases List.mem_append.1 hr with hr | hr
  · exact hrules r hr
  · rw [List.mem_singleton.1 hr]
    exact hrule

theorem all_add? (draft next : Draft) (kind : LineKind) (rule : Rule) (hrule : P rule)
    (hdraft : draft.All P) (h : draft.add? kind rule = some next) : next.All P := by
  rw [Draft.all_iff] at hdraft ⊢
  rcases hdraft with ⟨hfinished, hcurrent⟩
  simp only [Option.mem_toList] at hcurrent ⊢
  rcases add?_cases draft next kind rule h with ⟨-, hnone, rfl⟩ | ⟨done, -, hdone, rfl⟩
    | ⟨signature, -, hopen, rfl⟩ | ⟨signature, -, hopen, rfl⟩
  · -- The first signature is opened.
    refine ⟨hfinished, fun opened hs => ?_⟩
    rw [← Option.some.inj hs]
    exact forall_rules_new rule hrule
  · -- The open signature joins the finished ones.
    refine ⟨fun finished hs => ?_, fun opened hs => ?_⟩
    · rw [Array.toList_push, List.mem_append, List.mem_singleton] at hs
      rcases hs with hs | rfl
      · exact hfinished finished hs
      · exact hcurrent _ hdone
    · rw [← Option.some.inj hs]
      exact forall_rules_new rule hrule
  · -- The open signature grows by a sub-rule of either kind.
    refine ⟨hfinished, fun longer hs => ?_⟩
    rcases (Signature.forall_rules_iff P signature).1 (hcurrent signature hopen) with ⟨hh, hc, he⟩
    rw [← Option.some.inj hs]
    exact (Signature.forall_rules_iff P _).2 ⟨hh, forall_mem_snoc _ rule hc hrule, he⟩
  · refine ⟨hfinished, fun longer hs => ?_⟩
    rcases (Signature.forall_rules_iff P signature).1 (hcurrent signature hopen) with ⟨hh, hc, he⟩
    rw [← Option.some.inj hs]
    exact (Signature.forall_rules_iff P _).2 ⟨hh, hc, forall_mem_snoc _ rule he hrule⟩

/-- One more line keeps a property that every line's rule has. -/
theorem all_addLine (draft next : Draft) (number : Nat) (line : Text)
    (hline : ∀ kind rule, ruleOf number line = .ok (kind, rule) → P rule)
    (hdraft : draft.All P) (h : addLine draft number line = .ok next) : next.All P := by
  unfold addLine at h
  -- A comment leaves the draft alone; a rule line adds its rule.
  split at h
  · split at h
    · exact absurd h (by simp only [reduceCtorEq, not_false_eq_true])
    · rename_i kind rule hrule
      split at h
      · rename_i added hadd
        rw [Except.ok.injEq] at h
        subst h
        exact all_add? draft added kind rule (hline kind rule hrule) hdraft hadd
      · exact absurd h (by simp only [reduceCtorEq, not_false_eq_true])
  · rw [Except.ok.injEq] at h
    subst h
    exact hdraft

/-- All lines together keep it, by induction on the lines. -/
theorem all_addLines (lines : List Text) (draft next : Draft) (number : Nat)
    (hline : ∀ n line kind rule, ruleOf n line = .ok (kind, rule) → P rule)
    (hdraft : draft.All P) (h : addLines draft number lines = .ok next) : next.All P := by
  induction lines generalizing draft number with
  | nil =>
      simp only [addLines, Except.ok.injEq] at h
      rw [← h]
      exact hdraft
  | cons line rest ih =>
      unfold addLines at h
      split at h
      · exact absurd h (by simp only [reduceCtorEq, not_false_eq_true])
      · rename_i added hadd
        exact ih added (number + 1)
          (all_addLine draft added number line (hline number line) hdraft hadd) h

end Lines

end Database

/-- A text is a database if it has a header and the lines below it can be read into a
    draft, whose signatures are those of the database. -/
theorem ofText_eq_ok_iff_exists_draft (text : Text) (rules : RuleSet) :
    RuleSet.ofText text = .ok rules ↔ ∃ lines draft, Database.checkHeaders text.lines = .ok lines
      ∧ Database.addLines .empty 4 lines = .ok draft ∧ rules = ⟨draft.signatures⟩ := by
  unfold RuleSet.ofText
  constructor
  · intro h
    rcases except_bind_eq_ok _ _ _ h with ⟨lines, hlines, h⟩
    rcases except_bind_eq_ok _ _ _ h with ⟨draft, hdraft, h⟩
    exact ⟨lines, draft, hlines, hdraft, (Except.ok.inj h).symm⟩
  · rintro ⟨lines, draft, hlines, hdraft, rfl⟩
    rw [hlines]
    simp only [bind, Except.bind]
    rw [hdraft]

/-- What holds of the rule of every single line holds of all rules of a parsed
    rule set. -/
theorem ofText_all (P : Rule → Prop) (text : Text) (rules : RuleSet)
    (hline : ∀ n line kind rule, Database.ruleOf n line = .ok (kind, rule) → P rule)
    (h : RuleSet.ofText text = .ok rules) :
    ∀ signature ∈ rules.signatures, ∀ rule ∈ signature.rules, P rule := by
  rcases (ofText_eq_ok_iff_exists_draft text rules).1 h with ⟨lines, draft, -, hdraft, rfl⟩
  refine Database.all_addLines lines .empty draft 4 hline (fun signature hs => ?_) hdraft
  exact absurd hs (by simp only [Database.Draft.signatures, Database.Draft.empty,
    Option.toList_none, List.append_nil, List.not_mem_nil, not_false_eq_true])

/-- A parsed rule set is well-formed. -/
theorem wellFormed_of_ofText (text : Text) (rules : RuleSet)
    (h : RuleSet.ofText text = .ok rules) : rules.WellFormed :=
  ofText_all Rule.WellFormed text rules Database.wellFormed_of_ruleOf h

namespace Database

/-- A small database with a rule of each of the three kinds. -/
def sampleText : Text :=
  "# FILE_ID DB\n# Date:\n# Source:\n".toList ++ "0\tstring\tAB\tP [ext=ab]\n".toList
    ++ "&2\tbyte\t>0x10\n".toList ++ ">(3.b+1)\tstring\tx\t[chn=%.4s]".toList

/-- The rules of the small database. -/
def sampleRules : RuleSet where
  signatures := [{
    head := ⟨4, .direct 0, .string, Value.fullMask, .equal, .bytes [65, 66],
      "P [ext=ab]".toList, none, 2⟩
    continuations := [⟨5, .direct 2, .byte, Value.fullMask, .greater, .number 16, [], none, 1⟩]
    extras := [⟨6, .indirect ⟨3, .byte, 1⟩, .string, Value.fullMask, .any,
      .bytes (List.replicate Template.defaultCapture 0), "[chn=%.4s]".toList, some 4, 0⟩] }]

theorem ofText_sampleText : RuleSet.ofText sampleText = .ok sampleRules := rfl

end Database

end FileSignatures
