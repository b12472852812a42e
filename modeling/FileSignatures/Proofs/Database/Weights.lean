import FileSignatures.Proofs.Database.Grouping

/-!
# How specific signatures are

Of the signatures that match, the longest wins, so the weights of rules decide what
a resource is. A rule weighs what its own line says: a number by its type alone,
whatever it is compared with, and a string by the bytes that its operand decodes to.
The length of a signature is the weight of its opening line and of all its
continuation lines.

The weight of a line is computed here from two of its fields (`Database.lineWeight`),
and the lengths of all signatures from the lines, read upwards: what a continuation
adds waits for the opening line above it (`Database.lengthsAbove`). A database is read
downwards and its rules are collected first, so that both agree is a statement about
the grouping of the lines as well.

## Main definitions

* `Rule.ownWeight`: What a rule weighs by its type, operator and operand.
* `Database.writtenLength`, `Database.writtenWeight`: What a comparison weighs as it is
  written.
* `Database.lengthsAbove`: The lengths of signatures, computed from the lines.
* `RuleSet.Weighed`: The weights of a rule set are those of its lines.

## Theorems

* `weight_of_comparisonOf`: A comparison weighs what is written.
* `weight_of_ruleOf`: A rule weighs what its line weighs.
* `lengthsAbove_append`: Of the sub-rules only continuations add to a length.
* `lengthsAbove_entries`: The reading order determines the lengths.
* `weighed_of_ofText`: The weights of a parsed rule set are those of its lines.
-/

namespace FileSignatures

/-- What a rule weighs by its type, operator and operand. -/
def Rule.ownWeight (rule : Rule) : Nat :=
  match rule.type with
  | .byte => 1
  | .leShort | .beShort => 2
  | .leLong | .beLong => 8
  | .string | .caselessString =>
    match rule.operator with
    | .any => 0
    | .greater => 1
    | _ => rule.operand.size

theorem length_foldCase (type : ValueType) (content : List UInt8) :
    (type.foldCase content).length = content.length := by
  cases type with
  | caselessString => exact List.length_map _
  | _ => rfl

namespace Database

/-- What the comparison of a string weighs as it is written: the bytes that its operand
    decodes to. A first character that is no operator of strings belongs to the
    operand. -/
def writtenLength : Text → Nat
  | ['x'] => 0
  | '>' :: _ => 1
  | '=' :: operand => (unescape operand).length
  | operand => (unescape operand).length

/-- What a comparison of a type weighs as it is written. -/
def writtenWeight (type : ValueType) (comparison : Text) : Nat :=
  match type with
  | .byte => 1
  | .leShort | .beShort => 2
  | .leLong | .beLong => 8
  | .string | .caselessString => writtenLength comparison

/-- What a line weighs, by its second and its third field. -/
def lineWeight (line : Text) : Nat :=
  match fields line with
  | .ok (_ :: type :: comparison :: _) =>
    match typeOf type with
    | .ok (type, _) => writtenWeight type comparison
    | .error _ => 0
  | _ => 0

/-- The kinds and the weights of lines. -/
def weighLines (lines : List (Text × Nat)) : List (LineKind × Nat) :=
  lines.map fun line => (lineKind line.1, lineWeight line.1)

/-- The lengths of signatures, computed from the last line to the first, and before
    them the weight of the continuations that have not met their opening line yet. -/
def lengthsAbove : List (LineKind × Nat) → Nat × List Nat
  | [] => (0, [])
  | (kind, weight) :: rest =>
    let (waiting, lengths) := lengthsAbove rest
    match kind with
    | .topLevel => (0, (weight + waiting) :: lengths)
    | .continuation => (weight + waiting, lengths)
    | .extraInfo => (waiting, lengths)

/-- The comparison of a string weighs as many bytes as its operand decodes to, but
    only one byte counts for the order. -/
theorem weight_of_stringComparisonOf (type : ValueType) (token : Text)
    (comparison : Comparison) (hany : token ≠ ['x'])
    (h : stringComparisonOf type token = .ok comparison) :
    comparison.weight = writtenLength token
      ∧ (comparison.operator = .equal ∧ comparison.weight = comparison.operand.size
        ∨ comparison.operator = .greater ∧ comparison.weight = 1) := by
  unfold stringComparisonOf at h
  split at h
  · exact absurd h (by simp only [reduceCtorEq, not_false_eq_true])
  · rw [Except.ok.injEq] at h
    subst h
    exact ⟨length_foldCase type _, Or.inl ⟨rfl, rfl⟩⟩
  · split at h
    · exact absurd h (by simp only [reduceCtorEq, not_false_eq_true])
    · rw [Except.ok.injEq] at h
      subst h
      exact ⟨rfl, Or.inr ⟨rfl, rfl⟩⟩
  · rename_i hequal hgreater
    rw [Except.ok.injEq] at h
    subst h
    refine ⟨?_, Or.inl ⟨rfl, rfl⟩⟩
    -- No operator stands in front, so the operand is the whole field.
    have hwhole : writtenLength token = (unescape token).length := by
      unfold writtenLength
      split
      · exact absurd rfl hany
      · exact absurd rfl (hgreater _)
      · exact absurd rfl (hequal _)
      · rfl
    rw [hwhole]
    exact length_foldCase type _

/-- The comparison of a number weighs nothing, also that with anything. -/
theorem weight_of_numeric (type : ValueType) (token : Text) (comparison : Comparison)
    (hnumeric : type.isNumeric = true) (h : comparisonOf type token = .ok comparison) :
    comparison.weight = 0 := by
  unfold comparisonOf at h
  rw [hnumeric, if_pos rfl] at h
  split at h
  · rw [Except.ok.injEq] at h
    rw [← h]
  · obtain ⟨_, _, rfl⟩ := comparison_of_numericComparisonOf token comparison h
    rfl

/-- A comparison together with its type weighs what is written. -/
theorem weight_of_comparisonOf (rule : Rule) (token : Text) (weight : Nat)
    (h : comparisonOf rule.type token = .ok ⟨rule.operator, rule.operand, weight⟩) :
    rule.type.weight + weight = writtenWeight rule.type token
      ∧ rule.ownWeight = rule.type.weight + weight := by
  have hstring : rule.type.isNumeric = false → weight = writtenLength token
      ∧ weight = match rule.operator with
        | .any => 0
        | .greater => 1
        | _ => rule.operand.size := by
    intro hs
    unfold comparisonOf at h
    rw [hs] at h
    split at h
    · rename_i hany
      rw [Except.ok.injEq, Comparison.mk.injEq] at h
      rw [hany, ← h.1, ← h.2.2]
      exact ⟨rfl, rfl⟩
    · rename_i hany
      rcases weight_of_stringComparisonOf rule.type token _ hany h with
        ⟨hwritten, ⟨hoperator, hweight⟩ | ⟨hoperator, hweight⟩⟩
      · simp only at hoperator hweight
        exact ⟨hwritten, by rw [hoperator]; exact hweight⟩
      · simp only at hoperator hweight
        exact ⟨hwritten, by rw [hoperator]; exact hweight⟩
  have hnumber := fun hn => weight_of_numeric rule.type token _ hn h
  unfold Rule.ownWeight writtenWeight
  -- Only the two string types add the weight of their operand.
  generalize rule.type = type at hstring hnumber ⊢
  cases type with
  | string => exact ⟨(Nat.zero_add _).trans (hstring rfl).1,
      (hstring rfl).2.symm.trans (Nat.zero_add _).symm⟩
  | caselessString => exact ⟨(Nat.zero_add _).trans (hstring rfl).1,
      (hstring rfl).2.symm.trans (Nat.zero_add _).symm⟩
  | _ =>
      have hzero : weight = 0 := hnumber rfl
      subst hzero
      exact ⟨rfl, rfl⟩

/-- A rule weighs what its line weighs. -/
theorem weight_of_ruleOf (number : Nat) (line : Text) (kind : LineKind) (rule : Rule)
    (h : ruleOf number line = .ok (kind, rule)) :
    rule.weight = lineWeight line ∧ rule.weight = rule.ownWeight := by
  rcases (ruleOf_eq_ok_iff number line kind rule).1 h with
    ⟨offset, type, comparison, more, hfields, -, hrule⟩
  rcases (ruleOfFields_eq_ok_iff number _ type comparison _ rule).1 hrule with
    ⟨-, htype, ⟨weight, hcompared, hweight⟩, -⟩
  rcases weight_of_comparisonOf rule comparison weight hcompared with ⟨hwritten, hown⟩
  -- The weight of a line reads the same two fields as the rule does.
  unfold lineWeight
  rw [hfields]
  simp only
  rw [htype, hweight]
  exact ⟨hwritten, hown.symm⟩

/-- Lines weigh, one by one, what the rules weigh that they denote. -/
theorem weighLines_of_denotes (lines : List (Text × Nat)) (entries : List (LineKind × Rule))
    (h : List.Forall₂ Denotes lines entries) :
    weighLines lines = entries.map fun entry => (entry.1, entry.2.weight) := by
  unfold weighLines
  induction h with
  | nil => rfl
  | @cons line entry _ _ hline _ ih =>
      have hkind := (kind_and_line_of_ruleOf line.2 line.1 entry.1 entry.2 hline).1
      have hweight := (weight_of_ruleOf line.2 line.1 entry.1 entry.2 hline).1
      rw [List.map_cons, List.map_cons, ih, hkind, hweight]

/-- Below an opening line the continuations wait, and nothing else does. -/
theorem lengthsAbove_append (subs : List (LineKind × Rule)) (rest : List (LineKind × Nat))
    (hsubs : ∀ entry ∈ subs, entry.1 ≠ .topLevel) :
    lengthsAbove (subs.map (fun entry => (entry.1, entry.2.weight)) ++ rest)
      = (((subs.filter fun entry => decide (entry.1 = .continuation)).map
          fun entry => entry.2.weight).sum + (lengthsAbove rest).1, (lengthsAbove rest).2) := by
  induction subs with
  | nil =>
      rw [List.map_nil, List.nil_append, List.filter_nil, List.map_nil, List.sum_nil, Nat.zero_add]
  | cons entry subs ih =>
      have hentry := hsubs entry List.mem_cons_self
      rw [List.map_cons, List.cons_append, lengthsAbove,
        ih fun other hother => hsubs other (List.mem_cons_of_mem _ hother), List.filter_cons]
      rcases entry with ⟨kind, rule⟩
      -- Extra-info rules are passed over, and an opening line cannot occur.
      cases kind with
      | topLevel => exact absurd rfl hentry
      | continuation =>
          simp only [decide_true, if_true, List.map_cons, List.sum_cons, Nat.add_assoc]
      | extraInfo =>
          simp only [reduceCtorEq, decide_false, Bool.false_eq_true, if_false]

/-- Sub-rules are of the two kinds that wait. -/
theorem kind_ne_topLevel_of_mem_subRules (signature : Signature) (entry : LineKind × Rule)
    (h : entry ∈ signature.subRules) : entry.1 ≠ .topLevel := by
  unfold Signature.subRules at h
  rcases List.mem_merge.1 h with hmem | hmem
  · rcases List.mem_map.1 hmem with ⟨rule, -, rfl⟩
    exact LineKind.noConfusion
  · rcases List.mem_map.1 hmem with ⟨rule, -, rfl⟩
    exact LineKind.noConfusion

/-- The entries of a signature, followed by others, give its length and the lengths
    of the others. -/
theorem lengthsAbove_signature (signature : Signature) (rest : List (LineKind × Nat))
    (hrest : (lengthsAbove rest).1 = 0) :
    lengthsAbove (signature.entries.map (fun entry => (entry.1, entry.2.weight)) ++ rest)
      = (0, signature.length :: (lengthsAbove rest).2) := by
  rw [Signature.entries, List.map_cons, List.cons_append, lengthsAbove,
    lengthsAbove_append _ rest (kind_ne_topLevel_of_mem_subRules signature),
    (filter_subRules signature).1, List.map_map, hrest, signature_length_eq]
  rfl

/-- The reading order determines the lengths. -/
theorem lengthsAbove_entries (rules : RuleSet) :
    lengthsAbove (rules.entries.map fun entry => (entry.1, entry.2.weight))
      = (0, rules.signatures.map Signature.length) := by
  unfold RuleSet.entries
  induction rules.signatures with
  | nil => rfl
  | cons signature signatures ih =>
      rw [List.flatMap_cons, List.map_append,
        lengthsAbove_signature signature _ (congrArg Prod.fst ih), ih, List.map_cons]

end Database

open Database

/-- The weights of a rule set are those of its lines. -/
structure RuleSet.Weighed (rules : RuleSet) (lines : List (Text × Nat)) : Prop where
  /-- Every rule, whatever its kind is, weighs what its type, operator and operand
      say... -/
  own : ∀ signature ∈ rules.signatures, ∀ rule ∈ signature.rules, rule.weight = rule.ownWeight
  /-- ...which is what its line says. -/
  written : ∀ signature ∈ rules.signatures, ∀ kind, ∀ rule ∈ signature.ofKind kind,
    ∃ line, (line, rule.line) ∈ lines ∧ lineKind line = kind ∧ rule.weight = lineWeight line
  /-- A signature adds up the rule that opens it and its continuations. -/
  length : ∀ signature ∈ rules.signatures, signature.length
    = signature.head.ownWeight + (signature.continuations.map Rule.ownWeight).sum
  /-- The lengths are those computed from the lines, and no continuation is left. -/
  lengths : lengthsAbove (weighLines lines) = (0, rules.signatures.map Signature.length)

/-- The weights of a parsed rule set are those of the lines of its text. -/
theorem weighed_of_ofText (text : Text) (rules : RuleSet) (h : RuleSet.ofText text = .ok rules) :
    rules.Weighed (ruleLines text) := by
  have hown : ∀ signature ∈ rules.signatures, ∀ rule ∈ signature.rules,
      rule.weight = rule.ownWeight :=
    ofText_all (fun rule => rule.weight = rule.ownWeight) text rules
      (fun number line kind rule hrule => (weight_of_ruleOf number line kind rule hrule).2) h
  -- Own weights are a property of each rule; the others relate rules to lines.
  refine {
    own := hown
    written := fun signature hsignature kind rule hrule => ?_
    length := fun signature hsignature => ?_
    lengths := ?_ }
  · rcases exists_line_of_rule text rules h signature kind rule hsignature hrule with
      ⟨line, hline, hkind, hdenotes⟩
    exact ⟨line, hline, hkind, (weight_of_ruleOf _ line kind rule hdenotes).1⟩
  · rcases (Signature.forall_rules_iff _ signature).1 (hown signature hsignature) with
      ⟨hhead, hcontinuations, -⟩
    rw [signature_length_eq, hhead, List.map_congr_left hcontinuations]
  · rw [weighLines_of_denotes _ _ ((ofText_eq_ok_iff text rules).1 h).2]
    exact lengthsAbove_entries rules

/-- A database with an escape in an operand, with a reserved character at the front of
    one, and with comparisons that weigh nothing or one byte. -/
def Database.weightsText : Text :=
  "# FILE_ID DB\n# Date:\n# Source:\n0\tstring\t!\\x7f\\101\tP\n&4\tbelong\t>7\n".toList
    ++ ">1\tstring\tABCD\n&8\tstring\tx\n&9\tstring/c\t>zz\n2\tleshort\tx\tQ".toList

/-- The rules of that database. -/
def Database.weightsRules : RuleSet where
  signatures := [{
    head := ⟨4, .direct 0, .string, Value.fullMask, .equal, .bytes [33, 127, 65], ['P'], none, 3⟩
    continuations := [
      ⟨5, .direct 4, .beLong, Value.fullMask, .greater, .number 7, [], none, 8⟩,
      ⟨7, .direct 8, .string, Value.fullMask, .any,
        .bytes (List.replicate Template.defaultCapture 0), [], some 255, 0⟩,
      ⟨8, .direct 9, .caselessString, Value.fullMask, .greater, .bytes [90], [], some 255, 1⟩]
    extras := [⟨6, .direct 1, .string, Value.fullMask, .equal, .bytes [65, 66, 67, 68], [], none,
      4⟩] }, {
    head := ⟨9, .direct 2, .leShort, Value.fullMask, .any, .number 0, ['Q'], none, 2⟩
    continuations := []
    extras := [] }]

/-- The extra-info rule of four bytes does not count, and the lengths are 12 and 2. -/
theorem weighed_of_weightsText : RuleSet.ofText weightsText = .ok weightsRules
    ∧ weightsRules.Weighed (ruleLines weightsText)
    ∧ weightsRules.signatures.map Signature.length = [12, 2] :=
  ⟨rfl, weighed_of_ofText weightsText weightsRules rfl, rfl⟩

end FileSignatures
