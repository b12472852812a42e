import FileSignatures.Proofs.Database.ReadingOrder
import Mathlib.Algebra.GroupWithZero.Nat
import Mathlib.Data.List.Pairwise

/-!
# Rule lines and their signatures

How the rule lines of a database are distributed over its signatures. A line that
begins with neither of the two marks opens a signature; every other line belongs
to the signature of the closest opening line above it, as a continuation or an
extra-info rule by its mark. No line is lost, none is taken twice, and what a line
says does not depend on the lines around it.

`RuleSet.Groups` states this between a rule set and a list of numbered lines. It
follows from the reading order: since that goes through the lines one by one, the
signatures cut it into stretches, and the line at the front of a stretch is the
closest opening line of all the others.

## Main definitions

* `Signature.ofKind`: The rules of a signature that are of a kind.
* `Database.IsClosestAbove`: The closest opening line above a line.
* `RuleSet.Groups`: Signatures group the rule lines of a database.

## Theorems

* `closest_of_entries`: The front of a stretch is the closest opening line.
* `length_flatMap_ofKind`: A kind is counted alike by signatures and by lines.
* `groups_of_ofText`: A parsed rule set groups the lines of its text.
-/

namespace FileSignatures

/-- The rules of a signature that are of a kind. -/
def Signature.ofKind (signature : Signature) : LineKind → List Rule
  | .topLevel => [signature.head]
  | .continuation => signature.continuations
  | .extraInfo => signature.extras

namespace Database

/-- Of the opening lines above a line, the one with the number `above` is the
    closest. -/
def IsClosestAbove (lines : List (Text × Nat)) (number above : Nat) : Prop :=
  (∃ line, (line, above) ∈ lines ∧ lineKind line = .topLevel) ∧ above < number
    ∧ ∀ line other, (line, other) ∈ lines → lineKind line = .topLevel → other < number →
      other ≤ above

/-- How many lines are of a kind. -/
def countKind (lines : List (Text × Nat)) (kind : LineKind) : Nat :=
  lines.countP fun line => decide (lineKind line.1 = kind)

end Database

open Database

/-- The signatures of a rule set group numbered lines. Sub-rules are plain rules, so
    they have no sub-rules of their own. -/
structure RuleSet.Groups (rules : RuleSet) (lines : List (Text × Nat)) : Prop where
  /-- In reading order the rules are those of the lines, each once. -/
  numbers : rules.entries.map (fun entry => entry.2.line) = lines.map Prod.snd
  increasing : (lines.map Prod.snd).Pairwise (· < ·)
  /-- Every rule is what one line of its kind denotes by itself. -/
  rules_of_lines : ∀ signature ∈ rules.signatures, ∀ kind, ∀ rule ∈ signature.ofKind kind,
    ∃ line, (line, rule.line) ∈ lines ∧ lineKind line = kind
      ∧ ruleOf rule.line line = .ok (kind, rule)
  /-- The lines without a mark are those that open a signature. -/
  heads : ∀ line number, (line, number) ∈ lines →
    (lineKind line = .topLevel ↔ ∃ signature ∈ rules.signatures, signature.head.line = number)
  /-- What a line with a mark denotes is among the rules of its kind of the signature
      that the closest opening line above it begins. -/
  sub_rules : ∀ line number, (line, number) ∈ lines → lineKind line ≠ .topLevel →
    ∃ signature ∈ rules.signatures, IsClosestAbove lines number signature.head.line
      ∧ ∃ rule ∈ signature.ofKind (lineKind line),
        ruleOf number line = .ok (lineKind line, rule)
  in_order : ∀ signature ∈ rules.signatures, ∀ kind,
    (signature.ofKind kind).Pairwise fun a b => a.line < b.line
  counts : rules.counts
    = ⟨countKind lines .topLevel, countKind lines .continuation, countKind lines .extraInfo⟩
  length : ∀ signature ∈ rules.signatures, signature.length
    = signature.head.weight + (signature.continuations.map Rule.weight).sum

theorem mem_ofKind_iff (signature : Signature) (kind : LineKind) (rule : Rule) :
    rule ∈ signature.ofKind kind ↔ (kind, rule) ∈ signature.entries := by
  rw [mem_entries_iff]
  cases kind with
  | topLevel => simp only [Signature.ofKind, List.mem_singleton, true_and, reduceCtorEq,
      false_and, or_false]
  | continuation => simp only [Signature.ofKind, true_and, reduceCtorEq, false_and, or_false,
      false_or]
  | extraInfo => simp only [Signature.ofKind, true_and, reduceCtorEq, false_and, false_or]

/-- A rule of a kind is one of the entries in reading order. -/
theorem mem_entries_of_ofKind (rules : RuleSet) (signature : Signature) (kind : LineKind)
    (rule : Rule) (hsignature : signature ∈ rules.signatures) (h : rule ∈ signature.ofKind kind) :
    (kind, rule) ∈ rules.entries :=
  List.mem_flatMap.2 ⟨signature, hsignature, (mem_ofKind_iff signature kind rule).1 h⟩

section Denoted

variable (lines : List (Text × Nat)) (entries : List (LineKind × Rule))
  (h : List.Forall₂ Denotes lines entries)

include h

/-- Every line denotes one of the rules. -/
theorem exists_entry_of_line (line : Text) (number : Nat) (hline : (line, number) ∈ lines) :
    ∃ rule, (lineKind line, rule) ∈ entries
      ∧ ruleOf number line = .ok (lineKind line, rule) := by
  induction h with
  | nil => exact absurd hline List.not_mem_nil
  | @cons first entry _ _ hentry _ ih =>
      rcases List.mem_cons.1 hline with heq | hmem
      · unfold Denotes at hentry
        rw [← heq] at hentry
        have hkind := (kind_and_line_of_ruleOf number line entry.1 entry.2 hentry).1
        rw [← hkind]
        exact ⟨entry.2, List.mem_cons_self, hentry⟩
      · rcases ih hmem with ⟨rule, hrule, hdenotes⟩
        exact ⟨rule, List.mem_cons_of_mem _ hrule, hdenotes⟩

/-- Every rule is denoted by one of the lines. -/
theorem exists_line_of_entry (kind : LineKind) (rule : Rule) (hentry : (kind, rule) ∈ entries) :
    ∃ line, (line, rule.line) ∈ lines ∧ lineKind line = kind
      ∧ ruleOf rule.line line = .ok (kind, rule) := by
  induction h with
  | nil => exact absurd hentry List.not_mem_nil
  | @cons first entry _ _ hfirst _ ih =>
      -- It is the line of this entry, or the one that is found for the rest.
      rcases List.mem_cons.1 hentry with heq | hmem
      · unfold Denotes at hfirst
        rw [← heq] at hfirst
        have hread := kind_and_line_of_ruleOf first.2 first.1 kind rule hfirst
        exact ⟨first.1, by rw [hread.2]; exact List.mem_cons_self, hread.1.symm,
          by rw [hread.2]; exact hfirst⟩
      · rcases ih hmem with ⟨line, hline, hrest⟩
        exact ⟨line, List.mem_cons_of_mem _ hline, hrest⟩

/-- A kind has as many rules as lines. -/
theorem countKind_eq (kind : LineKind) :
    countKind lines kind = entries.countP fun entry => decide (entry.1 = kind) := by
  induction h with
  | nil => rfl
  | @cons first entry _ _ hfirst _ ih =>
      have hread := (kind_and_line_of_ruleOf first.2 first.1 entry.1 entry.2 hfirst).1
      unfold countKind at ih ⊢
      rw [List.countP_cons, List.countP_cons, ih, hread]

end Denoted

/-- Of one signature, the rules of a kind are as many as its entries of that kind. -/
theorem length_ofKind (signature : Signature) (kind : LineKind) :
    (signature.ofKind kind).length
      = signature.entries.countP fun entry => decide (entry.1 = kind) := by
  -- The order of the sub-rules makes no difference to their count.
  have hperm : signature.subRules.Perm
      ((signature.continuations.map fun rule => (LineKind.continuation, rule))
        ++ signature.extras.map fun rule => (LineKind.extraInfo, rule)) :=
    List.merge_perm_append _
  have hconst : ∀ (rules : List Rule) (own : LineKind),
      (rules.map fun rule => (own, rule)).countP (fun entry => decide (entry.1 = kind))
        = if own = kind then rules.length else 0 := by
    intro rules own
    rw [List.countP_map]
    by_cases hown : own = kind
    · rw [if_pos hown, List.countP_eq_length]
      intro rule _
      exact decide_eq_true hown
    · rw [if_neg hown, List.countP_eq_zero]
      intro rule _
      simp only [Function.comp_apply, hown, decide_false, Bool.false_eq_true, not_false_eq_true]
  rw [Signature.entries, List.countP_cons, hperm.countP_eq, List.countP_append, hconst, hconst]
  cases kind with
  | topLevel => rfl
  | continuation =>
      simp only [Signature.ofKind, reduceCtorEq, if_true, if_false, decide_false,
        Bool.false_eq_true, Nat.add_zero]
  | extraInfo =>
      simp only [Signature.ofKind, reduceCtorEq, if_true, if_false, decide_false,
        Bool.false_eq_true, Nat.add_zero, Nat.zero_add]

/-- A kind is counted alike over the signatures and in reading order. -/
theorem length_flatMap_ofKind (rules : RuleSet) (kind : LineKind) :
    (rules.signatures.flatMap fun signature => signature.ofKind kind).length
      = rules.entries.countP fun entry => decide (entry.1 = kind) := by
  rw [RuleSet.entries, List.length_flatMap, List.countP_flatMap]
  congr 1
  refine List.map_congr_left (fun signature _ => ?_)
  exact length_ofKind signature kind

/-- The weights of continuations add up. -/
theorem signature_length_eq (signature : Signature) :
    signature.length = signature.head.weight + (signature.continuations.map Rule.weight).sum := by
  have hfold : ∀ (rules : List Rule) (start : Nat),
      rules.foldl (fun total rule => total + rule.weight) start
        = start + (rules.map Rule.weight).sum := by
    intro rules
    induction rules with
    | nil => intro start; rfl
    | cons rule rest ih =>
        intro start
        rw [List.foldl_cons, ih, List.map_cons, List.sum_cons, Nat.add_assoc]
  exact hfold signature.continuations signature.head.weight

/-- The rules of a kind keep the order of the entries they are picked from. -/
theorem increasing_ofKind (signature : Signature) (kind : LineKind)
    (h : signature.entries.Pairwise fun a b => a.2.line < b.2.line) :
    (signature.ofKind kind).Pairwise fun a b => a.line < b.line := by
  have hsub := (List.pairwise_cons.1 h).2
  rcases filter_subRules signature with ⟨hcontinuations, hextras⟩
  -- Sub-rules stand behind the head in one order, of which each kind is a part.
  cases kind with
  | topLevel => exact List.pairwise_singleton _ _
  | continuation =>
      have hpicked := hsub.filter fun entry => decide (entry.1 = .continuation)
      rw [hcontinuations, List.pairwise_map] at hpicked
      exact hpicked
  | extraInfo =>
      have hpicked := hsub.filter fun entry => !decide (entry.1 = .continuation)
      rw [hextras, List.pairwise_map] at hpicked
      exact hpicked

/-- The entries of two signatures are in the order of the signatures. -/
theorem entries_of_increasing (rules : RuleSet)
    (hincreasing : rules.entries.Pairwise fun a b => a.2.line < b.2.line) :
    (∀ signature ∈ rules.signatures,
      signature.entries.Pairwise fun a b => a.2.line < b.2.line)
    ∧ ∀ first ∈ rules.signatures, ∀ second ∈ rules.signatures, first ≠ second →
      (∀ a ∈ first.entries, ∀ b ∈ second.entries, a.2.line < b.2.line)
        ∨ ∀ a ∈ first.entries, ∀ b ∈ second.entries, b.2.line < a.2.line := by
  rcases List.pairwise_flatMap.1 hincreasing with ⟨hinside, hbetween⟩
  refine ⟨hinside, fun first hfirst second hsecond hne => ?_⟩
  -- Which of the two comes first is not known, so the relation is made symmetric.
  let apart : Signature → Signature → Prop := fun one two =>
    (∀ a ∈ one.entries, ∀ b ∈ two.entries, a.2.line < b.2.line)
      ∨ ∀ a ∈ one.entries, ∀ b ∈ two.entries, b.2.line < a.2.line
  have hsymm : Std.Symm apart := by
    refine ⟨fun one two happart => ?_⟩
    rcases happart with hlt | hgt
    · exact Or.inr fun b hb a ha => hlt a ha b hb
    · exact Or.inl fun b hb a ha => hgt a ha b hb
  have hapart : rules.signatures.Pairwise apart := hbetween.imp (fun hlt => Or.inl hlt)
  exact hapart.forall hfirst hsecond hne

/-- The head of the signature that a sub-rule belongs to is the closest of all heads
    above the sub-rule: a later signature begins below it, an earlier one above. -/
theorem closest_of_entries (rules : RuleSet) (signature other : Signature) (kind : LineKind)
    (rule : Rule) (hincreasing : rules.entries.Pairwise fun a b => a.2.line < b.2.line)
    (hsignature : signature ∈ rules.signatures) (hother : other ∈ rules.signatures)
    (hentry : (kind, rule) ∈ signature.entries) (habove : other.head.line < rule.line) :
    other.head.line ≤ signature.head.line := by
  have hhead : ∀ s : Signature, (LineKind.topLevel, s.head) ∈ s.entries :=
    fun s => List.mem_cons_self
  by_cases hsame : other = signature
  · rw [hsame]
  · rcases (entries_of_increasing rules hincreasing).2 other hother signature hsignature hsame with
      hbefore | hafter
    · exact Nat.le_of_lt (hbefore _ (hhead other) _ (hhead signature))
    · -- A head of a later signature is below the sub-rule, not above it.
      have hbelow := hafter _ (hhead other) _ hentry
      simp only at hbelow
      omega

theorem ruleLines_unique (text line other : Text) (number : Nat)
    (hline : (line, number) ∈ ruleLines text) (hother : (other, number) ∈ ruleLines text) :
    line = other := by
  by_contra hne
  have hincreasing := List.pairwise_map.1 (increasing_ruleLinesFrom 4 (text.lines.drop 3))
  have hapart : (ruleLines text).Pairwise fun a b => a.2 ≠ b.2 :=
    hincreasing.imp (fun hlt => Nat.ne_of_lt hlt)
  have hsymm : Std.Symm fun a b : Text × Nat => a.2 ≠ b.2 := ⟨fun a b hne => hne.symm⟩
  exact hapart.forall hline hother (fun heq => hne (congrArg Prod.fst heq)) rfl

section Parsed

variable (text : Text) (rules : RuleSet) (h : RuleSet.ofText text = .ok rules)

include h

/-- The reading order of a parsed rule set goes down the text. -/
theorem increasing_of_ofText : rules.entries.Pairwise fun a b => a.2.line < b.2.line :=
  increasing_of_forall₂_denotes 4 _ _ ((ofText_eq_ok_iff text rules).1 h).2

/-- Every parsed rule is what one line of its kind denotes by itself. -/
theorem exists_line_of_rule (signature : Signature) (kind : LineKind) (rule : Rule)
    (hsignature : signature ∈ rules.signatures) (hrule : rule ∈ signature.ofKind kind) :
    ∃ line, (line, rule.line) ∈ ruleLines text ∧ lineKind line = kind
      ∧ ruleOf rule.line line = .ok (kind, rule) :=
  exists_line_of_entry _ _ ((ofText_eq_ok_iff text rules).1 h).2 kind rule
    (mem_entries_of_ofKind rules signature kind rule hsignature hrule)

/-- What a rule line denotes is a rule of one of the signatures. -/
theorem exists_rule_of_line (line : Text) (number : Nat)
    (hline : (line, number) ∈ ruleLines text) :
    ∃ signature ∈ rules.signatures, ∃ rule ∈ signature.ofKind (lineKind line),
      ruleOf number line = .ok (lineKind line, rule) := by
  rcases exists_entry_of_line _ _ ((ofText_eq_ok_iff text rules).1 h).2 line number hline with
    ⟨rule, hentry, hdenotes⟩
  rcases List.mem_flatMap.1 hentry with ⟨signature, hsignature, hmem⟩
  exact ⟨signature, hsignature, rule, (mem_ofKind_iff signature _ rule).2 hmem, hdenotes⟩

/-- Sub-rules stand below the head of their signature. -/
theorem head_lt_of_sub_rule (signature : Signature) (kind : LineKind) (rule : Rule)
    (hsignature : signature ∈ rules.signatures) (hkind : kind ≠ .topLevel)
    (hrule : rule ∈ signature.ofKind kind) : signature.head.line < rule.line := by
  have hstretch := (entries_of_increasing rules (increasing_of_ofText text rules h)).1 signature
    hsignature
  rcases List.mem_cons.1 ((mem_ofKind_iff signature kind rule).1 hrule) with heq | hsub
  · exact absurd (congrArg Prod.fst heq) hkind
  · exact (List.pairwise_cons.1 hstretch).1 _ hsub

/-- The lines without a mark are those of the heads. -/
theorem topLevel_iff_head (line : Text) (number : Nat)
    (hline : (line, number) ∈ ruleLines text) : lineKind line = .topLevel ↔
      ∃ signature ∈ rules.signatures, signature.head.line = number := by
  constructor
  · intro hkind
    rcases exists_rule_of_line text rules h line number hline with
      ⟨signature, hsignature, rule, hrule, hdenotes⟩
    have hnumber := (kind_and_line_of_ruleOf number line _ rule hdenotes).2
    rw [hkind] at hrule
    rw [List.mem_singleton.1 hrule] at hnumber
    exact ⟨signature, hsignature, hnumber⟩
  · rintro ⟨signature, hsignature, hnumber⟩
    rcases exists_line_of_rule text rules h signature .topLevel signature.head hsignature
      (List.mem_singleton.2 rfl) with ⟨other, hother, hkind, -⟩
    rw [hnumber] at hother
    -- The number determines the line, so it is the one that the head was read from.
    rw [ruleLines_unique text line other number hline hother]
    exact hkind

/-- The head of a sub-rule's signature is the closest opening line above it. -/
theorem closest_of_sub_rule (signature : Signature) (kind : LineKind) (rule : Rule)
    (hsignature : signature ∈ rules.signatures) (hkind : kind ≠ .topLevel)
    (hrule : rule ∈ signature.ofKind kind) :
    IsClosestAbove (ruleLines text) rule.line signature.head.line := by
  refine ⟨?_, head_lt_of_sub_rule text rules h signature kind rule hsignature hkind hrule, ?_⟩
  · rcases exists_line_of_rule text rules h signature .topLevel signature.head hsignature
      (List.mem_singleton.2 rfl) with ⟨opening, hopening, hopens, -⟩
    exact ⟨opening, hopening, hopens⟩
  · -- Any other opening line above it is the head of an earlier signature.
    intro opening other hopening hopens habove
    rcases (topLevel_iff_head text rules h opening other hopening).1 hopens with
      ⟨earlier, hearlier, hline⟩
    rw [← hline] at habove ⊢
    exact closest_of_entries rules signature earlier kind rule (increasing_of_ofText text rules h)
      hsignature hearlier ((mem_ofKind_iff signature kind rule).1 hrule) habove

/-- The counts of a parsed rule set are those of its lines. -/
theorem counts_of_ofText : rules.counts = ⟨countKind (ruleLines text) .topLevel,
    countKind (ruleLines text) .continuation, countKind (ruleLines text) .extraInfo⟩ := by
  have hcount := fun kind => (length_flatMap_ofKind rules kind).trans
    (countKind_eq _ _ ((ofText_eq_ok_iff text rules).1 h).2 kind).symm
  -- One head each, so there are as many signatures as opening lines.
  have hopened : (rules.signatures.flatMap fun signature => signature.ofKind .topLevel).length
      = rules.signatures.length := by
    have hmap : rules.signatures.map Signature.head
        = rules.signatures.flatMap fun signature => [signature.head] := List.map_eq_flatMap
    unfold Signature.ofKind
    rw [← hmap, List.length_map]
  have hcontinued : rules.signatures.flatMap Signature.continuations
      = rules.signatures.flatMap fun signature => signature.ofKind .continuation := rfl
  have hadded : rules.signatures.flatMap Signature.extras
      = rules.signatures.flatMap fun signature => signature.ofKind .extraInfo := rfl
  unfold RuleSet.counts
  rw [← hopened, hcontinued, hadded, hcount, hcount, hcount]

end Parsed

/-- A parsed rule set groups the rule lines of its text. -/
theorem groups_of_ofText (text : Text) (rules : RuleSet) (h : RuleSet.ofText text = .ok rules) :
    rules.Groups (ruleLines text) := by
  have hdenotes := ((ofText_eq_ok_iff text rules).1 h).2
  refine {
    numbers := lines_of_forall₂_denotes _ _ hdenotes
    increasing := increasing_ruleLinesFrom 4 _
    rules_of_lines := fun signature hsignature kind rule hrule =>
      exists_line_of_rule text rules h signature kind rule hsignature hrule
    heads := topLevel_iff_head text rules h
    sub_rules := fun line number hline hkind => ?_
    in_order := fun signature hsignature kind => ?_
    counts := counts_of_ofText text rules h
    length := fun signature _ => signature_length_eq signature }
  · -- The closest top-level line is known of the rule, and its number is that of the line.
    rcases exists_rule_of_line text rules h line number hline with
      ⟨signature, hsignature, rule, hrule, hdenotes⟩
    have hclosest := closest_of_sub_rule text rules h signature _ rule hsignature hkind hrule
    rw [(kind_and_line_of_ruleOf number line _ rule hdenotes).2] at hclosest
    exact ⟨signature, hsignature, hclosest, rule, hrule, hdenotes⟩
  · have hincreasing := increasing_of_ofText text rules h
    exact increasing_ofKind signature kind
      ((entries_of_increasing rules hincreasing).1 signature hsignature)

/-- A database in which comments, empty lines and sub-rules of both kinds
    alternate. -/
def Database.mixedText : Text :=
  "# FILE_ID DB\n# Date: today\r\n# Source:\n\n# note\n0\tstring\tAB\tP\n".toList
    ++ ">4\tbyte\tx\t[v=%d]\n#&1\tbyte\t1\n&2\tbyte\t1\n\n".toList
    ++ ">5\tbyte\tx\t[w=%d]\n-1\tbyte\t7\tQ".toList

/-- The rules of that database. -/
def Database.mixedRules : RuleSet where
  signatures := [{
    head := ⟨6, .direct 0, .string, Value.fullMask, .equal, .bytes [65, 66], ['P'], none, 2⟩
    continuations := [⟨9, .direct 2, .byte, Value.fullMask, .equal, .number 1, [], none, 1⟩]
    extras := [
      ⟨7, .direct 4, .byte, Value.fullMask, .any, .number 0, "[v=%d]".toList, none, 1⟩,
      ⟨11, .direct 5, .byte, Value.fullMask, .any, .number 0, "[w=%d]".toList, none, 1⟩] }, {
    head := ⟨12, .direct (-1), .byte, Value.fullMask, .equal, .number 7, ['Q'], none, 1⟩
    continuations := []
    extras := [] }]

/-- The sub-rules between the two opening lines belong to the first of them. -/
theorem groups_of_mixedText : RuleSet.ofText mixedText = .ok mixedRules
    ∧ mixedRules.Groups (ruleLines mixedText) :=
  ⟨rfl, groups_of_ofText mixedText mixedRules rfl⟩

end FileSignatures
