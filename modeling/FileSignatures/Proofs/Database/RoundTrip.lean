import FileSignatures.Proofs.Database.Written

/-!
# Databases that are written are read back

Every rule set whose rules can be written, on consecutive lines from the first one
after the header, is what reading its text gives. This holds for every choice that
the notation leaves: the date and the source in the header, the letters of
hexadecimal digits, and the spelling of every single byte of an operand.

A written line denotes its rule by itself (`ruleOf_of_writtenLine`), since its
fields are read back one by one. The lines of a text are those that were written,
and none of them looks like a comment, so they denote the rules in reading order;
and a rule set is determined by that.

## Main definitions

* `LineKind.mark`: The character that begins a line of a kind.
* `WrittenLine`: A rule as a line.
* `RuleSet.Writable`: A rule set that can be written.
* `Written`: A rule set as a text.

## Theorems

* `ruleOf_of_writtenLine`: A line denotes the rule that was written.
* `denotes_of_writtenLines`: So do several, numbered one after the other.
* `exists_written`: Every rule set that can be written is written somehow.
* `ofText_of_written`: A rule set is read back from its text and from its bytes.
-/

namespace FileSignatures

/-- What begins a line of a kind. -/
def LineKind.mark : LineKind → Text
  | .topLevel => []
  | .continuation => ['&']
  | .extraInfo => ['>']

/-- A rule of a kind as a line. An empty description is left out. -/
def WrittenLine (entry : LineKind × Rule) (line : Text) : Prop :=
  ∃ offset type comparison, WrittenOffset entry.2.offset offset
    ∧ WrittenType entry.2.type entry.2.mask type
    ∧ WrittenComparison entry.2.operator entry.2.operand comparison
    ∧ line = (entry.1.mark ++ offset) ++ '\t' :: (type ++ '\t' :: (comparison
      ++ if entry.2.description = [] then [] else '\t' :: entry.2.description))

/-- A rule set that can be written: each of its rules can, and the lines that they
    come from are consecutive from the first one after the header. -/
structure RuleSet.Writable (rules : RuleSet) : Prop where
  fields : ∀ signature ∈ rules.signatures, ∀ rule ∈ signature.rules, rule.Writable
  lines : rules.entries.map (fun entry => entry.2.line) = List.range' 4 rules.entries.length

open Database

/-- A rule set as a text: three header lines, then its rules in reading order. -/
def Written (rules : RuleSet) (text : Text) : Prop :=
  ∃ date source lines, date.IsLine ∧ source.IsLine
    ∧ List.Forall₂ WrittenLine rules.entries lines
    ∧ text = (magicHeader :: (dateHeader ++ date) :: (sourceHeader ++ source) :: lines).flatMap
      fun line => line ++ ['\n']

namespace Database

/-- The kind is read back from the mark, since no offset begins like one. -/
theorem kindOf_mark (kind : LineKind) (offset : Text)
    (h : ∃ c rest, offset = c :: rest ∧ c ∉ ['&', '>', '#']) :
    kindOf (kind.mark ++ offset) = (kind, offset) := by
  rcases h with ⟨c, rest, rfl, hc⟩
  cases kind with
  | topLevel =>
      unfold LineKind.mark
      -- Without a mark the line begins like the offset, which is no mark either.
      rw [List.nil_append, kindOf.eq_def]
      split
      · rename_i heq
        rw [(List.cons.inj heq).1] at hc
        exact absurd hc (by decide)
      · rename_i heq
        rw [(List.cons.inj heq).1] at hc
        exact absurd hc (by decide)
      · rfl
  | continuation => rfl
  | extraInfo => rfl

/-- What stands before the first tab of a written line. -/
theorem mark_offset (kind : LineKind) (offset : Offset) (t : Text) (h : WrittenOffset offset t) :
    (∀ c ∈ kind.mark ++ t, IsClean c) ∧ ∃ c rest, kind.mark ++ t = c :: rest ∧ c ≠ '#' := by
  rcases isClean_of_writtenOffset offset t h with ⟨hclean, c, rest, rfl, hc⟩
  refine ⟨fun d hd => ?_, ?_⟩
  · -- The mark and the offset have no tab and no line end in them.
    rcases List.mem_append.1 hd with hmark | hd
    · cases kind with
      | topLevel => exact absurd hmark List.not_mem_nil
      | continuation | extraInfo =>
          rw [List.mem_singleton.1 hmark]
          decide
    · exact hclean d hd
  · cases kind with
    | topLevel => exact ⟨c, rest, rfl, fun heq => hc (by rw [heq]; decide)⟩
    | continuation | extraInfo => exact ⟨_, _, rfl, by decide⟩

/-- The fields of a written line are those that were written. -/
theorem fields_of_written (offset type comparison description : Text)
    (hoffset : offset ≠ [] ∧ '\t' ∉ offset) (htype : type ≠ [] ∧ '\t' ∉ type)
    (hcomparison : comparison ≠ [] ∧ '\t' ∉ comparison) (hdescription : '\t' ∉ description) :
    fields (offset ++ '\t' :: (type ++ '\t' :: (comparison
        ++ if description = [] then [] else '\t' :: description)))
      = .ok (offset :: type :: comparison
          :: if description = [] then [] else [description]) := by
  have hnonempty : ∀ t : Text, t ≠ [] → (!t.isEmpty) = true := by
    intro t ht
    rw [Bool.not_eq_true', List.isEmpty_eq_false_iff]
    exact ht
  rw [fields_eq_ok_iff]
  refine ⟨?_, ?_, ?_⟩
  · -- A line does not begin with a tab, which would make its first field empty.
    cases offset with
    | nil => exact absurd rfl hoffset.1
    | cons c rest =>
        rw [List.cons_append, List.head?_cons, ne_eq, Option.some.injEq]
        exact fun heq => hoffset.2 (heq ▸ List.mem_cons_self)
  · simp only [List.length_cons]
    omega
  · rw [pieces_append_separator '\t' offset _ hoffset.2,
      pieces_append_separator '\t' type _ htype.2]
    -- An empty description is not written, nor is the tab in front of it.
    by_cases hempty : description = []
    · rw [if_pos hempty, if_pos hempty, List.append_nil,
        pieces_eq_singleton '\t' comparison hcomparison.2]
      simp only [List.filter_cons, hnonempty _ hoffset.1, hnonempty _ htype.1,
        hnonempty _ hcomparison.1, if_true, List.filter_nil]
    · rw [if_neg hempty, if_neg hempty, pieces_append_separator '\t' comparison _ hcomparison.2,
        pieces_eq_singleton '\t' description hdescription]
      simp only [List.filter_cons, hnonempty _ hoffset.1, hnonempty _ htype.1,
        hnonempty _ hcomparison.1, hnonempty _ hempty, if_true, List.filter_nil]

theorem ruleOf_of_writtenLine (kind : LineKind) (rule : Rule) (line : Text)
    (hrule : rule.Writable) (h : WrittenLine (kind, rule) line) :
    ruleOf rule.line line = .ok (kind, rule) := by
  rcases h with ⟨offset, type, comparison, hoffset, htype, hcomparison, rfl⟩
  rcases mark_offset kind rule.offset offset hoffset with ⟨hmarked, c, rest, hcons, -⟩
  rcases isClean_of_writtenType rule.type rule.mask type htype with ⟨htype', htypeClean⟩
  rcases isClean_of_writtenComparison _ _ comparison hcomparison with ⟨hcomparison', hclean⟩
  have hfields := fields_of_written (kind.mark ++ offset) type comparison rule.description
    ⟨by rw [hcons]; exact List.cons_ne_nil c rest, tab_notMem_of_isClean _ hmarked⟩
    ⟨htype', tab_notMem_of_isClean _ htypeClean⟩ ⟨hcomparison', tab_notMem_of_isClean _ hclean⟩
    hrule.description.1
  have hkind := kindOf_mark kind offset (isClean_of_writtenOffset rule.offset offset hoffset).2
  -- Each field is read back on its own.
  refine (ruleOf_eq_ok_iff rule.line _ kind rule).2 ⟨_, _, _, _, hfields, ?_, ?_⟩
  · rw [hkind]
  · have hdescription : (if rule.description = [] then [] else [rule.description]).headD []
        = rule.description := by
      by_cases hempty : rule.description = []
      · rw [if_pos hempty, hempty]
        rfl
      · rw [if_neg hempty]
        rfl
    rw [hkind, hdescription]
    exact (ruleOfFields_eq_ok_iff rule.line offset type comparison rule.description rule).2
      ⟨ofText?_of_writtenOffset rule.offset offset hoffset,
        typeOf_of_writtenType rule.type rule.mask type htype,
        ⟨rule.operandWeight, comparisonOf_of_writtenComparison rule comparison hrule hcomparison,
          hrule.weight⟩,
        captureOf_of_wellFormed rule hrule.fields, rfl, rfl⟩

theorem isLine_of_writtenLine (entry : LineKind × Rule) (line : Text) (hrule : entry.2.Writable)
    (h : WrittenLine entry line) : line.IsLine ∧ isRuleLine line = true := by
  have htab : ∀ t : Text, t.IsLine → Text.IsLine ('\t' :: t) := by
    intro t ht
    exact isLine_append ['\t'] t (by decide) ht
  rcases h with ⟨offset, type, comparison, hoffset, htype, hcomparison, rfl⟩
  rcases mark_offset entry.1 entry.2.offset offset hoffset with ⟨hmarked, c, rest, hcons, hc⟩
  refine ⟨?_, ?_⟩
  · -- A line is put together from its fields, beginning with the last one.
    have hdescription : Text.IsLine
        (if entry.2.description = [] then [] else '\t' :: entry.2.description) := by
      by_cases hempty : entry.2.description = []
      · rw [if_pos hempty]
        decide
      · rw [if_neg hempty]
        exact htab _ hrule.description.2
    have hcompared := isLine_append comparison _
      (isLine_of_isClean _ (isClean_of_writtenComparison _ _ comparison hcomparison).2) hdescription
    have htyped := isLine_append type _
      (isLine_of_isClean _ (isClean_of_writtenType _ _ type htype).2) (htab _ hcompared)
    exact isLine_append _ _ (isLine_of_isClean _ hmarked) (htab _ htyped)
  · -- It begins with a mark or an offset, hence not like a comment.
    rw [isRuleLine_iff, hcons]
    refine ⟨List.cons_ne_nil _ _, ?_⟩
    rw [List.cons_append, List.head?_cons, ne_eq, Option.some.injEq]
    exact hc

/-- Lines that are numbered one after the other denote the rules that were written,
    by induction on the lines: all of them are rule lines, so none is left out. -/
theorem denotes_of_writtenLines (number : Nat) (entries : List (LineKind × Rule))
    (lines : List Text) (hwritable : ∀ entry ∈ entries, entry.2.Writable)
    (hnumbers : entries.map (fun entry => entry.2.line) = List.range' number entries.length)
    (h : List.Forall₂ WrittenLine entries lines) :
    List.Forall₂ Denotes (ruleLinesFrom number lines) entries := by
  induction h generalizing number with
  | nil => exact .nil
  | @cons entry line rest more hline _ ih =>
      have hrule := hwritable entry List.mem_cons_self
      rw [List.map_cons, List.length_cons, List.range'_succ, List.cons.injEq] at hnumbers
      rw [ruleLinesFrom_cons number line more (isLine_of_writtenLine entry line hrule hline).2]
      refine .cons ?_ (ih (number + 1)
        (fun e he => hwritable e (List.mem_cons_of_mem _ he)) hnumbers.2)
      unfold Denotes
      rw [← hnumbers.1]
      exact ruleOf_of_writtenLine entry.1 entry.2 line hrule hline

theorem writable_of_mem_entries (rules : RuleSet) (h : rules.Writable) (entry : LineKind × Rule)
    (hentry : entry ∈ rules.entries) : entry.2.Writable := by
  rcases List.mem_flatMap.1 hentry with ⟨signature, hsignature, hmem⟩
  refine h.fields signature hsignature entry.2 ?_
  simp only [Signature.rules, List.mem_cons, List.mem_append]
  rcases (mem_entries_iff signature entry.1 entry.2).1 hmem with ⟨-, hr⟩ | ⟨-, hr⟩ | ⟨-, hr⟩
  · exact Or.inl hr
  · exact Or.inr (Or.inl hr)
  · exact Or.inr (Or.inr hr)

/-- Every offset with a numeric pointer can be written. -/
theorem exists_writtenOffset (offset : Offset)
    (h : ∀ pointer, offset = .indirect pointer → pointer.width.isNumeric = true) :
    ∃ t, WrittenOffset offset t := by
  cases offset with
  | direct position => exact ⟨_, .direct position⟩
  | indirect pointer =>
      have hletter : ∃ letter, letter ∈ pointer.width.widthLetters := by
        have hnumeric := h pointer rfl
        cases hwidth : pointer.width with
        | string | caselessString =>
            rw [hwidth] at hnumeric
            exact absurd hnumeric Bool.false_ne_true
        | _ => exact ⟨_, List.mem_cons_self⟩
      rcases hletter with ⟨letter, hletter⟩
      -- Either sign will do for zero, and it could be left out.
      by_cases hsign : 0 ≤ pointer.adjustment.toInt
      · exact ⟨_, .indirect pointer letter _ hletter (.plus hsign)⟩
      · exact ⟨_, .indirect pointer letter _ hletter (.minus (by omega))⟩

/-- Every rule that can be written is written somehow. -/
theorem exists_writtenLine (kind : LineKind) (rule : Rule) (h : rule.Writable) :
    ∃ line, WrittenLine (kind, rule) line := by
  obtain ⟨offset, hoffset⟩ := exists_writtenOffset rule.offset h.fields.pointer_width
  obtain ⟨type, htype⟩ : ∃ t, WrittenType rule.type rule.mask t := by
    cases hnumeric : rule.type.isNumeric with
    | true =>
        have hdigits : IsHexadecimal rule.mask.toNat (Nat.toDigits 16 rule.mask.toNat) :=
          List.forall₂_same.2 fun _ _ => Or.inl rfl
        exact ⟨_, .masked _ hnumeric hdigits⟩
    | false =>
        -- A string has no mask other than the full one.
        exact ⟨_, .unmasked (h.fields.string_mask hnumeric)⟩
  obtain ⟨comparison, hcomparison⟩ : ∃ t, WrittenComparison rule.operator rule.operand t := by
    by_cases hany : rule.operator = .any
    · rw [hany]
      exact ⟨_, .any rule.operand⟩
    · cases rule.operand with
      | number n => exact ⟨_, .number rule.operator n hany⟩
      | bytes content =>
          rcases exists_spelled content with ⟨spelling, hspelling⟩
          exact ⟨_, .bytes rule.operator content spelling hany hspelling⟩
  exact ⟨_, offset, type, comparison, hoffset, htype, hcomparison, rfl⟩

/-- A line consists of bytes if its description does. -/
theorem isLatin1_of_writtenLine (entry : LineKind × Rule) (line : Text)
    (hdescription : entry.2.description.IsLatin1) (h : WrittenLine entry line) :
    line.IsLatin1 := by
  rcases h with ⟨offset, type, comparison, hoffset, htype, hcomparison, rfl⟩
  have htab : '\t'.toNat < 256 := by decide
  intro c hc
  simp only [List.mem_append, List.mem_cons] at hc
  -- The parts of a line: mark and offset, type, comparison and description, with tabs between.
  rcases hc with hc | rfl | hc | rfl | hc | hc
  · exact ((mark_offset entry.1 _ offset hoffset).1 c (List.mem_append.2 hc)).2
  · exact htab
  · exact ((isClean_of_writtenType _ _ type htype).2 c hc).2
  · exact htab
  · exact ((isClean_of_writtenComparison _ _ comparison hcomparison).2 c hc).2
  · by_cases hempty : entry.2.description = []
    · rw [if_pos hempty] at hc
      exact absurd hc List.not_mem_nil
    · rw [if_neg hempty] at hc
      rcases List.mem_cons.1 hc with rfl | hc
      · exact htab
      · exact hdescription c hc

theorem exists_writtenLines (entries : List (LineKind × Rule))
    (h : ∀ entry ∈ entries, entry.2.Writable) :
    ∃ lines, List.Forall₂ WrittenLine entries lines := by
  induction entries with
  | nil => exact ⟨[], .nil⟩
  | cons entry rest ih =>
      obtain ⟨line, hline⟩ := exists_writtenLine entry.1 entry.2 (h entry List.mem_cons_self)
      obtain ⟨lines, hlines⟩ := ih fun e he => h e (List.mem_cons_of_mem _ he)
      exact ⟨line :: lines, .cons hline hlines⟩

theorem isLatin1_of_writtenLines (entries : List (LineKind × Rule)) (lines : List Text)
    (hdescriptions : ∀ entry ∈ entries, entry.2.description.IsLatin1)
    (h : List.Forall₂ WrittenLine entries lines) : ∀ line ∈ lines, line.IsLatin1 := by
  induction h with
  | nil => exact fun line hline => absurd hline List.not_mem_nil
  | @cons entry line rest more hline _ ih =>
      have hfirst := isLatin1_of_writtenLine entry line
        (hdescriptions entry List.mem_cons_self) hline
      exact List.forall_mem_cons.2 ⟨hfirst,
        ih fun e he => hdescriptions e (List.mem_cons_of_mem _ he)⟩

theorem isLine_of_writtenLines (entries : List (LineKind × Rule)) (lines : List Text)
    (hwritable : ∀ entry ∈ entries, entry.2.Writable)
    (h : List.Forall₂ WrittenLine entries lines) : ∀ line ∈ lines, line.IsLine := by
  induction h with
  | nil => exact fun line hline => absurd hline List.not_mem_nil
  | @cons entry line rest more hline _ ih =>
      have hfirst := isLine_of_writtenLine entry line (hwritable entry List.mem_cons_self) hline
      exact List.forall_mem_cons.2 ⟨hfirst.1,
        ih fun e he => hwritable e (List.mem_cons_of_mem _ he)⟩

end Database

/-- Every rule set that can be written is written somehow, and that in bytes if its
    descriptions are. -/
theorem exists_written (rules : RuleSet) (h : rules.Writable) : ∃ text, Written rules text
    ∧ ((∀ entry ∈ rules.entries, entry.2.description.IsLatin1) → text.IsLatin1) := by
  obtain ⟨lines, hlines⟩ := exists_writtenLines rules.entries (writable_of_mem_entries rules h)
  have hempty : Text.IsLine [] := ⟨List.not_mem_nil, by decide⟩
  -- Date and source are left empty.
  refine ⟨_, ⟨[], [], lines, hempty, hempty, hlines, rfl⟩, fun hdescriptions c hc => ?_⟩
  have hheader : Text.IsLatin1 magicHeader ∧ Text.IsLatin1 (dateHeader ++ [])
      ∧ Text.IsLatin1 (sourceHeader ++ []) :=
    ⟨isLatin1_of_all _ (by decide), isLatin1_of_all _ (by decide), isLatin1_of_all _ (by decide)⟩
  have hall : ∀ line ∈ magicHeader :: (dateHeader ++ []) :: (sourceHeader ++ []) :: lines,
      line.IsLatin1 :=
    List.forall_mem_cons.2 ⟨hheader.1, List.forall_mem_cons.2 ⟨hheader.2.1,
      List.forall_mem_cons.2 ⟨hheader.2.2,
        isLatin1_of_writtenLines rules.entries lines hdescriptions hlines⟩⟩⟩
  rcases List.mem_flatMap.1 hc with ⟨line, hline, hmem⟩
  rcases List.mem_append.1 hmem with hmem | hmem
  · exact hall line hline c hmem
  · rw [List.mem_singleton.1 hmem]
    decide

/-- The lines of a written text are the header and the lines of the rules. -/
theorem lines_of_written (rules : RuleSet) (text : Text) (h : rules.Writable)
    (htext : Written rules text) : ∃ date source lines,
      List.Forall₂ WrittenLine rules.entries lines
        ∧ text.lines = magicHeader :: (dateHeader ++ date) :: (sourceHeader ++ source)
          :: lines := by
  rcases htext with ⟨date, source, lines, hdate, hsource, hlines, rfl⟩
  have hmagic : magicHeader.IsLine := by decide
  have hdated := isLine_append dateHeader date (by decide) hdate
  have hsourced := isLine_append sourceHeader source (by decide) hsource
  have hrules := isLine_of_writtenLines rules.entries lines (writable_of_mem_entries rules h) hlines
  exact ⟨date, source, lines, hlines, lines_flatMap _ (List.forall_mem_cons.2 ⟨hmagic,
    List.forall_mem_cons.2 ⟨hdated, List.forall_mem_cons.2 ⟨hsourced, hrules⟩⟩⟩)⟩

/-- A rule set that can be written has a text, in bytes if its descriptions are, and
    every text of it is read back, character by character or from its bytes. -/
theorem ofText_of_written (rules : RuleSet) (h : rules.Writable) :
    (∃ text, Written rules text
      ∧ ((∀ entry ∈ rules.entries, entry.2.description.IsLatin1) → text.IsLatin1))
    ∧ ∀ text, Written rules text → RuleSet.ofText text = .ok rules
      ∧ (text.IsLatin1 → RuleSet.ofBytes text.latin1Bytes = .ok rules) := by
  refine ⟨exists_written rules h, fun text htext => ?_⟩
  -- The header is passed and the lines below it denote the rules one by one.
  have hread : RuleSet.ofText text = .ok rules := by
    rcases lines_of_written rules text h htext with ⟨date, source, lines, hlines, heq⟩
    refine (ofText_eq_ok_iff text rules).2 ⟨⟨date, source, lines, heq⟩, ?_⟩
    rw [ruleLines_of_header text _ _ _ lines heq]
    exact denotes_of_writtenLines 4 rules.entries lines (writable_of_mem_entries rules h) h.lines
      hlines
  refine ⟨hread, fun hlatin => ?_⟩
  unfold RuleSet.ofBytes
  rw [ofLatin1_latin1Bytes text hlatin]
  exact hread

/-- A text with extreme numbers and with operands that begin like something else. -/
def Database.extremeText : Text :=
  "# FILE_ID DB\n# Date:\n# Source: me\n".toList
    ++ "-9223372036854775808\tstring\t=\\000x\\xfF>\tP\n".toList
    ++ "&(-1.S-2)\tlelong&0x8000000000000000\t&-9223372036854775808\n".toList
    ++ ">0\tstring/c\t>Q\t[k=%.9s]\n".toList

/-- The rules of that text. -/
def Database.extremeHead : Rule :=
  ⟨4, .direct (-9223372036854775808), .string, Value.fullMask, .equal, .bytes [0, 120, 255, 62],
    ['P'], none, 4⟩

/-- Its first sub-rule. -/
def Database.extremeContinuation : Rule :=
  ⟨5, .indirect ⟨-1, .beShort, -2⟩, .leLong, 0x8000000000000000, .sharesBits,
    .number (-9223372036854775808), [], none, 8⟩

/-- Its second sub-rule. -/
def Database.extremeExtra : Rule :=
  ⟨6, .direct 0, .caselessString, Value.fullMask, .greater, .bytes [81], "[k=%.9s]".toList,
    some 9, 1⟩

/-- All of them. -/
def Database.extremeRules : RuleSet :=
  ⟨[⟨extremeHead, [extremeContinuation], [extremeExtra]⟩]⟩

theorem entries_extremeRules : extremeRules.entries = [(.topLevel, extremeHead),
    (.continuation, extremeContinuation), (.extraInfo, extremeExtra)] := by
  have hle : extremeContinuation.line ≤ extremeExtra.line := by decide
  simp only [RuleSet.entries, extremeRules, List.flatMap_singleton, Signature.entries,
    Signature.subRules, List.map_cons, List.map_nil, List.cons_merge_cons, hle, decide_true,
    if_true, List.nil_merge]

theorem writable_extremeRules : extremeRules.Writable := by
  refine { fields := fun signature hsignature => ?_, lines := by rw [entries_extremeRules]; rfl }
  rw [List.mem_singleton.1 hsignature, Signature.forall_rules_iff]
  refine ⟨?_, fun rule hrule => ?_, fun rule hrule => ?_⟩
  · exact {
      fields := {
        number_operand := fun h => absurd h Bool.false_ne_true
        number_capture := fun _ => rfl
        string_mask := fun _ => rfl
        string_comparison := fun _ => .equal _
        pointer_width := fun _ h => Offset.noConfusion h }
      any_number := fun h => absurd h Bool.false_ne_true
      caseless := fun h => ValueType.noConfusion h
      weight := rfl
      description := ⟨by decide, by decide, by decide⟩ }
  · -- The continuation compares a number.
    rw [List.mem_singleton.1 hrule]
    exact {
      fields := {
        number_operand := fun _ => ⟨_, rfl⟩
        number_capture := fun _ => rfl
        string_mask := fun h => absurd h.symm Bool.false_ne_true
        string_comparison := fun h => absurd h.symm Bool.false_ne_true
        pointer_width := fun pointer h => by rw [← Offset.indirect.inj h]; rfl }
      any_number := fun _ h => Operator.noConfusion h
      caseless := fun h => ValueType.noConfusion h
      weight := rfl
      description := ⟨by decide, by decide, by decide⟩ }
  · -- The extra-info rule captures.
    rw [List.mem_singleton.1 hrule]
    exact {
      fields := {
        number_operand := fun h => absurd h Bool.false_ne_true
        number_capture := fun h => absurd h Bool.false_ne_true
        string_mask := fun _ => rfl
        string_comparison := fun _ => .greater 81 9 rfl
        pointer_width := fun _ h => Offset.noConfusion h }
      any_number := fun h => absurd h Bool.false_ne_true
      caseless := fun _ content h b hb => by
        rw [← Value.bytes.inj h] at hb
        rw [List.mem_singleton.1 hb]
        rfl
      weight := rfl
      description := ⟨by decide, by decide, by decide⟩ }

theorem written_extremeText : Written extremeRules extremeText := by
  refine ⟨[], " me".toList, ["-9223372036854775808\tstring\t=\\000x\\xfF>\tP".toList,
      "&(-1.S-2)\tlelong&0x8000000000000000\t&-9223372036854775808".toList,
      ">0\tstring/c\t>Q\t[k=%.9s]".toList],
    by decide, by decide, ?_, by decide +kernel⟩
  rw [entries_extremeRules]
  refine .cons ?_ (.cons ?_ (.cons ?_ .nil))
  · -- A byte may be spelled by three octal digits, by itself, or by two hexadecimal ones.
    have hspelled : Spelled [0, 120, 255, 62] "\\000x\\xfF>".toList :=
      .cons 0 _ "\\000".toList _ .octal (.cons 120 _ ['x'] _ (.plain (by decide))
        (.cons 255 _ "\\xfF".toList _ (.hexadecimal 'f' 'F' (Or.inl rfl) (Or.inr rfl))
          (.cons 62 _ ['>'] [] (.plain (by decide)) .nil)))
    exact ⟨_, _, _, .direct (-9223372036854775808), .unmasked rfl,
      .bytes .equal _ _ Operator.noConfusion hspelled, by decide +kernel⟩
  · exact ⟨_, _, _, .indirect ⟨-1, .beShort, -2⟩ 'S' "-2".toList (by decide) (.minus (by decide)),
      .masked "8000000000000000".toList rfl (List.forall₂_same.2 fun _ _ => Or.inl rfl),
      .number .sharesBits (-9223372036854775808) Operator.noConfusion, by decide +kernel⟩
  · exact ⟨_, _, _, .direct 0, .unmasked rfl, .bytes .greater [81] ['Q'] Operator.noConfusion
      (.cons 81 [] ['Q'] [] (.plain (by decide)) .nil), by decide +kernel⟩

/-- It is read back from its bytes. -/
theorem ofText_of_extremeText : extremeRules.Writable ∧ Written extremeRules extremeText
    ∧ RuleSet.ofBytes extremeText.latin1Bytes = .ok extremeRules :=
  ⟨writable_extremeRules, written_extremeText,
    ((ofText_of_written extremeRules writable_extremeRules).2 extremeText written_extremeText).2
      (isLatin1_of_all _ (by decide +kernel))⟩

end FileSignatures
