import FileSignatures.Proofs.Matching.Captured
import FileSignatures.Proofs.Number.Digits

/-!
# Captures are shown in full

Two readers look for the conversion of a string in a description. When a database is read,
the one in the first bracketed section says how many bytes a rule captures; when a
description is filled in, a precision says how many characters are shown. Both find the
same count, wherever the conversion stands in the section and whatever surrounds it, so
all that has been captured is shown (`fill_conversion_of_length_le`).

A rule that accepts any string holds if its capture ends: with a zero byte in time, or with
all of its bytes there. It then adds its description with the string in place of the
conversion, and nothing otherwise (`Rule.ShowsCapture`).

## Main definitions

* `Template.CaptureConversion`: The conversion of a string, and how much it captures.
* `CaptureEnds`: A capture at a position ends within the data.
* `capturedText`: The characters of a capture.
* `Rule.ShowsCapture`: The text that a rule with a capture adds.

## Theorems

* `captureLength_of_conversion`: How much is captured.
* `fill_conversion_of_length_le`: What is captured is shown.
* `holdsWith_capture_iff`: When a rule with a capture holds.
* `showsCapture_contributionsIn`: What such a rule adds.
* `description_of_extra`: Where in the description it stands.
* `captured_text_is_shown`: The same for parsed rules and whole identifications.
-/

namespace FileSignatures

namespace Template

/-- The conversion of a string, and how many bytes it captures: as many as its precision
    says, which is a number of 64 bits, or as many as by default. -/
inductive CaptureConversion : Text → Nat → Prop
  | whole : CaptureConversion ['%', 's'] defaultCapture
  | bounded (digits : Text) (hne : digits ≠ []) (hdigits : ∀ c ∈ digits, isDigit c = true)
      (hrange : Text.decimalValue digits < 2 ^ 64) :
      CaptureConversion ('%' :: '.' :: (digits ++ ['s'])) (Text.decimalValue digits)

section Conversion

variable (before conversion after : Text) (limit : Nat) (h : Encloses before after)
  (hconversion : CaptureConversion conversion limit)

include h hconversion

/-- A description captures as many bytes as its conversion says. -/
theorem captureLength_of_conversion :
    captureLength (before ++ (conversion ++ after)) = .ok limit := by
  cases hconversion with
  | whole => exact captureLength_whole before after h
  | bounded digits hne hdigits hrange =>
      have hcount : count? digits = some (Text.decimalValue digits) := by
        unfold count?
        rw [digitsValue?_of_isDigit digits hne hdigits, Option.filter_some]
        exact if_pos (decide_eq_true hrange)
      rw [captureLength_bounded before after h digits hdigits]
      simp only [if_neg hne, hcount]

/-- A string that has been captured is not cut off again. -/
theorem fill_conversion_of_length_le (content : List UInt8)
    (hlength : (Value.display (.bytes content)).length ≤ limit) :
    fill (before ++ (conversion ++ after)) (.bytes content)
      = before ++ (Value.display (.bytes content) ++ after) := by
  cases hconversion with
  | whole => exact fill_whole before after h.plain_before h.plain_after content
  | bounded digits hne hdigits hrange =>
      have hcount := count?_of_captureLength before after h digits hdigits _
        (captureLength_of_conversion before _ after _ h (.bounded digits hne hdigits hrange))
      rw [fill_bounded before after h.plain_before h.plain_after digits hdigits _ hcount,
        List.take_of_length_le hlength]

end Conversion

end Template

/-- A capture of so many bytes at a position ends within the data: with a zero byte, or
    with the last of its bytes. -/
def CaptureEnds (d : List UInt8) (limit position : Nat) : Prop :=
  0 ∈ (d.drop position).take limit ∨ position + limit ≤ d.length

/-- The characters of a capture, up to its first zero byte. -/
def capturedText (d : List UInt8) (limit position : Nat) : Text :=
  Text.ofLatin1 (((d.drop position).take limit).takeWhile (· ≠ 0))

/-- The text that a rule with a capture adds: if the capture ends, the description with what
    has been captured in place of the conversion, and nothing otherwise. -/
structure Rule.ShowsCapture (d : List UInt8) (rule : Rule) (before after : Text) (limit : Nat)
    (fragment : Text) : Prop where
  added : fragment ≠ [] ↔ ∃ position, rule.offset.LeadsTo d position
    ∧ CaptureEnds d limit position
  whole : ∀ position, rule.offset.LeadsTo d position → CaptureEnds d limit position →
    fragment = before ++ (capturedText d limit position ++ after)

section Capture

variable (d : List UInt8) (rule : Rule) (limit : Nat) (htype : rule.type = .string)
  (hoperator : rule.operator = .any) (hcapture : rule.capture = some limit)

include htype hoperator hcapture

/-- A rule that accepts any string holds with each capture that ends. -/
theorem holdsWith_capture_iff (value : Value) :
    rule.HoldsWith d value ↔ ∃ position bytes, rule.offset.LeadsTo d position
      ∧ bytes <+: d.drop position ∧ UpToZero limit bytes ∧ value = .bytes bytes := by
  have hstring : rule.type.isNumeric = false := by
    rw [htype]
    rfl
  have hvalue : ∀ bytes, rule.valueOf bytes = .bytes bytes := by
    intro bytes
    rw [valueOf_of_string rule bytes hstring, htype]
    rfl
  have haccepts : rule.operator.Accepts value rule.operand := by
    rw [hoperator]
    exact .any value rule.operand
  -- Nothing is compared, so holding is nothing more than reading.
  constructor
  · rintro ⟨position, bytes, hleads, hreads, rfl, -⟩
    obtain ⟨hfront, hzero⟩ := (reads_of_capture_iff d rule position limit bytes
      (leadsTo_le _ _ _ hleads) hstring (Or.inl hoperator) hcapture).1 hreads
    exact ⟨position, bytes, hleads, hfront, hzero, hvalue bytes⟩
  · rintro ⟨position, bytes, hleads, hfront, hzero, rfl⟩
    have hreads := (reads_of_capture_iff d rule position limit bytes (leadsTo_le _ _ _ hleads)
      hstring (Or.inl hoperator) hcapture).2 ⟨hfront, hzero⟩
    exact ⟨position, bytes, hleads, hreads, (hvalue bytes).symm, haccepts⟩

/-- That it holds at all says that the capture ends. -/
theorem exists_holdsWith_iff :
    (∃ value, rule.HoldsWith d value)
      ↔ ∃ position, rule.offset.LeadsTo d position ∧ CaptureEnds d limit position := by
  -- At a position the capture can be read exactly if it ends there.
  have hends : ∀ position, position ≤ d.length →
      ((∃ bytes, bytes <+: d.drop position ∧ UpToZero limit bytes)
        ↔ CaptureEnds d limit position) := by
    intro position hle
    rw [exists_upToZero_iff, CaptureEnds, List.length_drop, Nat.le_sub_iff_add_le' hle]
  simp only [holdsWith_capture_iff d rule limit htype hoperator hcapture]
  constructor
  · rintro ⟨-, position, bytes, hleads, hfront, hzero, -⟩
    exact ⟨position, hleads, (hends position (leadsTo_le _ _ _ hleads)).1 ⟨bytes, hfront, hzero⟩⟩
  · rintro ⟨position, hleads, hend⟩
    obtain ⟨bytes, hfront, hzero⟩ := (hends position (leadsTo_le _ _ _ hleads)).2 hend
    exact ⟨_, position, bytes, hleads, hfront, hzero, rfl⟩

/-- What it holds with is shown as the characters of the capture, which are no more than the
    limit. -/
theorem display_of_holdsWith (position : Nat) (value : Value)
    (hleads : rule.offset.LeadsTo d position) (hvalue : rule.HoldsWith d value) :
    ∃ content, value = .bytes content
      ∧ Value.display (.bytes content) = capturedText d limit position
      ∧ (Value.display (.bytes content)).length ≤ limit := by
  obtain ⟨start, bytes, hstart, hfront, hzero, rfl⟩ :=
    (holdsWith_capture_iff d rule limit htype hoperator hcapture value).1 hvalue
  -- The rule has held at this position, since its offset leads to no other one.
  rw [leadsTo_unique d rule.offset start position hstart hleads] at hfront
  have hstring : rule.type.isNumeric = false := by
    rw [htype]
    rfl
  refine ⟨bytes, rfl, ?_, length_display_le d rule hstring hoperator bytes limit hcapture hvalue⟩
  unfold Value.display capturedText
  simp only [takeWhile_of_upToZero limit _ bytes hfront hzero]

variable (before conversion after : Text)
  (hdescription : rule.description = before ++ (conversion ++ after))
  (henclosed : Template.Encloses before after)
  (hconversion : Template.CaptureConversion conversion limit)

include hdescription henclosed hconversion

/-- Its description is filled with all that has been captured. -/
theorem fill_description_of_holdsWith (position : Nat) (value : Value)
    (hleads : rule.offset.LeadsTo d position) (hvalue : rule.HoldsWith d value) :
    Template.fill rule.description value
      = before ++ (capturedText d limit position ++ after) := by
  obtain ⟨content, rfl, hdisplay, hlength⟩ := display_of_holdsWith d rule limit htype
    hoperator hcapture position value hleads hvalue
  rw [hdescription, Template.fill_conversion_of_length_le before conversion after limit henclosed
    hconversion content hlength, hdisplay]

/-- A rule with a capture adds what it has captured in full, in place of the conversion. -/
theorem showsCapture_contributionsIn (hrule : rule.WellFormed) :
    rule.ShowsCapture d before after limit (Rule.contributionsIn d.length d [rule]) := by
  have hends := exists_holdsWith_iff d rule limit htype hoperator hcapture
  have hadded := (contributes_iff d [rule] (List.forall_mem_singleton.2 hrule) _).2 rfl
  generalize Rule.contributionsIn d.length d [rule] = fragment at hadded
  cases hadded with
  | holds _ _ value text hvalue hrest =>
      cases hrest
      rw [List.append_nil]
      have hshown := fun position hleads => fill_description_of_holdsWith d rule limit htype
        hoperator hcapture before conversion after hdescription henclosed hconversion position value
        hleads hvalue
      obtain ⟨position, hleads, hend⟩ := hends.1 ⟨value, hvalue⟩
      -- The text before the conversion holds a bracket, so the rule adds something.
      refine ⟨iff_of_true ?_ ⟨position, hleads, hend⟩, fun other hother _ => hshown other hother⟩
      rw [hshown position hleads]
      exact List.append_ne_nil_of_left_ne_nil (List.ne_nil_of_mem henclosed.opened) _
  | fails _ _ _ hfails hrest =>
      cases hrest
      have hnone : ¬∃ position, rule.offset.LeadsTo d position ∧ CaptureEnds d limit position := by
        rw [← hends]
        rintro ⟨value, hvalue⟩
        exact hfails value hvalue
      exact ⟨iff_of_false (not_not.2 rfl) hnone, fun position hleads hend =>
        absurd ⟨position, hleads, hend⟩ hnone⟩

end Capture

/-- The text of a rule stands between the texts of those before and after it. -/
theorem contributionsIn_append_cons (size : Nat) (d : List UInt8) (first second : List Rule)
    (rule : Rule) :
    Rule.contributionsIn size d (first ++ rule :: second)
      = Rule.contributionsIn size d first
        ++ (Rule.contributionsIn size d [rule] ++ Rule.contributionsIn size d second) := by
  unfold Rule.contributionsIn
  rw [List.flatMap_append, List.flatMap_cons, List.flatMap_singleton]

/-- What an extra-info rule of the winner adds stands between what those before and after it
    add. -/
theorem description_of_extra (rules : RuleSet) (hrules : rules.WellFormed) (evaluator : Evaluator)
    (d : Array UInt8) (winner : Signature) (first second : List Rule) (rule : Rule)
    (result : Identification)
    (hwinner : Signature.FirstLongest (Signature.Candidate d.toList) rules.signatures winner)
    (hextras : winner.extras = first ++ rule :: second)
    (hresult : rules.identifyBytes evaluator d = .ok result) :
    ∃ added more, result.description = winner.head.description
        ++ (added ++ (Rule.contributionsIn d.toList.length d.toList [rule] ++ more))
      ∧ Contributes d.toList first added ∧ Contributes d.toList second more := by
  have hmem := (mem_and_of_firstLongest _ _ winner hwinner).1
  have hall := ((Signature.forall_rules_iff _ winner).1 (hrules winner hmem)).2.2
  have hcontributes := fun (part : List Rule) (hpart : ∀ rule ∈ part, rule ∈ winner.extras) =>
    (contributes_iff d.toList part (fun rule hmem => hall rule (hpart rule hmem)) _).2 rfl
  obtain ⟨added, extraction, hadded, -, rfl⟩ := report_of_identifies rules evaluator d.toList
    winner result hwinner ((identifies_iff rules hrules evaluator d _).1 hresult)
  -- What is added is computed rule by rule, so it splits where the list does.
  rw [← (contributes_iff d.toList winner.extras hall added).1 hadded, hextras,
    contributionsIn_append_cons]
  refine ⟨_, _, rfl, hcontributes first fun rule hmem => ?_,
    hcontributes second fun rule hmem => ?_⟩
  · rw [hextras]
    exact List.mem_append_left _ hmem
  · rw [hextras]
    exact List.mem_append_right _ (List.mem_cons_of_mem _ hmem)

/-- A rule that accepts any string captures as many bytes as its description shows
    characters, wherever the conversion stands in the first bracketed section and whatever
    is written around it. It adds its description with all that has been captured if the
    capture ends within the data, and nothing otherwise; and so it does as an extra-info
    rule of a signature that wins. -/
theorem captured_text_is_shown (number : Nat) (line before conversion after : Text) (rule : Rule)
    (limit : Nat) (h : Database.ruleOf number line = .ok (.extraInfo, rule))
    (htype : rule.type = .string) (hoperator : rule.operator = .any)
    (hdescription : rule.description = before ++ (conversion ++ after))
    (henclosed : Template.Encloses before after)
    (hconversion : Template.CaptureConversion conversion limit) (d : Array UInt8) :
    (∀ source : SeekableSource, source.medium = ⟨d, d.size, none⟩ →
      ∃ fragment settled, Rule.contributions d.size [rule] source = .ok fragment settled
        ∧ rule.ShowsCapture d.toList before after limit fragment)
    ∧ ∀ (text : Text) (rules : RuleSet) (evaluator : Evaluator) (winner : Signature)
        (first second : List Rule) (result : Identification),
      RuleSet.ofText text = .ok rules →
      Signature.FirstLongest (Signature.Candidate d.toList) rules.signatures winner →
      winner.extras = first ++ rule :: second →
      rules.identifyBytes evaluator d = .ok result →
      ∃ added fragment more,
        result.description = winner.head.description ++ (added ++ (fragment ++ more))
          ∧ Contributes d.toList first added
          ∧ rule.ShowsCapture d.toList before after limit fragment
          ∧ Contributes d.toList second more := by
  have hrule := Database.wellFormed_of_ruleOf number line .extraInfo rule h
  have hstring : rule.type.isNumeric = false := by
    rw [htype]
    rfl
  -- The limit was taken from the description when the rule was read.
  obtain ⟨found, hfound, hcapture⟩ := capture_of_any rule hrule hstring hoperator
  rw [hdescription, Template.captureLength_of_conversion before conversion after limit henclosed
    hconversion, Except.ok.injEq] at hfound
  rw [← hfound] at hcapture
  have hshows := showsCapture_contributionsIn d.toList rule limit htype hoperator hcapture before
    conversion after hdescription henclosed hconversion hrule
  refine ⟨fun source hsource => ?_, fun text rules evaluator winner first second result hparse
    hwinner hextras hresult => ?_⟩
  · obtain ⟨settled, hrun, -⟩ := contributions_of_bytes [rule] (List.forall_mem_singleton.2 hrule) d
      source hsource
    exact ⟨_, settled, hrun, hshows⟩
  · obtain ⟨added, more, hall, hadded, hmore⟩ := description_of_extra rules
      (wellFormed_of_ofText text rules hparse) evaluator d winner first second rule result hwinner
      hextras hresult
    exact ⟨added, _, more, hall, hadded, hshows, hmore⟩

namespace Database

/-- An extra-info rule that captures three characters amid other text. -/
def creditLine : Text :=
  ">2\tstring\tx\tby [creator=%.3s] and others".toList

/-- A database with this rule. -/
def creditText : Text :=
  "# FILE_ID DB\n# Date:\n# Source:\n0\tstring\tAB\tP \n".toList ++ creditLine

/-- The rule of the line. -/
def creditRule : Rule :=
  ⟨5, .direct 2, .string, Value.fullMask, .any,
    .bytes (List.replicate Template.defaultCapture 0), "by [creator=%.3s] and others".toList,
    some 3, 0⟩

/-- Its signature, the only one of the database. -/
def creditSignature : Signature where
  head := ⟨4, .direct 0, .string, Value.fullMask, .equal, .bytes [65, 66], "P ".toList, none, 2⟩
  continuations := []
  extras := [creditRule]

/-- A resource with four characters where three are captured. -/
def creditBytes : Array UInt8 :=
  #[65, 66, 97, 98, 99, 100]

end Database

open Database

theorem ofText_creditText : RuleSet.ofText creditText = .ok ⟨[creditSignature]⟩ := rfl

/-- Three of four characters are captured, and three are shown. -/
theorem captured_text_of_creditBytes :
    ruleOf 5 creditLine = .ok (.extraInfo, creditRule)
      ∧ creditRule.type = .string ∧ creditRule.operator = .any
      ∧ creditRule.description
        = "by [creator=".toList ++ ("%.3s".toList ++ "] and others".toList)
      ∧ Template.Encloses "by [creator=".toList "] and others".toList
      ∧ Template.CaptureConversion "%.3s".toList 3
      ∧ Signature.FirstLongest (Signature.Candidate creditBytes.toList) [creditSignature]
        creditSignature
      ∧ ∃ result added fragment more,
        RuleSet.identifyBytes ⟨[creditSignature]⟩ .arithmetic creditBytes = .ok result
          ∧ result.description = "P ".toList ++ (added ++ (fragment ++ more))
          ∧ creditRule.ShowsCapture creditBytes.toList "by [creator=".toList
            "] and others".toList 3 fragment
          ∧ fragment = "by [creator=abc] and others".toList := by
  have hline : ruleOf 5 creditLine = .ok (.extraInfo, creditRule) := rfl
  have henclosed : Template.Encloses "by [creator=".toList "] and others".toList :=
    ⟨by decide, by decide, by decide, by decide, by decide⟩
  have hconversion : Template.CaptureConversion "%.3s".toList 3 :=
    .bounded ['3'] (List.cons_ne_nil _ _) (List.all_eq_true.1 rfl) (by decide)
  have hwinner : Signature.FirstLongest (Signature.Candidate creditBytes.toList)
      [creditSignature] creditSignature :=
    (winnerIn?_eq_some_iff creditBytes.toList [creditSignature]
      (wellFormed_of_ofText creditText _ ofText_creditText) creditSignature).1 rfl
  obtain ⟨added, fragment, more, hresult, -, hshows, -⟩ :=
    (captured_text_is_shown 5 creditLine _ _ _ creditRule 3 hline rfl rfl rfl henclosed hconversion
      creditBytes).2 creditText ⟨[creditSignature]⟩ .arithmetic creditSignature [] [] _
      ofText_creditText hwinner rfl rfl
  -- Offset 2 is the place of the capture, and three bytes are there.
  have hfragment := hshows.whole 2 (.direct 2 2 ⟨by decide, rfl⟩) (Or.inr (by decide))
  exact ⟨hline, rfl, rfl, rfl, henclosed, hconversion, hwinner, _, added, fragment, more, rfl,
    hresult, hshows, hfragment⟩

end FileSignatures
