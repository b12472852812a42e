import FileSignatures.Database.Builtin
import FileSignatures.Proofs.Matching.Counted
import FileSignatures.Proofs.Matching.Growth
import FileSignatures.Proofs.Property.OpenGroup

/-!
# Signatures that win whatever follows

Most formats put a mark in front of a file, and a signature that looks for one has no say
in what comes behind it. Other rules do look there: at far positions, through pointers, or
counted from the end. None of them can take the file away from the signature of its mark
if it is long enough. Any other signature is either not longer, or its head compares the
beginning of the file with a string that contradicts the mark. `Signature.leads` goes
through a list of signatures and checks this, so that the check has to be made once and not
for every file (`firstLongest_of_leads`).

PNG images are such files in the built-in database. Their signature adds the width and the
height of the image, each if the file is long enough for it. In a truncated file the group
with the resolution is therefore missing, or it is not closed and still extracted
(`identifyBytes_of_png`).

## Main definitions

* `Rule.contradicts`: A rule cannot hold on bytes that begin with a mark.
* `Signature.leads`: A signature wins on all bytes that begin with a mark.
* `Database.pngMark`, `Database.pngSignature`: The mark of PNG images and its signature.
* `Database.pngResolution?`: The resolution that a PNG image states.

## Theorems

* `not_holdsWith_of_contradicts`: A rule that contradicts the mark does not hold.
* `firstLongest_of_leads`: A signature that leads wins, whatever follows the mark.
* `holdsWith_number_iff`: When a rule holds that takes any number.
* `builtin_leads`: The signature of PNG images leads the built-in database.
* `contributes_pngSignature`: What its extra-info rules add.
* `identifyBytes_of_png`: How a file with the mark of PNG images is identified.
-/

namespace FileSignatures

/-- Whether a rule cannot hold on bytes that begin with a mark: it looks for a string at
    their beginning which differs from the mark, as far as both go. -/
def Rule.contradicts (mark : List UInt8) (rule : Rule) : Bool :=
  rule.offset = .direct 0 && !rule.type.isNumeric && rule.operator = .equal
    && match rule.operand with
      | .bytes content => content.take mark.length ≠ (rule.type.foldCase mark).take content.length
      | .number _ => false

/-- Whether a signature wins on all bytes that begin with a mark, provided that it matches
    them: those before it are shorter, those after it are not longer, or else they
    contradict the mark. -/
def Signature.leads (mark : List UInt8) (winner : Signature) : List Signature → Bool
  | [] => false
  | signature :: rest =>
    if signature = winner then
      rest.all fun other => other.length ≤ winner.length || other.head.contradicts mark
    else
      (signature.length < winner.length || signature.head.contradicts mark)
        && leads mark winner rest

theorem take_foldCase (type : ValueType) (bytes : List UInt8) (count : Nat) :
    (type.foldCase bytes).take count = type.foldCase (bytes.take count) := by
  cases type <;> first
    | exact List.map_take.symm
    | rfl

section Mark

variable (mark rest : List UInt8)

/-- A rule that contradicts the mark does not hold, whatever follows the mark. -/
theorem not_holdsWith_of_contradicts (rule : Rule) (h : rule.contradicts mark = true)
    (value : Value) : ¬ rule.HoldsWith (mark ++ rest) value := by
  unfold Rule.contradicts at h
  simp only [Bool.and_eq_true, decide_eq_true_eq, Bool.not_eq_true'] at h
  obtain ⟨⟨⟨hoffset, hstring⟩, hoperator⟩, hdiffers⟩ := h
  rintro ⟨start, bytes, hleads, hreads, hvalue, haccepts⟩
  -- What is compared stands at the beginning.
  have hbase : Offset.LeadsTo (mark ++ rest) (.direct 0) 0 := .direct 0 0 ⟨Nat.zero_le _, rfl⟩
  rw [hoffset] at hleads
  have hstart := leadsTo_unique _ _ start 0 hleads hbase
  subst hstart
  have hread := (reads_of_equal_iff _ rule 0 bytes (Nat.zero_le _) hstring hoperator).1 hreads
  obtain ⟨-, hbytes⟩ := (stretch?_eq_some_iff _ 0 _ bytes).1 hread
  rw [List.drop_zero] at hbytes
  rw [valueOf_of_string rule bytes hstring] at hvalue
  rw [hvalue, hoperator] at haccepts
  generalize hoperand : rule.operand = operand at hdiffers haccepts
  cases haccepts with
  | equal _ =>
      -- The operand is what has been read, so both agree as far as they go.
      have hsize : rule.operand.size = (rule.type.foldCase bytes).length := by
        rw [hoperand]
        rfl
      refine of_decide_eq_true hdiffers ?_
      rw [← hsize, take_foldCase, take_foldCase, hbytes, List.take_take, Nat.min_comm,
        ← List.take_take, List.take_left]

/-- A signature that leads wins on all bytes that begin with the mark, by induction on the
    signatures in front of it. -/
theorem firstLongest_of_leads (winner : Signature) (signatures : List Signature)
    (hwinner : winner.Candidate (mark ++ rest)) (h : winner.leads mark signatures = true) :
    Signature.FirstLongest (Signature.Candidate (mark ++ rest)) signatures winner := by
  -- A candidate is a signature whose head does not contradict the mark.
  have hhead : ∀ other : Signature, other.Candidate (mark ++ rest) →
      ¬ other.head.contradicts mark = true := by
    intro other hother hcontra
    obtain ⟨value, hvalue⟩ := hother other.head List.mem_cons_self
    exact not_holdsWith_of_contradicts mark rest other.head hcontra value hvalue
  induction signatures with
  | nil => exact absurd h Bool.false_ne_true
  | cons signature others ih =>
      rw [Signature.leads] at h
      by_cases hsame : signature = winner
      · rw [if_pos hsame, List.all_eq_true] at h
        subst hsame
        refine firstLongest_front _ signature others hwinner ?_
        intro other hmem hother
        have hbehind := h other hmem
        rw [Bool.or_eq_true, decide_eq_true_eq] at hbehind
        exact hbehind.resolve_right (hhead other hother)
      · rw [if_neg hsame, Bool.and_eq_true, Bool.or_eq_true, decide_eq_true_eq] at h
        refine firstLongest_cons _ signature winner others ?_ (ih h.2)
        intro hother
        exact h.1.resolve_right (hhead signature hother)

end Mark

/-- A rule that takes any number at a position holds if the number fits there, and with
    nothing else. -/
theorem holdsWith_number_iff (d : List UInt8) (rule : Rule) (base : Int64) (position : Nat)
    (hoffset : rule.offset = .direct base) (hbase : base.toInt = position)
    (hnumeric : rule.type.isNumeric = true) (hoperator : rule.operator = .any) (value : Value) :
    rule.HoldsWith d value ↔ position + rule.type.width ≤ d.length
      ∧ value = rule.valueOf ((d.drop position).take rule.type.width) := by
  constructor
  · rintro ⟨start, bytes, hleads, hreads, hvalue, -⟩
    rw [hoffset] at hleads
    -- The base is not negative, so the offset leads to this one place.
    have hstart : start = position := by
      cases hleads with
      | direct _ _ hat =>
          have hposition := hat.2
          rw [if_pos (by omega)] at hposition
          omega
    subst hstart
    cases hreads with
    | number _ hfits => exact ⟨hfits, hvalue⟩
    | exact hstring => exact absurd (hstring.symm.trans hnumeric) Bool.false_ne_true
    | capture hstring => exact absurd (hstring.symm.trans hnumeric) Bool.false_ne_true
  · rintro ⟨hfits, hvalue⟩
    refine ⟨position, _, ?_, .number hnumeric hfits, hvalue, ?_⟩
    · rw [hoffset]
      refine .direct base position ⟨by omega, ?_⟩
      rw [if_pos (by omega), hbase]
    · rw [hoperator]
      exact .any _ _

/-- A template with one decimal conversion, filled with a number as it is read. -/
theorem fill_reading (rule : Rule) (bytes : List UInt8) (before after : Text)
    (hnumeric : rule.type.isNumeric = true) (hmask : rule.mask = Value.fullMask)
    (hlength : bytes.length = rule.type.width)
    (hsegments : Template.segments rule.description = before.map .literal
      ++ .conversion ScanState.plainConversion ['%'] 'd' :: after.map .literal) :
    Template.fill rule.description (rule.valueOf bytes)
      = before ++ (Text.ofNat (rule.type.unsignedReading bytes) ++ after) := by
  have hnumber := toInt_toInt64_ofNat (rule.type.unsignedReading bytes)
    (unsignedReading_lt_of_width rule.type bytes hlength)
  unfold Rule.valueOf
  rw [if_pos hnumeric, hmask, and_fullMask, fill_of_segments _ before after _ _ _ _ hsegments,
    fill_natural _ _ (by omega), hnumber, Int.natAbs_natCast]

namespace Database

/-- The bytes that every PNG image begins with. -/
def pngMark : List UInt8 :=
  [0x89, 0x50, 0x4e, 0x47, 0x0d, 0x0a, 0x1a, 0x0a]

/-- The rule that adds the width of a PNG image, and begins a group with it. -/
def pngWidthRule : Rule :=
  ⟨10, .direct 16, .beLong, Value.fullMask, .any, .number 0, "[res=%d".toList, none, 8⟩

/-- The rule that adds its height, and ends the group. -/
def pngHeightRule : Rule :=
  ⟨11, .direct 20, .beLong, Value.fullMask, .any, .number 0, "x%d]".toList, none, 8⟩

/-- The signature of PNG images. -/
def pngSignature : Signature where
  head := ⟨9, .direct 0, .string, Value.fullMask, .equal, .bytes pngMark,
    "PNG image data [ext=png;fid=PNG;mime=image/png]".toList, none, 8⟩
  continuations := []
  extras := [pngWidthRule, pngHeightRule]

/-- The number of four bytes at a position, the most significant one first, in decimal. -/
def pngNumber (d : List UInt8) (position : Nat) : Text :=
  Text.ofNat (ValueType.beLong.unsignedReading ((d.drop position).take 4))

/-- The resolution that a PNG image states, as far as it is there: width and height, or the
    width alone. -/
def pngResolution? (d : List UInt8) : Option Text :=
  if 24 ≤ d.length then some (pngNumber d 16 ++ 'x' :: pngNumber d 20)
  else if 20 ≤ d.length then some (pngNumber d 16)
  else none

/-- The group with the resolution, which is not closed behind a width alone. -/
def pngGroup (d : List UInt8) : Text :=
  if 24 ≤ d.length then
    '[' :: (("res=".toList ++ (pngNumber d 16 ++ 'x' :: pngNumber d 20)) ++ [']'])
  else if 20 ≤ d.length then '[' :: ("res=".toList ++ pngNumber d 16)
  else []

/-- Whether a database can be read and the signature of PNG images leads in it. -/
def isLedByPng (text : Text) : Bool :=
  match RuleSet.ofText text with
  | .error _ => false
  | .ok rules => pngSignature.leads pngMark rules.signatures

end Database

open Database

/-- The signature of PNG images leads in the built-in database. This is computed, on the
    characters of its text. -/
theorem isLedByPng_builtinText : isLedByPng builtinText = true := by
  simp only [builtinText, builtinLines, List.flatMap_cons, List.flatMap_nil,
    String.toList_append]
  repeat rw [String.toList_ofList]
  decide +kernel

/-- What the computation says, of any text. -/
theorem of_isLedByPng (text : Text) (h : isLedByPng text = true) :
    ∃ rules, RuleSet.ofText text = .ok rules
      ∧ pngSignature.leads pngMark rules.signatures = true := by
  unfold isLedByPng at h
  split at h
  · exact absurd h Bool.false_ne_true
  · rename_i rules hparse
    exact ⟨rules, hparse, h⟩

/-- The built-in database can be read, and the signature of PNG images leads in it. -/
theorem builtin_leads : ∃ rules, RuleSet.builtin = .ok rules
    ∧ pngSignature.leads pngMark rules.signatures = true :=
  of_isLedByPng builtinText isLedByPng_builtinText

/-- Bytes with the mark of PNG images match their signature. -/
theorem candidate_pngSignature (r : List UInt8) : pngSignature.Candidate (pngMark ++ r) := by
  intro rule hrule
  rw [List.mem_singleton.1 hrule]
  refine ⟨.bytes pngMark, holdsWith_append pngMark r _ _ (by decide) ?_⟩
  have hstart : Offset.LeadsTo pngMark (.direct 0) 0 := .direct 0 0 ⟨Nat.zero_le _, rfl⟩
  exact ⟨0, _, hstart, .exact rfl rfl (by decide), rfl, .equal _⟩

/-- What a rule for a number of four bytes adds, if the number is there. -/
theorem fill_pngNumber (d : List UInt8) (rule : Rule) (position : Nat) (before after : Text)
    (htype : rule.type = .beLong) (hmask : rule.mask = Value.fullMask)
    (hfits : position + 4 ≤ d.length)
    (hsegments : Template.segments rule.description = before.map .literal
      ++ .conversion ScanState.plainConversion ['%'] 'd' :: after.map .literal) :
    Template.fill rule.description (rule.valueOf ((d.drop position).take rule.type.width))
      = before ++ (pngNumber d position ++ after) := by
  have hwidth : rule.type.width = 4 := by rw [htype]; rfl
  have hlength : ((d.drop position).take rule.type.width).length = rule.type.width := by
    rw [List.length_take, List.length_drop]
    omega
  rw [fill_reading rule _ before after (by rw [htype]; rfl) hmask hlength hsegments, hwidth, htype]
  rfl

/-- The extra-info rules add the group with the resolution. -/
theorem contributes_pngSignature (d : List UInt8) :
    Contributes d pngSignature.extras (pngGroup d) := by
  have hwidth := holdsWith_number_iff d pngWidthRule 16 16 rfl (by decide) rfl rfl
  have hheight := holdsWith_number_iff d pngHeightRule 20 20 rfl (by decide) rfl rfl
  have hfour : pngWidthRule.type.width = 4 ∧ pngHeightRule.type.width = 4 := ⟨rfl, rfl⟩
  rw [hfour.1] at hwidth
  rw [hfour.2] at hheight
  -- The height comes last, so where it is there, the width is, too.
  by_cases hlong : 24 ≤ d.length
  · have hadded := Contributes.holds (d := d) pngWidthRule [pngHeightRule] _ _
      ((hwidth _).2 ⟨by omega, rfl⟩)
      (.holds pngHeightRule [] _ [] ((hheight _).2 ⟨by omega, rfl⟩) .nil)
    have hgroup : pngGroup d = "[res=".toList ++ (pngNumber d 16 ++ [])
        ++ ("x".toList ++ (pngNumber d 20 ++ "]".toList) ++ []) := by
      unfold pngGroup
      rw [if_pos hlong]
      simp
    rw [hgroup]
    rw [← fill_pngNumber d pngWidthRule 16 _ _ rfl rfl (by omega) (by decide)]
    rw [← fill_pngNumber d pngHeightRule 20 _ _ rfl rfl (by omega) (by decide)]
    exact hadded
  · have hno : ∀ value, ¬ pngHeightRule.HoldsWith d value := by
      intro value hvalue
      have hfits := ((hheight value).1 hvalue).1
      omega
    by_cases hshort : 20 ≤ d.length
    · have hadded := Contributes.holds (d := d) pngWidthRule [pngHeightRule] _ _
        ((hwidth _).2 ⟨by omega, rfl⟩) (.fails pngHeightRule [] [] hno .nil)
      have hgroup : pngGroup d = "[res=".toList ++ (pngNumber d 16 ++ []) ++ [] := by
        unfold pngGroup
        rw [if_neg hlong, if_pos hshort]
        simp
      rw [hgroup, ← fill_pngNumber d pngWidthRule 16 _ _ rfl rfl (by omega) (by decide)]
      exact hadded
    · have hnone : ∀ value, ¬ pngWidthRule.HoldsWith d value := by
        intro value hvalue
        have hfits := ((hwidth value).1 hvalue).1
        omega
      have hgroup : pngGroup d = [] := by
        unfold pngGroup
        rw [if_neg hlong, if_neg hshort]
      rw [hgroup]
      exact .fails pngWidthRule _ _ hnone (.fails pngHeightRule [] [] hno .nil)

/-- Texts are recorded as they are stated. -/
theorem recordAll_of_texts (evaluator : Evaluator) (map : PropertyMap)
    (stated : List (Text × Text)) (h : ∀ property ∈ stated,
      property.1 ≠ PropertyKey.channels ∧ property.1 ≠ PropertyKey.frameRate) :
    Property.recordAll evaluator map stated
      = .ok (stated.foldl (fun map property => map.insert property.1 property.2) map) := by
  induction stated generalizing map with
  | nil => rfl
  | cons property rest ih =>
      obtain ⟨hchannels, hframeRate⟩ := h property List.mem_cons_self
      rw [Property.recordAll, Property.reading, if_neg hchannels, if_neg hframeRate]
      exact ih _ fun other hother => h other (List.mem_cons_of_mem _ hother)

/-- A group with a resolution states it. -/
theorem stated_resolution (value : Text) (h : ∀ c ∈ value, isDigit c = true ∨ c = 'x') :
    (∀ c ∈ "res=".toList ++ value, c ≠ '[' ∧ c ≠ ']')
    ∧ (Text.pieces ';' ("res=".toList ++ value)).filterMap Property.stated?
      = [(PropertyKey.resolution, value)] := by
  -- Digits and the letter between them neither end the group nor begin another property.
  have hplain : ∀ c ∈ "res=".toList ++ value, c ≠ '[' ∧ c ≠ ']' ∧ c ≠ ';' := by
    intro c hc
    rcases List.mem_append.1 hc with hc | hc
    · exact plain_of_all "res=".toList (by decide) c hc
    · rcases h c hc with hdigit | rfl
      · exact plain_of_isDigit c hdigit
      · decide
  have hvisible : ∀ c ∈ value, isControlOrSpace c = false := by
    intro c hc
    rcases h c hc with hdigit | rfl
    · exact not_control_of_isDigit c hdigit
    · decide
  have htoken := Property.stated?_append PropertyKey.resolution value (by decide)
  have hreported : PropertyKey.reported PropertyKey.resolution = PropertyKey.resolution := by
    decide +kernel
  rw [if_neg (by decide), hreported, trimBy_eq_self isControlOrSpace value hvisible] at htoken
  refine ⟨fun c hc => ⟨(hplain c hc).1, (hplain c hc).2.1⟩, ?_⟩
  rw [pieces_eq_singleton ';' _ fun hmem => (hplain ';' hmem).2.2 rfl]
  exact List.filterMap_cons_some htoken

theorem digit_of_mem_pngNumber (d : List UInt8) (position : Nat) (c : Char)
    (h : c ∈ pngNumber d position) : isDigit c = true :=
  isDigit_of_mem_ofNat _ c h

/-- The description of a PNG image states its resolution behind what it always states, and
    its comment does not depend on the resolution. -/
theorem stated_pngGroup (d : List UInt8) :
    (Description.split (pngSignature.head.description ++ pngGroup d)).1 = "PNG image data ".toList
    ∧ Description.stated (pngSignature.head.description ++ pngGroup d)
      = [(PropertyKey.suffix, "png".toList), (PropertyKey.format, "PNG".toList),
          (PropertyKey.mime, "image/png".toList)]
        ++ (pngResolution? d).toList.map fun resolution =>
          (PropertyKey.resolution, resolution) := by
  have hbalanced : Description.Balanced pngSignature.head.description := by
    unfold Description.Balanced
    decide
  have hsplit : (Description.split pngSignature.head.description).1 = "PNG image data ".toList := by
    decide +kernel
  have hstated : Description.stated pngSignature.head.description
      = [(PropertyKey.suffix, "png".toList), (PropertyKey.format, "PNG".toList),
        (PropertyKey.mime, "image/png".toList)] := by
    decide +kernel
  unfold pngGroup pngResolution?
  -- With both numbers the group is complete, with the width alone it stays open.
  by_cases hlong : 24 ≤ d.length
  · have hvalue : ∀ c ∈ pngNumber d 16 ++ 'x' :: pngNumber d 20,
        isDigit c = true ∨ c = 'x' := by
      intro c hc
      rcases List.mem_append.1 hc with hc | hc
      · exact Or.inl (digit_of_mem_pngNumber d 16 c hc)
      · rcases List.mem_cons.1 hc with rfl | hc
        · exact Or.inr rfl
        · exact Or.inl (digit_of_mem_pngNumber d 20 c hc)
    obtain ⟨hbody, hresolution⟩ := stated_resolution _ hvalue
    rw [if_pos hlong, if_pos hlong, Description.split_append_group _ _ hbalanced hbody,
      Description.stated_append_group _ _ hbalanced hbody, hstated, hresolution]
    exact ⟨hsplit, rfl⟩
  · rw [if_neg hlong, if_neg hlong]
    by_cases hshort : 20 ≤ d.length
    · obtain ⟨hbody, hresolution⟩ := stated_resolution (pngNumber d 16)
        fun c hc => Or.inl (digit_of_mem_pngNumber d 16 c hc)
      have hgroup : '[' ∈ pngSignature.head.description := by decide
      rw [if_pos hshort, if_pos hshort, Description.split_append_open _ _ hbalanced hgroup hbody,
        Description.stated_append_open _ _ hbalanced hgroup hbody, hstated, hresolution]
      exact ⟨hsplit, rfl⟩
    · rw [if_neg hshort, if_neg hshort, List.append_nil, hstated]
      exact ⟨hsplit, rfl⟩

/-- The properties of a PNG image, in the order of their keys. -/
theorem ofDescription_pngGroup (evaluator : Evaluator) (d : List UInt8) :
    ∃ extraction,
      Extraction.ofDescription evaluator (pngSignature.head.description ++ pngGroup d)
        = .ok extraction
      ∧ extraction.comment = "PNG image data ".toList
      ∧ extraction.properties.entries
        = [(PropertyKey.comment, "PNG image data ".toList), (PropertyKey.suffix, "png".toList),
            (PropertyKey.format, "PNG".toList), (PropertyKey.mime, "image/png".toList)]
          ++ (pngResolution? d).toList.map fun resolution =>
            (PropertyKey.resolution, resolution) := by
  obtain ⟨hcomment, hstated⟩ := stated_pngGroup d
  have hown : ∀ property ∈ [(PropertyKey.suffix, "png".toList),
      (PropertyKey.format, "PNG".toList), (PropertyKey.mime, "image/png".toList)],
      property.1 ≠ PropertyKey.channels ∧ property.1 ≠ PropertyKey.frameRate := by decide
  -- No stated property is numeric, so none of them can be rejected.
  have htexts : ∀ property ∈ Description.stated (pngSignature.head.description ++ pngGroup d),
      property.1 ≠ PropertyKey.channels ∧ property.1 ≠ PropertyKey.frameRate := by
    intro property hproperty
    rw [hstated] at hproperty
    rcases List.mem_append.1 hproperty with hproperty | hproperty
    · exact hown property hproperty
    · obtain ⟨resolution, -, rfl⟩ := List.mem_map.1 hproperty
      have hname : PropertyKey.resolution ≠ PropertyKey.channels
          ∧ PropertyKey.resolution ≠ PropertyKey.frameRate := by decide
      exact hname
  rw [ofDescription_eq_recordAll, recordAll_of_texts evaluator _ _ htexts, hcomment, hstated]
  refine ⟨_, rfl, rfl, ?_⟩
  cases pngResolution? d with
  | none => rfl
  | some resolution => rfl

/-- Every file that begins with the mark of PNG images is identified by the built-in
    database as one, whatever follows. Its properties are those of the signature, the
    comment, and the resolution as far as it is there: width and height if at least sixteen
    bytes follow the mark, the width alone if twelve do, and else nothing. -/
theorem identifyBytes_of_png (evaluator : Evaluator) (r : List UInt8) :
    ∃ rules result, RuleSet.builtin = .ok rules
      ∧ rules.identifyBytes evaluator (pngMark ++ r).toArray = .ok result
      ∧ result.identified = true ∧ result.matchedLine = some 9
      ∧ result.comment = "PNG image data ".toList
      ∧ result.properties.entries
        = [(PropertyKey.comment, "PNG image data ".toList), (PropertyKey.suffix, "png".toList),
            (PropertyKey.format, "PNG".toList), (PropertyKey.mime, "image/png".toList)]
          ++ (if 16 ≤ r.length then [(PropertyKey.resolution,
                pngNumber (pngMark ++ r) 16 ++ 'x' :: pngNumber (pngMark ++ r) 20)]
              else if 12 ≤ r.length then [(PropertyKey.resolution, pngNumber (pngMark ++ r) 16)]
              else []) := by
  obtain ⟨rules, hparse, hleads⟩ := builtin_leads
  have hrules := wellFormed_of_ofText builtinText rules hparse
  have hwinner := firstLongest_of_leads pngMark r pngSignature rules.signatures
    (candidate_pngSignature r) hleads
  have hadded := contributes_pngSignature (pngMark ++ r)
  obtain ⟨extraction, hextraction, hcomment, hentries⟩ :=
    ofDescription_pngGroup evaluator (pngMark ++ r)
  refine ⟨rules, _, hparse, (identifies_iff rules hrules evaluator _ _).2
    (.identified pngSignature _ extraction hwinner hadded hextraction), rfl, rfl, hcomment, ?_⟩
  -- The mark takes eight bytes, in front of those that are counted here.
  have hlength : (pngMark ++ r).length = 8 + r.length := by
    rw [List.length_append]
    rfl
  rw [hentries]
  unfold pngResolution?
  by_cases hlong : 16 ≤ r.length
  · rw [if_pos hlong, if_pos (by omega)]
    rfl
  · rw [if_neg hlong, if_neg (by omega)]
    by_cases hshort : 12 ≤ r.length
    · rw [if_pos hshort, if_pos (by omega)]
      rfl
    · rw [if_neg hshort, if_neg (by omega)]
      rfl

end FileSignatures
