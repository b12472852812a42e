import FileSignatures.Proofs.Matching.Verdict
import FileSignatures.Proofs.Property.Groups
import FileSignatures.Proofs.Property.Reported
import FileSignatures.Proofs.Template.Filling

/-!
# What captured bytes can say

An extra-info rule may capture a string and put it into a property of the resource,
such as a title. The string becomes a part of the description before comment and
properties are extracted, so it can hold whatever means something there: a separator
in it begins another property, and brackets in it begin or end a group.

This module says which strings are harmless. The winner has a balanced description
with a group, one of its extra-info rules holds, and that captures a string for a
key whose value is reported as it is. Then the identification has the comment and
the properties of the description alone, with only this key set, exactly if the
string holds no separator and no bracket (`addsOnly_iff_of_captured`). With one of
these characters the string is not even reported as it is, since no value of a
property ever holds them.

## Main definitions

* `Signature.CapturesOne`: The only extra-info rule that holds captures a string.
* `Identification.AddsOnly`: One key is all that is added to a description.

## Theorems

* `contributes_of_only`: A single rule that holds adds all of the text.
* `fill_of_holdsWith`: What is captured is put into the property as a whole.
* `notMem_of_ofDescription`: Values hold no separators and no brackets.
* `extraction_iff`: When a group with one property adds only that.
* `addsOnly_iff_of_captured`: When a captured string adds only its own property.
-/

namespace FileSignatures

/-- The description of a signature is balanced and has a group, and of its
    extra-info rules exactly one holds: one that captures any string and puts it into
    the property with a key. What it captures is the string before its first zero
    byte. -/
structure Signature.CapturesOne (d : List UInt8) (winner : Signature) (key captured : Text) :
    Prop where
  balanced : Description.Balanced winner.head.description
  group : '[' ∈ winner.head.description
  rule : ∃ before rule after content, winner.extras = before ++ rule :: after
    ∧ (∀ other ∈ before ++ after, ∀ value, ¬ other.HoldsWith d value)
    ∧ rule.type.isNumeric = false ∧ rule.operator = .any ∧ FieldTemplate key rule.description
    ∧ rule.HoldsWith d (.bytes content)
    ∧ captured = Text.ofLatin1 (content.takeWhile fun b => b ≠ 0)

/-- An identification has the comment and the properties of a description by itself,
    with only one key set, to a captured string without blanks around it. -/
def Identification.AddsOnly (evaluator : Evaluator) (description key captured : Text)
    (result : Identification) : Prop :=
  ∃ own, Extraction.ofDescription evaluator description = .ok own
    ∧ result.comment = own.comment
    ∧ result.properties = own.properties.insert (PropertyKey.reported key)
      (captured.trimBy isControlOrSpace)

section Contributes

variable (d : List UInt8)

theorem contributes_append_of_fails (before rest : List Rule) (text : Text)
    (hfails : ∀ rule ∈ before, ∀ value, ¬ rule.HoldsWith d value)
    (h : Contributes d rest text) : Contributes d (before ++ rest) text := by
  induction before with
  | nil => exact h
  | cons rule before ih =>
      exact .fails rule _ text (hfails rule List.mem_cons_self)
        (ih fun other hother => hfails other (List.mem_cons_of_mem _ hother))

/-- A single rule that holds adds all of the text. -/
theorem contributes_of_only (before after : List Rule) (rule : Rule) (value : Value)
    (hfails : ∀ other ∈ before ++ after, ∀ v, ¬ other.HoldsWith d v)
    (hvalue : rule.HoldsWith d value) :
    Contributes d (before ++ rule :: after) (Template.fill rule.description value) := by
  have hafter := contributes_append_of_fails d after [] []
    (fun other hother => hfails other (List.mem_append_right _ hother)) .nil
  rw [List.append_nil] at hafter
  have hrule := Contributes.holds rule after value [] hvalue hafter
  rw [List.append_nil] at hrule
  exact contributes_append_of_fails d before _ _
    (fun other hother => hfails other (List.mem_append_left _ hother)) hrule

variable (rule : Rule) (hrule : rule.WellFormed) (hstring : rule.type.isNumeric = false)
  (hoperator : rule.operator = .any)

include hrule hstring hoperator

/-- A string that is compared with anything has the capture of its description. -/
theorem capture_of_any : ∃ limit,
    Template.captureLength rule.description = .ok limit ∧ rule.capture = some limit := by
  have hcomparison := hrule.string_comparison hstring
  rw [hoperator] at hcomparison
  generalize rule.operand = operand at hcomparison
  generalize rule.capture = capture at hcomparison
  cases hcomparison with
  | any limit hlimit => exact ⟨limit, hlimit, rfl⟩

omit hrule in
/-- No more characters are captured than the limit says. -/
theorem length_display_le (content : List UInt8) (limit : Nat) (hlimit : rule.capture = some limit)
    (h : rule.HoldsWith d (.bytes content)) :
    (Value.display (.bytes content)).length ≤ limit := by
  rcases h with ⟨start, bytes, hleads, hreads, hvalue, -⟩
  have hzero := ((reads_of_capture_iff d rule start limit bytes (leadsTo_le _ _ _ hleads) hstring
    (Or.inl hoperator) hlimit).1 hreads).2
  -- Either the limit is reached, or the zero byte came before it.
  have hbytes : bytes.length ≤ limit := by
    rcases hzero with ⟨-, hlength⟩ | ⟨_, -, -, hlength⟩
    · omega
    · exact hlength
  rw [valueOf_of_string rule bytes hstring, Value.bytes.injEq] at hvalue
  -- Folding the case does not change how many bytes there are.
  have hcontent : content.length = bytes.length := by
    rw [hvalue]
    cases rule.type <;> simp only [ValueType.foldCase, List.length_map]
  have hdisplay : (Value.display (.bytes content)).length ≤ content.length := by
    unfold Value.display Text.ofLatin1
    simp only [List.length_map]
    exact (List.takeWhile_sublist _).length_le
  omega

/-- What is captured is put into the property as a whole. -/
theorem fill_of_holdsWith (key : Text) (content : List UInt8) (hplain : PropertyKey.IsPlain key)
    (htemplate : FieldTemplate key rule.description) (h : rule.HoldsWith d (.bytes content)) :
    Template.fill rule.description (.bytes content)
      = '[' :: (key ++ '=' :: Value.display (.bytes content) ++ [']']) := by
  rcases capture_of_any rule hrule hstring hoperator with ⟨limit, hlimit, hcapture⟩
  exact fill_of_fieldTemplate key rule.description content limit
    (hplain.notMem ['[', ']', '%'] (by decide)) htemplate hlimit
    (length_display_le d rule hstring hoperator content limit hcapture h)

end Contributes

/-- A signature that captures one string adds one group to its description. -/
theorem contributes_of_capturesOne (d : List UInt8) (winner : Signature) (key captured : Text)
    (hextras : ∀ rule ∈ winner.extras, rule.WellFormed) (hplain : PropertyKey.IsPlain key)
    (h : winner.CapturesOne d key captured) :
    Contributes d winner.extras ('[' :: (key ++ '=' :: captured ++ [']'])) := by
  rcases h.rule with ⟨before, rule, after, content, hsplit, hfails, hstring, hoperator, htemplate,
    hholds, hcaptured⟩
  rw [hsplit] at hextras ⊢
  have hrule := hextras rule (List.mem_append_right _ List.mem_cons_self)
  have hdisplay : Value.display (.bytes content) = captured := hcaptured.symm
  -- No other rule holds, so what this one adds is all.
  have hadded := contributes_of_only d before after rule (.bytes content) hfails hholds
  rw [fill_of_holdsWith d rule hrule hstring hoperator key content hplain htemplate hholds,
    hdisplay] at hadded
  exact hadded

section Extraction

variable (evaluator : Evaluator) (description key captured : Text) (extraction : Extraction)

/-- A value that is reported as it is holds no separator and no bracket. -/
theorem notMem_of_ofDescription (value : Text) (htext : PropertyKey.IsText key)
    (h : Extraction.ofDescription evaluator description = .ok extraction)
    (hvalue : extraction.properties.get? (PropertyKey.reported key) = some value) :
    ∀ c ∈ ['[', ']', ';'], c ∉ value := by
  intro c hc
  rw [ofDescription_eq] at h
  rcases except_bind_eq_ok _ _ _ h with ⟨map, hmap, h⟩
  rw [Except.ok.injEq] at h
  rw [← h, PropertyMap.get?_insert, if_neg htext.not_comment] at hvalue
  -- Neither of these characters is left in a token.
  have htokens : ∀ token ∈ Description.tokens description, c ∉ token := by
    intro token htoken hmem
    have hbrackets := Description.notMem_split description c
      (mem_of_mem_pieces ';' c _ token htoken hmem)
    simp only [List.mem_cons, List.not_mem_nil, or_false] at hc
    rcases hc with heq | heq | heq
    · exact hbrackets.1 heq
    · exact hbrackets.2 heq
    · exact separator_notMem_of_mem_pieces ';' _ token htoken (heq ▸ hmem)
  have hempty : ∀ value, PropertyMap.empty.get? (PropertyKey.reported key) = some value →
      c ∉ value :=
    fun value hnone => absurd hnone (by simp only [PropertyMap.get?_empty, reduceCtorEq,
      not_false_eq_true])
  exact Property.addTokens_get?_clean evaluator _ c (PropertyKey.reported_ne_numeric key htext) _
    .empty map htokens hempty hmap value hvalue

variable (hbalanced : Description.Balanced description)
  (hplain : PropertyKey.IsPlain key) (htext : PropertyKey.IsText key)
  (h : Extraction.ofDescription evaluator
    (description ++ '[' :: (key ++ '=' :: captured ++ [']'])) = .ok extraction)

include hbalanced hplain htext h

/-- A group with one property behind a balanced description adds that and nothing
    else if its value holds no separator and no bracket. -/
theorem extraction_of_group (hclean : ∀ c ∈ captured, c ∉ ['[', ']', ';']) :
    ∃ own, Extraction.ofDescription evaluator description = .ok own
      ∧ extraction.comment = own.comment
      ∧ extraction.properties = own.properties.insert (PropertyKey.reported key)
        (captured.trimBy isControlOrSpace) := by
  have hbody : ∀ c ∈ key ++ '=' :: captured, c ∉ ['[', ']', ';'] := by
    intro c hc
    rcases List.mem_append.1 hc with hc | hc
    · exact hplain.notMem ['[', ']', ';'] (by decide) c hc
    · rcases List.mem_cons.1 hc with rfl | hc
      · decide
      · exact hclean c hc
  rw [ofDescription_append_group evaluator description _ hbalanced hbody] at h
  rcases except_bind_eq_ok _ _ _ h with ⟨map, hmap, h⟩
  rw [Property.addTokens_of_isText evaluator map key captured hplain htext] at h
  -- The comment is inserted last, but its key is another one, so the two inserts commute.
  have hextraction := Except.ok.inj h
  have hown : Extraction.ofDescription evaluator description
      = .ok ⟨(Description.split description).1,
        map.insert PropertyKey.comment (Description.split description).1⟩ := by
    rw [ofDescription_eq, hmap]
    rfl
  refine ⟨_, hown, by rw [← hextraction], ?_⟩
  rw [← hextraction]
  exact PropertyMap.insert_comm map _ _ _ _ htext.not_comment

/-- It adds only that under no other condition. -/
theorem extraction_iff :
    (∃ own, Extraction.ofDescription evaluator description = .ok own
      ∧ extraction.comment = own.comment
      ∧ extraction.properties = own.properties.insert (PropertyKey.reported key)
        (captured.trimBy isControlOrSpace))
    ↔ ∀ c ∈ captured, c ∉ ['[', ']', ';'] := by
  constructor
  · rintro ⟨own, -, -, hproperties⟩ c hc hspecial
    have hvalue : extraction.properties.get? (PropertyKey.reported key)
        = some (captured.trimBy isControlOrSpace) := by
      rw [hproperties, PropertyMap.get?_insert, if_pos rfl]
    -- Such a character is not trimmed, so it would be in the value.
    have hkept : isControlOrSpace c = false := by
      simp only [List.mem_cons, List.not_mem_nil, or_false] at hspecial
      rcases hspecial with rfl | rfl | rfl <;> rfl
    exact notMem_of_ofDescription evaluator _ key extraction _ htext h hvalue c hspecial
      (mem_trimBy isControlOrSpace c captured hc hkept)
  · exact extraction_of_group evaluator description key captured extraction hbalanced hplain htext h

end Extraction

/-- A captured string adds only its own property exactly if it holds no separator and
    no bracket. -/
theorem addsOnly_iff_of_captured (text : Text) (rules : RuleSet) (evaluator : Evaluator)
    (d : Array UInt8) (winner : Signature) (key captured : Text) (result : Identification)
    (h : RuleSet.ofText text = .ok rules)
    (hwinner : Signature.FirstLongest (Signature.Candidate d.toList) rules.signatures winner)
    (hplain : PropertyKey.IsPlain key) (htext : PropertyKey.IsText key)
    (hcaptured : winner.CapturesOne d.toList key captured)
    (hresult : rules.identifyBytes evaluator d = .ok result) :
    result.AddsOnly evaluator winner.head.description key captured
      ↔ ∀ c ∈ captured, c ∉ ['[', ']', ';'] := by
  have hrules := wellFormed_of_ofText text rules h
  have hmem := (mem_and_of_firstLongest _ _ _ hwinner).1
  have hextras := ((Signature.forall_rules_iff _ winner).1 (hrules winner hmem)).2.2
  obtain ⟨added, extraction, hadded, hextraction, rfl⟩ := report_of_identifies rules evaluator
    d.toList winner result hwinner ((identifies_iff rules hrules evaluator d _).1 hresult)
  -- The group with the captured string is all that is added.
  have hgroup := contributes_of_capturesOne d.toList winner key captured hextras hplain hcaptured
  rw [contributes_unique d.toList winner.extras hextras added _ hadded hgroup] at hextraction
  exact extraction_iff evaluator winner.head.description key captured extraction
    hcaptured.balanced hplain htext hextraction

/-- A database whose only extra-info rule captures a title. -/
def Database.titledText : Text :=
  "# FILE_ID DB\n# Date:\n# Source:\n0\tstring\tAB\tP [mime=a/b]\n".toList
    ++ ">2\tstring\tx\t[title=%s]".toList

/-- The rule that captures. -/
def Database.titleRule : Rule :=
  ⟨5, .direct 2, .string, Value.fullMask, .any,
    .bytes (List.replicate Template.defaultCapture 0), "[title=%s]".toList, some 255, 0⟩

/-- Its signature, the only one of the database. -/
def Database.titledSignature : Signature where
  head := ⟨4, .direct 0, .string, Value.fullMask, .equal, .bytes [65, 66], "P [mime=a/b]".toList,
    none, 2⟩
  continuations := []
  extras := [titleRule]

open Database

theorem ofText_titledText : RuleSet.ofText titledText = .ok ⟨[titledSignature]⟩ := rfl

theorem isPlain_title : PropertyKey.IsPlain PropertyKey.title :=
  ⟨PropertyKey.notMem_of_all _ _ (by decide), by decide⟩

theorem isText_title : PropertyKey.IsText PropertyKey.title := by
  have hlookup : PropertyKey.lookup? (PropertyKey.title.trimBy isControlOrSpace)
      = some (PropertyKey.title, .text) := by decide
  refine ⟨fun name kind h => ?_, by decide⟩
  rw [hlookup, Option.some.injEq, Prod.mk.injEq] at h
  exact h.2.symm

/-- The title is the string that the rule reads. -/
theorem capturesOne_titledSignature (d content : List UInt8)
    (h : titleRule.valueIn? d.length d = some (.bytes content)) :
    titledSignature.CapturesOne d PropertyKey.title
      (Text.ofLatin1 (content.takeWhile fun b => b ≠ 0)) := by
  have hrules := wellFormed_of_ofText titledText _ ofText_titledText titledSignature
    List.mem_cons_self titleRule
    (List.mem_cons_of_mem _ (List.mem_append_right [] List.mem_cons_self))
  have htemplate : FieldTemplate PropertyKey.title titleRule.description := FieldTemplate.whole
  exact {
    balanced := by unfold Description.Balanced; decide
    group := by decide
    rule := ⟨[], titleRule, [], content, rfl, fun other hother => absurd hother List.not_mem_nil,
      rfl, rfl, htemplate, (valueIn?_eq_some_iff d titleRule hrules _).1 h, rfl⟩ }

/-- The signature wins if it matches, having no rival. -/
theorem firstLongest_titledSignature (d : List UInt8)
    (h : RuleSet.winnerIn? d.length d [titledSignature] = some titledSignature) :
    Signature.FirstLongest (Signature.Candidate d) [titledSignature] titledSignature :=
  (winnerIn?_eq_some_iff d [titledSignature]
    (wellFormed_of_ofText titledText _ ofText_titledText) titledSignature).1 h

/-- A plain title is all that is added. -/
theorem addsOnly_of_titledBytes : ∃ result,
    RuleSet.identifyBytes ⟨[titledSignature]⟩ .arithmetic #[65, 66, 32, 104, 105, 0] = .ok result
      ∧ result.AddsOnly .arithmetic titledSignature.head.description PropertyKey.title
        " hi".toList := by
  refine ⟨_, rfl, (addsOnly_iff_of_captured titledText _ .arithmetic #[65, 66, 32, 104, 105, 0]
    titledSignature PropertyKey.title " hi".toList _ ofText_titledText
    (firstLongest_titledSignature _ rfl) isPlain_title isText_title ?_ rfl).2
    (PropertyKey.notMem_of_all _ _ (by decide +kernel))⟩
  exact capturesOne_titledSignature _ [32, 104, 105, 0] rfl

/-- A title with a separator replaces the media type of the description. -/
theorem not_addsOnly_of_forgedBytes : ∃ result,
    RuleSet.ofText titledText = .ok ⟨[titledSignature]⟩
      ∧ Signature.FirstLongest
        (Signature.Candidate [65, 66, 59, 109, 105, 109, 101, 61, 120, 0]) [titledSignature]
        titledSignature
      ∧ PropertyKey.IsPlain PropertyKey.title ∧ PropertyKey.IsText PropertyKey.title
      ∧ titledSignature.CapturesOne [65, 66, 59, 109, 105, 109, 101, 61, 120, 0]
        PropertyKey.title ";mime=x".toList
      ∧ RuleSet.identifyBytes ⟨[titledSignature]⟩ .arithmetic
          #[65, 66, 59, 109, 105, 109, 101, 61, 120, 0] = .ok result
      ∧ result.mime? = some "x".toList
      ∧ ¬ result.AddsOnly .arithmetic titledSignature.head.description PropertyKey.title
        ";mime=x".toList := by
  refine ⟨_, ofText_titledText, firstLongest_titledSignature _ rfl, isPlain_title, isText_title,
    capturesOne_titledSignature _ [59, 109, 105, 109, 101, 61, 120, 0] rfl, rfl, by rfl, ?_⟩
  rintro ⟨own, hown, -, hproperties⟩
  -- By itself the description has another media type.
  have hmime : own.properties.get? PropertyKey.mime = some "a/b".toList := by
    have hextracted := Except.ok.inj hown
    rw [← hextracted]
    rfl
  have hforged := congrArg (fun map => PropertyMap.get? map PropertyKey.mime) hproperties
  simp only [PropertyMap.get?_insert, hmime] at hforged
  exact absurd hforged (by decide +kernel)

end FileSignatures
