import FileSignatures.Proofs.Matching.Captured
import FileSignatures.Proofs.Matching.Harmless
import FileSignatures.Proofs.Property.Reevaluation
import FileSignatures.Proofs.Template.ReadBack

/-!
# Counts that are read from a resource

A numeric rule reads an unsigned number of one, two or four bytes and clears bits of it,
so what it holds with is not negative and far from the end of the words
(`decode?_eq_unsignedReading`). An extra-info rule may write this number into the count of
channels by any decimal conversion. The count is then evaluated again, and since decimal
conversions of such numbers are read back, it never makes identification fail: besides the
properties of the winner by itself, the number is reported in decimal
(`identifyBytes_of_countsChannels`).

## Main definitions

* `channelsTemplateOf`: A template for a count of channels, with any decimal conversion.
* `Signature.CountsChannels`: The only extra-info rule that holds counts channels.

## Theorems

* `decode?_eq_unsignedReading`: What is decoded.
* `ofDescription_append_channels`: A count of channels behind a description.
* `identifyBytes_of_countsChannels`: Identification with a count of channels.
* `numbers_survive`: Numbers are decoded, read back and reported.
-/

namespace FileSignatures

/-- What is decoded has the bits of the unsigned number that the mask leaves, and no more than
    its bytes. -/
theorem decode?_eq_unsignedReading (type : ValueType) (mask : UInt64) (bytes : List UInt8)
    (hnumeric : type.isNumeric = true) (hlength : bytes.length = type.width) :
    ∃ n : Int64, Value.decode? type mask bytes = some (.number n)
      ∧ n = (UInt64.ofNat (type.unsignedReading bytes) &&& mask).toInt64
      ∧ 0 ≤ n.toInt ∧ n.toInt < 2 ^ (8 * type.width)
      ∧ n.toInt = (type.unsignedReading bytes &&& mask.toNat : Nat) := by
  have hvalue := toInt_masked (type.unsignedReading bytes) mask
    (unsignedReading_lt_of_width type bytes hlength)
  -- A mask only takes bits away, so the bound of the unmasked number remains.
  have hmasked : type.unsignedReading bytes &&& mask.toNat ≤ type.unsignedReading bytes :=
    Nat.and_le_left
  have hlt := unsignedReading_lt type bytes
  rw [hlength, show 256 = 2 ^ 8 from rfl, ← Nat.pow_mul] at hlt
  refine ⟨_, ?_, rfl, ?_, ?_, hvalue⟩
  · unfold Value.decode? Value.decodeNumber?
    rw [if_pos ⟨hnumeric, hlength⟩, Option.map_some, value_eq_unsignedReading]
  · rw [hvalue]
    exact Int.natCast_nonneg _
  · rw [hvalue]
    exact_mod_cast Nat.lt_of_le_of_lt hmasked hlt

/-- A template for a count of channels, with any decimal conversion. -/
def channelsTemplateOf (form : Template.Form) (letter : Char) : Text :=
  "[chn=".toList ++ (form.text ++ [letter] ++ "]".toList)

/-- The description of a signature is balanced, and of its extra-info rules exactly one
    holds: one that reads a number and counts channels with it. -/
structure Signature.CountsChannels (d : List UInt8) (winner : Signature) (rule : Rule)
    (n : Int64) : Prop where
  balanced : Description.Balanced winner.head.description
  only : ∃ before after, winner.extras = before ++ rule :: after
    ∧ ∀ other ∈ before ++ after, ∀ value, ¬ other.HoldsWith d value
  numeric : rule.type.isNumeric = true
  holds : rule.HoldsWith d (.number n)
  template : ∃ form letter, rule.description = channelsTemplateOf form letter
    ∧ letter ∈ Template.decimalLetters ∧ form.width.head? ≠ some '0'

/-- What a numeric rule holds with is decoded from the bytes at its position. -/
theorem decode?_of_holdsWith (d : List UInt8) (rule : Rule) (n : Int64)
    (hnumeric : rule.type.isNumeric = true) (h : rule.HoldsWith d (.number n)) :
    ∃ start, rule.offset.LeadsTo d start ∧ start + rule.type.width ≤ d.length
      ∧ Value.decode? rule.type rule.mask ((d.drop start).take rule.type.width)
        = some (.number n) := by
  obtain ⟨start, bytes, hleads, hreads, hvalue, -⟩ := h
  -- Numbers are read as a whole; the other ways to read are those of strings.
  cases hreads with
  | number _ hfits =>
      have hlength : ((d.drop start).take rule.type.width).length = rule.type.width := by
        rw [List.length_take, List.length_drop]
        omega
      obtain ⟨m, hdecoded, hm, -⟩ :=
        decode?_eq_unsignedReading rule.type rule.mask _ hnumeric hlength
      rw [Rule.valueOf, if_pos hnumeric, ← hm] at hvalue
      exact ⟨start, hleads, hfits, hvalue ▸ hdecoded⟩
  | exact hstring => exact absurd (hstring.symm.trans hnumeric) Bool.false_ne_true
  | capture hstring => exact absurd (hstring.symm.trans hnumeric) Bool.false_ne_true

/-- A count of channels behind a balanced description is all that it adds. -/
theorem ofDescription_append_channels (description text : Text) (own : Extraction) (n : Int64)
    (hbalanced : Description.Balanced description)
    (hown : Extraction.ofDescription .arithmetic description = .ok own)
    (hshows : ShowsNumber n.toInt.toNat text) (hn : 0 ≤ n.toInt) :
    Extraction.ofDescription .arithmetic
        (description ++ '[' :: ((PropertyKey.channels ++ '=' :: text) ++ [']']))
      = .ok ⟨own.comment, own.properties.insert PropertyKey.channels (Text.ofInt n.toInt)⟩ := by
  have hrange := n.toInt_lt
  have hbody : ∀ c ∈ PropertyKey.channels ++ '=' :: text, c ∉ ['[', ']', ';'] := by
    intro c hc
    rcases List.mem_append.1 hc with hc | hc
    · exact PropertyKey.notMem_of_all PropertyKey.channels _ (by decide) c hc
    · rcases List.mem_cons.1 hc with rfl | hc
      · decide
      · exact hshows.notMem c hc
  -- The value is trimmed before it is evaluated, and shows the same number.
  have hvalue := hshows.trimBy.evaluate (by omega)
  rw [Int.toNat_of_nonneg hn, Int64.ofInt_toInt] at hvalue
  -- What the description says by itself comes first, and its comment does not change.
  rw [ofDescription_eq] at hown
  obtain ⟨map, hmap, hown⟩ := except_bind_eq_ok _ _ _ hown
  rw [Except.ok.injEq] at hown
  rw [ofDescription_append_group .arithmetic description _ hbalanced hbody, hmap, ← hown,
    PropertyMap.insert_comm map _ _ _ _ (by decide)]
  show (Property.addTokens .arithmetic map [_] >>= _) = _
  rw [addTokens_channels, hvalue]
  rfl

/-- A number that is read is not negative. -/
theorem toInt_nonneg_of_holdsWith (d : List UInt8) (rule : Rule) (n : Int64)
    (hnumeric : rule.type.isNumeric = true) (h : rule.HoldsWith d (.number n)) : 0 ≤ n.toInt := by
  obtain ⟨m, hm, hlow, -⟩ := number_of_holdsWith d rule _ hnumeric h
  rw [Value.number.inj hm]
  exact hlow

/-- The template of a count of channels becomes a group with the text of the number. -/
theorem fill_channelsTemplateOf (form : Template.Form) (letter : Char) (n : Int64)
    (hletter : letter ∈ Template.decimalLetters) (hwidth : form.width.head? ≠ some '0') :
    Template.fill (channelsTemplateOf form letter) (.number n)
      = '[' :: ((PropertyKey.channels ++ '=' :: Template.fill (form.text ++ [letter]) (.number n))
        ++ [']']) := by
  have hknown : letter ∈ Template.conversionLetters :=
    Template.integerLetters_subset (Template.decimalLetters_subset hletter)
  have hbefore : "[chn=".toList = '[' :: (PropertyKey.channels ++ ['=']) := rfl
  unfold channelsTemplateOf
  rw [Template.fill_amid _ _ form letter _ (by decide) (by decide) hknown hwidth, hbefore]
  simp only [List.cons_append, List.append_assoc, List.nil_append]
  rfl

/-- Identification with a count of channels does not fail if the winner by itself has its
    properties; the count is the only other one, in decimal. -/
theorem identifyBytes_of_countsChannels (rules : RuleSet) (hrules : rules.WellFormed)
    (d : Array UInt8) (winner : Signature) (rule : Rule) (n : Int64) (own : Extraction)
    (hwinner : Signature.FirstLongest (Signature.Candidate d.toList) rules.signatures winner)
    (hcounts : winner.CountsChannels d.toList rule n)
    (hown : Extraction.ofDescription .arithmetic winner.head.description = .ok own) :
    ∃ result, rules.identifyBytes .arithmetic d = .ok result ∧ result.comment = own.comment
      ∧ result.properties = own.properties.insert PropertyKey.channels (Text.ofInt n.toInt)
      ∧ result.property? PropertyKey.channels = some (Text.ofInt n.toInt) := by
  obtain ⟨before, after, hextras, hfails⟩ := hcounts.only
  obtain ⟨form, letter, htemplate, hletter, hwidth⟩ := hcounts.template
  -- The number is not negative, so what is written has no sign and is read back.
  have hn := toInt_nonneg_of_holdsWith d.toList rule n hcounts.numeric hcounts.holds
  have hadded := contributes_of_only d.toList before after rule _ hfails hcounts.holds
  rw [← hextras, htemplate, fill_channelsTemplateOf form letter n hletter hwidth] at hadded
  have hextraction := ofDescription_append_channels winner.head.description _ own n hcounts.balanced
    hown (Template.showsNumber_fill form letter n hletter hwidth hn) hn
  refine ⟨_, (identifies_iff rules hrules .arithmetic d _).2
    (.identified winner _ _ hwinner hadded hextraction), rfl, rfl, ?_⟩
  unfold Identification.property?
  rw [PropertyMap.get?_insert, if_pos rfl]

/-- Numbers that are read from a resource survive into its properties. They are decoded to
    the masked unsigned number of their bytes, which any decimal conversion writes so that it
    is read back; and where the only extra-info rule that holds counts channels with such a
    number, identification does not fail and reports it in decimal. -/
theorem numbers_survive :
    (∀ (type : ValueType) (mask : UInt64) (bytes : List UInt8),
      type.isNumeric = true → bytes.length = type.width →
      ∃ n : Int64, Value.decode? type mask bytes = some (.number n)
        ∧ 0 ≤ n.toInt ∧ n.toInt < 2 ^ (8 * type.width)
        ∧ n.toInt = (type.unsignedReading bytes &&& mask.toNat : Nat)
        ∧ ∀ (form : Template.Form) (letter : Char), letter ∈ Template.decimalLetters →
          form.width.head? ≠ some '0' →
          Evaluator.arithmetic.integer (Template.fill (form.text ++ [letter]) (.number n)) = .ok n)
    ∧ ∀ (text : Text) (rules : RuleSet) (d : Array UInt8) (winner : Signature) (rule : Rule)
        (n : Int64) (own : Extraction),
      RuleSet.ofText text = .ok rules →
      Signature.FirstLongest (Signature.Candidate d.toList) rules.signatures winner →
      winner.CountsChannels d.toList rule n →
      Extraction.ofDescription .arithmetic winner.head.description = .ok own →
      (∃ start, rule.offset.LeadsTo d.toList start ∧ start + rule.type.width ≤ d.size
        ∧ Value.decode? rule.type rule.mask ((d.toList.drop start).take rule.type.width)
          = some (.number n))
      ∧ ∃ result, rules.identifyBytes .arithmetic d = .ok result ∧ result.comment = own.comment
        ∧ result.properties = own.properties.insert PropertyKey.channels (Text.ofInt n.toInt)
        ∧ result.property? PropertyKey.channels = some (Text.ofInt n.toInt) := by
  refine ⟨fun type mask bytes hnumeric hlength => ?_, fun text rules d winner rule n own hparse
    hwinner hcounts hown => ⟨?_, ?_⟩⟩
  · -- One number, whatever its type and mask, and then the identification that counts with it.
    obtain ⟨n, hdecoded, -, hlow, hhigh, hvalue⟩ :=
      decode?_eq_unsignedReading type mask bytes hnumeric hlength
    exact ⟨n, hdecoded, hlow, hhigh, hvalue, fun form letter hletter hwidth =>
      Template.evaluate_fill form letter n hletter hwidth hlow⟩
  · exact decode?_of_holdsWith d.toList rule n hcounts.numeric hcounts.holds
  · exact identifyBytes_of_countsChannels rules (wellFormed_of_ofText text rules hparse) d winner
      rule n own hwinner hcounts hown

namespace Database

/-- A database whose only extra-info rule counts channels with a masked number. -/
def twelveBitText : Text :=
  "# FILE_ID DB\n# Date:\n# Source:\n0\tstring\tAB\tP \n".toList
    ++ ">2\tleshort&0xfff\tx\t[chn=%+024.21lld]".toList

/-- The rule that counts channels. -/
def twelveBitRule : Rule :=
  ⟨5, .direct 2, .leShort, 0xfff, .any, .number 0, "[chn=%+024.21lld]".toList, none, 2⟩

/-- Its signature, the only one of the database. -/
def twelveBitSignature : Signature where
  head := ⟨4, .direct 0, .string, Value.fullMask, .equal, .bytes [65, 66], "P ".toList, none, 2⟩
  continuations := []
  extras := [twelveBitRule]

/-- A resource in which the masked number is 0xbcd. -/
def twelveBitBytes : Array UInt8 :=
  #[65, 66, 0xcd, 0xab]

end Database

open Database

theorem ofText_twelveBitText : RuleSet.ofText twelveBitText = .ok ⟨[twelveBitSignature]⟩ := rfl

/-- The count of channels of the sample is a number that the rule reads. -/
theorem countsChannels_twelveBitSignature :
    twelveBitSignature.CountsChannels twelveBitBytes.toList twelveBitRule 0xbcd where
  balanced := by
    unfold Description.Balanced
    decide
  only := ⟨[], [], rfl, fun _ hother => absurd hother List.not_mem_nil⟩
  numeric := rfl
  holds := (valueIn?_eq_some_iff twelveBitBytes.toList twelveBitRule
    (wellFormed_of_ofText twelveBitText _ ofText_twelveBitText twelveBitSignature
      (List.mem_singleton.2 rfl) twelveBitRule (List.mem_of_mem_getLast? rfl)) _).1 rfl
  template := ⟨Template.signedForm, 'd', rfl, by decide, by decide⟩

/-- Twelve bits of a number are read back from a field of twenty-four characters, and counted
    as channels. -/
theorem numbers_survive_of_twelve_bits :
    ValueType.isNumeric .leShort = true ∧ [0xcd, 0xab].length = ValueType.width .leShort
      ∧ 'd' ∈ Template.decimalLetters ∧ Template.signedForm.width.head? ≠ some '0'
      ∧ Template.fill (Template.signedForm.text ++ ['d']) (.number 0xbcd)
        = "  +000000000000000003021".toList
      ∧ Evaluator.arithmetic.integer "  +000000000000000003021".toList = .ok 0xbcd
      ∧ Signature.FirstLongest (Signature.Candidate twelveBitBytes.toList) [twelveBitSignature]
        twelveBitSignature
      ∧ twelveBitSignature.CountsChannels twelveBitBytes.toList twelveBitRule 0xbcd
      ∧ ∃ result,
        RuleSet.identifyBytes ⟨[twelveBitSignature]⟩ .arithmetic twelveBitBytes = .ok result
          ∧ result.property? PropertyKey.channels = some "3021".toList := by
  have hwinner : Signature.FirstLongest (Signature.Candidate twelveBitBytes.toList)
      [twelveBitSignature] twelveBitSignature :=
    (winnerIn?_eq_some_iff twelveBitBytes.toList [twelveBitSignature]
      (wellFormed_of_ofText twelveBitText _ ofText_twelveBitText) twelveBitSignature).1 rfl
  have hletter : 'd' ∈ Template.decimalLetters := by decide
  have hwidth : Template.signedForm.width.head? ≠ some '0' := by decide
  have hfill : Template.fill (Template.signedForm.text ++ ['d']) (.number 0xbcd)
      = "  +000000000000000003021".toList := by decide
  have hnumeral : Text.ofInt (Int64.toInt 0xbcd) = "3021".toList := by decide
  -- First the decoded number and its field, then the whole identification.
  obtain ⟨n, hdecoded, -, -, -, hback⟩ := numbers_survive.1 .leShort 0xfff [0xcd, 0xab] rfl rfl
  have hn : n = 0xbcd := Value.number.inj (Option.some.inj (hdecoded.symm.trans rfl))
  have hread := hback Template.signedForm 'd' hletter hwidth
  rw [hn, hfill] at hread
  obtain ⟨-, result, hresult, -, -, hchannels⟩ := numbers_survive.2 twelveBitText _ twelveBitBytes
    twelveBitSignature twelveBitRule 0xbcd _ ofText_twelveBitText hwinner
    countsChannels_twelveBitSignature rfl
  rw [hnumeral] at hchannels
  exact ⟨rfl, rfl, hletter, hwidth, hfill, hread, hwinner, countsChannels_twelveBitSignature,
    result, hresult, hchannels⟩

end FileSignatures
