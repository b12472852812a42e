import FileSignatures.Proofs.Number.Literals
import FileSignatures.Proofs.Template.Pieces

/-!
# Integers in templates

What an integer conversion writes consists of a sign or a mark of the radix, of digits,
and of blanks on one side. The digits are those of the number with zeros before them, and
the zeros come from two places: a precision asks for a count of digits, and a width may be
filled with zeros in place of blanks. Both put them between the sign or mark and the
digits, so they change no number.

This module says for each final character what is written before the digits
(`integerLead`) and which number they denote, in which radix (`integerMagnitude`,
`integerRadix`). No bit of the number is lost, also of the least one, whose magnitude is no
signed word, and the length is the greatest of what width, precision and digits ask for
(`fill_of_integer_conversion`).

## Main definitions

* `integerLetters`: The final characters of integer conversions.
* `statedCount`: What the digits of a width or precision ask for.
* `integerRadix`, `integerMagnitude`, `integerLead`: What an integer conversion writes.
* `integerDigits`: The digits without further zeros.

## Theorems

* `Conversion.pad_eq`: Where a width puts blanks and zeros.
* `integerParts?_eq`, `convert?_integer`: Lead and digits of an integer conversion.
* `isNumeral_integerDigits`: Zeros before the digits do not change their number.
* `length_dropWhile_integerDigits`: The digits alone do not begin with zeros.
* `fill_integer`: Where an integer conversion puts blanks and zeros, and how many.
* `fill_of_integer_conversion`: Integer conversions lose nothing.
-/

namespace FileSignatures

/-- A width adds blanks on one side, or zeros between the lead and the body. -/
theorem Conversion.pad_eq (spec : Conversion) (numeric : Bool) (lead body : Text) :
    ∃ front zeros back, spec.pad numeric lead body
        = List.replicate front ' ' ++ (lead ++ (List.replicate zeros '0' ++ body))
          ++ List.replicate back ' '
      ∧ front + zeros + back = spec.width.getD 0 - (lead ++ body).length
      ∧ (front = 0 ∨ back = 0) := by
  let fill := spec.width.getD 0 - (lead ++ body).length
  unfold pad
  -- One of three places takes all that is missing: behind, between, or in front.
  by_cases hleft : spec.left = true
  · refine ⟨0, 0, fill, ?_, by omega, Or.inl rfl⟩
    rw [if_pos hleft]
    simp only [List.replicate_zero, List.nil_append]
    rfl
  · rw [if_neg hleft]
    by_cases hzero : (spec.zero && numeric && spec.precision.isNone) = true
    · refine ⟨0, fill, 0, ?_, by omega, Or.inl rfl⟩
      rw [if_pos hzero]
      simp only [List.replicate_zero, List.nil_append, List.append_nil, List.append_assoc]
      rfl
    · refine ⟨fill, 0, 0, ?_, by omega, Or.inr rfl⟩
      rw [if_neg hzero]
      simp only [List.replicate_zero, List.nil_append, List.append_nil, List.append_assoc]
      rfl

namespace Template

/-- The final characters of integer conversions. -/
def integerLetters : List Char :=
  ['d', 'i', 'u', 'x', 'X', 'o']

theorem integerLetters_subset : integerLetters ⊆ conversionLetters := by
  decide

/-- The count that the digits of a width or precision ask for. No digits ask for nothing,
    and neither do those of a number beyond 64 bits. -/
def statedCount (digits : Text) : Nat :=
  if Text.decimalValue digits < 2 ^ 64 then Text.decimalValue digits else 0

/-- The radix of an integer conversion. -/
def integerRadix (letter : Char) : Nat :=
  if letter = 'x' ∨ letter = 'X' then 16 else if letter = 'o' then 8 else 10

/-- The number that the digits of an integer conversion denote. -/
def integerMagnitude (letter : Char) (n : Int) : Nat :=
  if letter = 'd' ∨ letter = 'i' then n.natAbs else (n % 2 ^ 64).toNat

/-- What an integer conversion writes before the digits: a sign in signed ones, and a mark
    of the radix in others if they ask for it. -/
def integerLead (flags : Text) (letter : Char) (n : Int) : Text :=
  if letter = 'd' ∨ letter = 'i' then
    if n < 0 then ['-']
    else if '+' ∈ flags then ['+']
    else if ' ' ∈ flags then [' ']
    else []
  else if '#' ∈ flags ∧ n ≠ 0 then
    if letter = 'x' then ['0', 'x']
    else if letter = 'X' then ['0', 'X']
    else if letter = 'o' then ['0']
    else []
  else []

/-- The digits of an integer conversion, without those that a width or precision adds. -/
def integerDigits (letter : Char) (magnitude : Nat) : Text :=
  if letter = 'X' then (Nat.toDigits 16 magnitude).map Char.toUpper
  else Nat.toDigits (integerRadix letter) magnitude

theorem integerRadix_range (letter : Char) :
    1 < integerRadix letter ∧ integerRadix letter ≤ 16 := by
  unfold integerRadix
  split
  · omega
  · split <;> omega

theorem count?_of_isDigit (digits : Text) (h : ∀ c ∈ digits, isDigit c = true) :
    (count? digits).getD 0 = statedCount digits := by
  unfold count? statedCount
  cases digits with
  | nil => rfl
  | cons c rest =>
      have hcount : Literal.wordCount = 2 ^ 64 := rfl
      rw [digitsValue?_of_isDigit _ (List.cons_ne_nil c rest) h, Option.filter_some, hcount]
      by_cases hrange : Text.decimalValue (c :: rest) < 2 ^ 64
      · rw [if_pos hrange, if_pos (decide_eq_true hrange), Option.getD_some]
      · rw [if_neg hrange, if_neg (by rw [decide_eq_true_iff]; exact hrange), Option.getD_none]

namespace Form

theorem width_spec (form : Form) : form.spec.width.getD 0 = statedCount form.width :=
  count?_of_isDigit form.width form.isDigit_of_mem_width

theorem precision_spec (form : Form) :
    form.spec.precision.getD 0 = statedCount (form.precision.getD []) := by
  have hspec : form.spec.precision = form.precision.map fun digits => (count? digits).getD 0 := rfl
  rw [hspec]
  cases hprecision : form.precision with
  | none => rfl
  | some digits => exact count?_of_isDigit digits (form.isDigit_of_mem_precision digits hprecision)

end Form

/-- The unsigned reading of a word is its integer modulo the count of words. -/
theorem toNat_toUInt64 (n : Int64) : n.toUInt64.toNat = (n.toInt % 2 ^ 64).toNat := by
  have hbits := (Literal.toUInt64_ofInt_eq_iff n.toInt n).1 n.ofInt_toInt
  omega

theorem sign_spec (form : Form) (letter : Char) (n : Int64) (h : letter = 'd' ∨ letter = 'i') :
    form.spec.sign (n < 0) = integerLead form.flags letter n.toInt := by
  have hnegative : n < 0 ↔ n.toInt < 0 := Int64.lt_iff_toInt_lt
  unfold Conversion.sign integerLead
  rw [if_pos h]
  simp only [Form.spec, conversionOf, List.contains_iff_mem, decide_eq_true_eq, hnegative]

theorem radixMark_spec (form : Form) (n : Int64) (mark : Text) :
    form.spec.radixMark n mark = if '#' ∈ form.flags ∧ n.toInt ≠ 0 then mark else [] := by
  have hzero : n ≠ 0 ↔ n.toInt ≠ 0 := by
    rw [ne_eq, ne_eq, ← Int64.toInt_inj, Int64.toInt_zero]
  unfold Conversion.radixMark
  simp only [Form.spec, conversionOf, Bool.and_eq_true, List.contains_iff_mem, decide_eq_true_eq,
    hzero]

theorem integerParts?_eq (form : Form) (letter : Char) (n : Int64)
    (h : letter ∈ integerLetters) :
    form.spec.integerParts? letter n = some (integerLead form.flags letter n.toInt,
      form.spec.withLeadingZeros (integerDigits letter (integerMagnitude letter n.toInt))) := by
  simp only [integerLetters, List.mem_cons, List.not_mem_nil, or_false] at h
  -- Signed conversions have a sign, unsigned decimals nothing, and the others a mark.
  rcases h with rfl | rfl | rfl | rfl | rfl | rfl
  · rw [← sign_spec form 'd' n (Or.inl rfl)]
    rfl
  · rw [← sign_spec form 'i' n (Or.inr rfl)]
    rfl
  · have hlead : integerLead form.flags 'u' n.toInt = [] := ite_self []
    rw [hlead]
    unfold Conversion.integerParts?
    simp only [toNat_toUInt64]
    rfl
  · unfold Conversion.integerParts?
    simp only [toNat_toUInt64, radixMark_spec]
    rfl
  · unfold Conversion.integerParts?
    simp only [toNat_toUInt64, radixMark_spec]
    rfl
  · unfold Conversion.integerParts?
    simp only [toNat_toUInt64, radixMark_spec]
    rfl

/-- The digits of an integer conversion are digits of its radix. -/
theorem sameDigit_integerDigits (letter : Char) (magnitude : Nat) :
    List.Forall₂ SameDigit (Nat.toDigits (integerRadix letter) magnitude)
      (integerDigits letter magnitude) := by
  unfold integerDigits
  by_cases hletter : letter = 'X'
  · rw [if_pos hletter, hletter, List.forall₂_map_right_iff]
    exact List.forall₂_same.2 fun c _ => Or.inr rfl
  · rw [if_neg hletter]
    exact List.forall₂_same.2 fun c _ => Or.inl rfl

/-- Zeros before the digits do not change their number. -/
theorem isNumeral_integerDigits (letter : Char) (zeros magnitude : Nat) :
    IsNumeral (integerRadix letter) (List.replicate zeros '0' ++ integerDigits letter magnitude)
      magnitude := by
  obtain ⟨hone, hradix⟩ := integerRadix_range letter
  have hzero : digitValue? (integerRadix letter) '0' = some 0 :=
    digitValue?_digitChar (integerRadix letter) 0 hradix (by omega)
  -- Zeros keep the value zero, with which the digits behind them are then read.
  have hzeros : digitsValueFrom? (integerRadix letter) 0 (List.replicate zeros '0') = some 0 := by
    induction zeros with
    | zero => rfl
    | succ k ih =>
        rw [List.replicate_succ, digitsValueFrom?, hzero]
        simp only [Nat.zero_mul, Nat.zero_add]
        exact ih
  have hsame := sameDigit_integerDigits letter magnitude
  have hne : List.replicate zeros '0' ++ integerDigits letter magnitude ≠ [] := by
    intro hnil
    rw [(List.append_eq_nil_iff.1 hnil).2] at hsame
    exact Nat.toDigits_ne_nil (List.forall₂_nil_right_iff.1 hsame)
  rw [← digitsValue?_eq_some_iff _ _ _ hradix, digitsValue?_of_ne_nil _ _ hne,
    digitsValueFrom?_append, hzeros, Option.bind_some,
    digitsValueFrom?_of_sameDigit _ 0 _ _ hsame, digitsValueFrom?_toDigits _ _ hone hradix]

/-- The letters among the digits are capital under `X` and small otherwise. -/
theorem case_of_mem_integerDigits (letter c : Char) (magnitude : Nat)
    (h : c ∈ integerDigits letter magnitude) :
    if letter = 'X' then c.isLower = false else c.isUpper = false := by
  obtain ⟨hone, hradix⟩ := integerRadix_range letter
  -- Decimal digits have no case, and of the letters each has the one it is written in.
  have hcases : ∀ d < 16, (Nat.digitChar d).isUpper = false
      ∧ (Nat.digitChar d).toUpper.isLower = false := by
    decide
  unfold integerDigits at h
  by_cases hletter : letter = 'X'
  · rw [if_pos hletter] at h ⊢
    obtain ⟨digit, hdigit, rfl⟩ := List.mem_map.1 h
    obtain ⟨d, hd, rfl⟩ := exists_of_mem_toDigits 16 magnitude digit (by omega) hdigit
    exact (hcases d hd).2
  · rw [if_neg hletter] at h ⊢
    obtain ⟨d, hd, rfl⟩ := exists_of_mem_toDigits _ magnitude c hone h
    exact (hcases d (by omega)).1

/-- The digits alone do not begin with zeros, except that zero has a digit. -/
theorem length_dropWhile_integerDigits (letter : Char) (zeros magnitude : Nat) :
    max 1 ((List.replicate zeros '0' ++ integerDigits letter magnitude).dropWhile (· = '0')).length
      = (integerDigits letter magnitude).length := by
  obtain ⟨hone, hradix⟩ := integerRadix_range letter
  have hnonzero : ∀ d < 16, 0 < d → Nat.digitChar d ≠ '0' ∧ (Nat.digitChar d).toUpper ≠ '0' := by
    decide
  have hzeros : ∀ c ∈ List.replicate zeros '0', decide (c = '0') = true := by
    intro c hc
    exact decide_eq_true (List.eq_of_mem_replicate hc)
  have hsame := sameDigit_integerDigits letter magnitude
  rw [List.dropWhile_append_of_pos hzeros]
  -- Zero has one digit, all of which is dropped; any other number begins with a digit that stays.
  rcases toDigits_zero_or_head (integerRadix letter) magnitude hone with
    ⟨-, hzero⟩ | ⟨d, rest, hd, hlt, hhead⟩
  · rw [hzero] at hsame
    obtain ⟨c, more, hc, hmore, hdigits⟩ := List.forall₂_cons_left_iff.1 hsame
    rw [List.forall₂_nil_left_iff.1 hmore] at hdigits
    rw [hdigits]
    rcases hc with rfl | rfl <;> rfl
  · rw [hhead] at hsame
    obtain ⟨c, more, hc, -, hdigits⟩ := List.forall₂_cons_left_iff.1 hsame
    have hne : c ≠ '0' := by
      rcases hc with rfl | rfl
      · exact (hnonzero d (by omega) hd).1
      · exact (hnonzero d (by omega) hd).2
    rw [hdigits, List.dropWhile_cons_of_neg (by rw [decide_eq_true_iff]; exact hne),
      List.length_cons]
    omega

/-- A blank behind other ones is one more of them. -/
theorem replicate_blank_append (count : Nat) (rest : Text) :
    List.replicate count ' ' ++ ([' '] ++ rest) = List.replicate (count + 1) ' ' ++ rest := by
  rw [List.replicate_succ', List.append_assoc]

/-- Blanks around a number are stripped, also one in place of a sign. -/
theorem trimBy_integer (front back : Nat) (flags digits : Text) (letter : Char) (n : Int)
    (hne : digits ≠ []) (hdigits : ∀ c ∈ digits, IsGraphic c) :
    Text.trimBy (· = ' ') (List.replicate front ' ' ++ (integerLead flags letter n ++ digits)
        ++ List.replicate back ' ')
      = (integerLead flags letter n).trimBy (· = ' ') ++ digits := by
  have hblank : ∀ count, ∀ c ∈ List.replicate count ' ', decide (c = ' ') = true := by
    intro count c hc
    exact decide_eq_true (List.eq_of_mem_replicate hc)
  have hgraphic : ∀ c ∈ digits, decide (c = ' ') = false := by
    intro c hc
    refine decide_eq_false fun heq => ?_
    exact absurd (heq ▸ hdigits c hc) (by decide)
  have hlead : integerLead flags letter n = [' ']
      ∨ ∀ c ∈ integerLead flags letter n, decide (c = ' ') = false := by
    unfold integerLead
    split_ifs <;> simp
  rcases hlead with hspace | hother
  · -- The blank in place of a sign is one more of those in front.
    rw [hspace, replicate_blank_append]
    exact trimBy_append _ _ digits _ hne (hblank _) hgraphic (hblank back)
  · rw [trimBy_eq_self _ _ hother]
    refine trimBy_append _ _ _ _ (fun hnil => hne (List.append_eq_nil_iff.1 hnil).2) (hblank _)
      (fun c hc => ?_) (hblank back)
    rcases List.mem_append.1 hc with hc | hc
    · exact hother c hc
    · exact hgraphic c hc

/-- The text of a number consists of lead, zeros and digits, which the width fills up. -/
theorem convert?_integer (form : Form) (letter : Char) (n : Int64) (h : letter ∈ integerLetters) :
    form.spec.convert? letter (.number n)
      = some (form.spec.pad true (integerLead form.flags letter n.toInt)
        (form.spec.withLeadingZeros
          (integerDigits letter (integerMagnitude letter n.toInt)))) := by
  have hparts := integerParts?_eq form letter n h
  simp only [integerLetters, List.mem_cons, List.not_mem_nil, or_false] at h
  rcases h with rfl | rfl | rfl | rfl | rfl | rfl <;>
    simp only [Conversion.convert?, hparts, Option.map_some]

/-- Blanks are written on one side, and zeros, for the width or the precision, between lead
    and digits. -/
theorem fill_integer (form : Form) (letter : Char) (n : Int64) (hletter : letter ∈ integerLetters)
    (hwidth : form.width.head? ≠ some '0') :
    ∃ front zeros back : Nat,
      let lead := integerLead form.flags letter n.toInt
      let core := integerDigits letter (integerMagnitude letter n.toInt)
      fill (form.text ++ [letter]) (.number n)
          = List.replicate front ' ' ++ (lead ++ (List.replicate zeros '0' ++ core))
            ++ List.replicate back ' '
        ∧ (front = 0 ∨ back = 0)
        ∧ front + (lead.length + (zeros + core.length)) + back = max (statedCount form.width)
          (lead.length + max (statedCount (form.precision.getD [])) core.length) := by
  let lead := integerLead form.flags letter n.toInt
  let core := integerDigits letter (integerMagnitude letter n.toInt)
  let missing := form.spec.precision.getD 0 - core.length
  obtain ⟨front, zeros, back, hpad, hfilled, hside⟩ :=
    form.spec.pad_eq true lead (form.spec.withLeadingZeros core)
  -- Zeros for the width and zeros for the precision stand side by side.
  have hdigits : List.replicate zeros '0' ++ form.spec.withLeadingZeros core
      = List.replicate (zeros + missing) '0' ++ core := by
    rw [Conversion.withLeadingZeros, ← List.append_assoc, ← List.replicate_add]
  refine ⟨front, zeros + missing, back, ?_, hside, ?_⟩
  · rw [fill_conversion form letter _ (integerLetters_subset hletter) hwidth,
      convert?_integer form letter n hletter, Option.getD_some, hpad, hdigits]
  · have hall : front + (lead.length + (zeros + missing + core.length)) + back
        = max (form.spec.width.getD 0)
          (lead.length + max (form.spec.precision.getD 0) core.length) := by
      rw [List.length_append, Conversion.withLeadingZeros, List.length_append,
        List.length_replicate] at hfilled
      omega
    rw [← form.width_spec, ← form.precision_spec]
    exact hall

/-- Integer conversions lose nothing. Blanks on one side aside, they write a sign or mark
    and digits for the number, and the length is the greatest that width, precision and
    digits ask for. -/
theorem fill_of_integer_conversion (form : Form) (letter : Char) (n : Int64)
    (hletter : letter ∈ integerLetters) (hwidth : form.width.head? ≠ some '0') :
    ∃ (front back : Nat) (digits : Text),
      let lead := integerLead form.flags letter n.toInt
      let text := fill (form.text ++ [letter]) (.number n)
      text = List.replicate front ' ' ++ (lead ++ digits) ++ List.replicate back ' '
        ∧ (front = 0 ∨ back = 0)
        ∧ text.trimBy (· = ' ') = lead.trimBy (· = ' ') ++ digits
        ∧ digits ≠ []
        ∧ IsNumeral (integerRadix letter) digits (integerMagnitude letter n.toInt)
        ∧ (∀ c ∈ digits, if letter = 'X' then c.isLower = false else c.isUpper = false)
        ∧ text.length = max (statedCount form.width)
          (lead.length + max (statedCount (form.precision.getD []))
            (max 1 (digits.dropWhile (· = '0')).length)) := by
  obtain ⟨front, zeros, back, htext, hside, hlength⟩ := fill_integer form letter n hletter hwidth
  have hnumeral := isNumeral_integerDigits letter zeros (integerMagnitude letter n.toInt)
  -- No digit is a blank, so trimming stops at the lead or at the first digit.
  obtain ⟨hne, hgraphic⟩ := hnumeral.ne_nil_and_isGraphic (integerRadix_range letter).2
  refine ⟨front, back, _, htext, hside, ?_, hne, hnumeral, fun c hc => ?_, ?_⟩
  · rw [htext]
    exact trimBy_integer front back form.flags _ letter n.toInt hne hgraphic
  · rcases List.mem_append.1 hc with hc | hc
    · rw [List.eq_of_mem_replicate hc]
      split <;> decide
    · exact case_of_mem_integerDigits letter c _ hc
  · rw [length_dropWhile_integerDigits, ← hlength, htext]
    simp only [List.length_append, List.length_replicate]

/-- A sign, a width, a precision below it, and length letters. -/
def signedForm : Form :=
  ⟨['+', '0'], ['2', '4'], some ['2', '1'], ['l', 'l'], List.all_eq_true.1 rfl,
    List.all_eq_true.1 rfl, fun _ heq => Option.some.inj heq ▸ List.all_eq_true.1 rfl,
    List.all_eq_true.1 rfl⟩

/-- The least word has a magnitude that is no signed word. -/
theorem fill_of_least_integer :
    'd' ∈ integerLetters ∧ signedForm.width.head? ≠ some '0'
      ∧ signedForm.text ++ ['d'] = "%+024.21lld".toList
      ∧ ∃ (front back : Nat) (digits : Text),
        let text := fill (signedForm.text ++ ['d']) (.number Int64.minValue)
        text = List.replicate front ' ' ++ (['-'] ++ digits) ++ List.replicate back ' '
          ∧ text.trimBy (· = ' ') = ['-'] ++ digits
          ∧ IsNumeral 10 digits (2 ^ 63)
          ∧ text.length = max 24 (1 + max 21 (max 1 (digits.dropWhile (· = '0')).length)) := by
  have hletter : 'd' ∈ integerLetters := by decide
  have hwidth : signedForm.width.head? ≠ some '0' := by decide
  have hcounts : statedCount signedForm.width = 24
      ∧ statedCount (signedForm.precision.getD []) = 21 := by decide
  obtain ⟨front, back, digits, htext, -, htrim, -, hnumeral, -, hlength⟩ :=
    fill_of_integer_conversion signedForm 'd' Int64.minValue hletter hwidth
  rw [hcounts.1, hcounts.2] at hlength
  exact ⟨hletter, hwidth, rfl, front, back, digits, htext, htrim, hnumeral, hlength⟩

end Template

end FileSignatures
