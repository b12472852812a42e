import FileSignatures.Proofs.Template.Integers

/-!
# Widths in templates

A conversion with a width writes what it writes without one, filled up to the width: with
blanks behind it under a minus sign, with zeros between sign or mark and digits if a flag
asks for zeros in a number, and with blanks before it otherwise. A text that has the width
already stays as it is.

All conversions do so, of numbers (`exists_pad_of_number`) and of strings
(`exists_pad_of_text`), but for one: a string
under a floating-point conversion is written as it is, while under an integer conversion,
where it is out of place just as much, it is filled up. So its width is honoured only if
the string is that long by itself (`honoursWidth_fill_iff`).

## Main definitions

* `Form.unwidened`: A conversion without its width.
* `numberLetters`, `numberLead`: The conversions of numbers, and what they write first.
* `Form.ZeroFills`: Which conversions are filled up with zeros.
* `Form.HonoursWidth`: A conversion is filled up to its width.
* `StringAsFloat`: A string under a floating-point conversion.

## Theorems

* `Form.pad_spec`: How the flags choose between blanks and zeros.
* `exists_pad_of_number`, `exists_pad_of_text`: What a conversion fills up.
* `honoursWidth_pad`: What is filled up honours the width.
* `honoursWidth_fill_iff`: Which conversions honour their width.
-/

namespace FileSignatures

namespace Template

/-- The final characters of conversions that write numbers. -/
def numberLetters : List Char :=
  integerLetters ++ ['f', 'F']

/-- What a conversion of a number writes before the digits. Floating-point conversions
    write the sign of a decimal number. -/
def numberLead (flags : Text) (letter : Char) (n : Int) : Text :=
  integerLead flags (if letter = 'f' ∨ letter = 'F' then 'd' else letter) n

theorem forall_mem_nil (p : Char → Bool) : ∀ c ∈ ([] : Text), p c = true :=
  fun _ hc => absurd hc List.not_mem_nil

namespace Form

/-- A conversion without its width. -/
def unwidened (form : Form) : Form where
  flags := form.flags
  width := []
  precision := form.precision
  lengths := form.lengths
  isFlag_of_mem := form.isFlag_of_mem
  isDigit_of_mem_width := forall_mem_nil isDigit
  isDigit_of_mem_precision := form.isDigit_of_mem_precision
  isLengthLetter_of_mem := form.isLengthLetter_of_mem

/-- Numbers are filled up with zeros if a flag asks for it and no precision says how many
    digits they have. -/
def ZeroFills (form : Form) (letter : Char) (v : Value) : Prop :=
  '0' ∈ form.flags ∧ form.precision = none ∧ letter ∈ numberLetters ∧ ∃ n, v = .number n

/-- A conversion honours its width: a text that is shorter without the width is filled up
    to it, on the side and with the characters that the flags say. -/
structure HonoursWidth (form : Form) (letter : Char) (v : Value) (bare text : Text) : Prop where
  kept : statedCount form.width ≤ bare.length → text = bare
  filled : bare.length < statedCount form.width → text.length = statedCount form.width
  right : '-' ∈ form.flags → ∃ count, text = bare ++ List.replicate count ' '
  zeros : '-' ∉ form.flags → form.ZeroFills letter v → ∀ n, v = .number n →
    ∃ count digits, bare = numberLead form.flags letter n.toInt ++ digits
      ∧ text = numberLead form.flags letter n.toInt ++ (List.replicate count '0' ++ digits)
  left : '-' ∉ form.flags → ¬form.ZeroFills letter v →
    ∃ count, text = List.replicate count ' ' ++ bare

/-- How the flags choose between blanks and zeros. -/
theorem pad_spec (form : Form) (numeric : Bool) (lead body : Text) :
    let missing := statedCount form.width - (lead ++ body).length
    form.spec.pad numeric lead body
      = if '-' ∈ form.flags then lead ++ body ++ List.replicate missing ' '
        else if '0' ∈ form.flags ∧ numeric = true ∧ form.precision = none then
          lead ++ (List.replicate missing '0' ++ body)
        else List.replicate missing ' ' ++ (lead ++ body) := by
  have hleft : form.spec.left = true ↔ '-' ∈ form.flags := List.contains_iff_mem
  have hzero : (form.spec.zero && numeric && form.spec.precision.isNone) = true
      ↔ '0' ∈ form.flags ∧ numeric = true ∧ form.precision = none := by
    rw [Bool.and_eq_true, Bool.and_eq_true, and_assoc]
    simp only [spec, conversionOf, List.contains_iff_mem, Option.isNone_map,
      Option.isNone_iff_eq_none]
  unfold Conversion.pad
  simp only [form.width_spec, hleft, hzero, List.append_assoc]

end Form

/-- A string under a floating-point conversion. -/
def StringAsFloat (letter : Char) (v : Value) : Prop :=
  (letter = 'f' ∨ letter = 'F') ∧ ∃ content, v = .bytes content

/-- A number under its conversions is a lead and digits, of which neither depends on the
    width. -/
theorem exists_pad_of_number (form : Form) (letter : Char) (n : Int64)
    (hletter : letter ∈ numberLetters) :
    ∃ digits,
      form.spec.convert? letter (.number n)
          = some (form.spec.pad true (numberLead form.flags letter n.toInt) digits)
        ∧ form.unwidened.spec.convert? letter (.number n)
          = some (form.unwidened.spec.pad true (numberLead form.flags letter n.toInt) digits) := by
  -- Integer conversions and fixed ones compute their digits differently, neither from the width.
  rcases List.mem_append.1 hletter with hinteger | hfloat
  · have hlead : numberLead form.flags letter n.toInt = integerLead form.flags letter n.toInt := by
      unfold numberLead
      rw [if_neg]
      rintro (rfl | rfl)
      · exact absurd hinteger (by decide)
      · exact absurd hinteger (by decide)
    rw [hlead]
    exact ⟨_, convert?_integer form letter n hinteger,
      convert?_integer form.unwidened letter n hinteger⟩
  · have hletters : letter = 'f' ∨ letter = 'F' := by
      simpa only [List.mem_cons, List.not_mem_nil, or_false] using hfloat
    have hlead : numberLead form.flags letter n.toInt = form.spec.sign (n < 0) := by
      rw [sign_spec form 'd' n (Or.inl rfl), numberLead, if_pos hletters]
    rw [hlead]
    refine ⟨form.spec.fixedPlaces n.toInt.natAbs, ?_⟩
    rcases hletters with rfl | rfl
    · exact ⟨rfl, rfl⟩
    · exact ⟨rfl, rfl⟩

/-- Other conversions fill up a text without a lead, but for strings under a floating-point
    conversion. -/
theorem exists_pad_of_text (form : Form) (letter : Char) (v : Value)
    (hletter : letter ∈ conversionLetters)
    (hnumber : ¬(letter ∈ numberLetters ∧ ∃ n, v = .number n))
    (hfloat : ¬StringAsFloat letter v) :
    ∃ body,
      form.spec.convert? letter v = some (form.spec.pad false [] body)
        ∧ form.unwidened.spec.convert? letter v = some (form.unwidened.spec.pad false [] body) := by
  by_cases hmember : letter ∈ numberLetters
  · -- A string under a conversion of numbers: all of these but two fill it up.
    cases v with
    | number n => exact absurd ⟨hmember, n, rfl⟩ hnumber
    | bytes content =>
        refine ⟨Value.display (.bytes content), ?_⟩
        simp only [numberLetters, integerLetters, List.mem_append, List.mem_cons,
          List.not_mem_nil, or_false] at hmember
        rcases hmember with (rfl | rfl | rfl | rfl | rfl | rfl) | hletters
        · exact ⟨rfl, rfl⟩
        · exact ⟨rfl, rfl⟩
        · exact ⟨rfl, rfl⟩
        · exact ⟨rfl, rfl⟩
        · exact ⟨rfl, rfl⟩
        · exact ⟨rfl, rfl⟩
        · exact absurd ⟨hletters, content, rfl⟩ hfloat
  · have hletters : letter = 's' ∨ letter = 'c' := by
      have hsplit : conversionLetters = ['s', 'c'] ++ numberLetters := rfl
      rw [hsplit, List.mem_append, or_iff_left hmember] at hletter
      simpa only [List.mem_cons, List.not_mem_nil, or_false] using hletter
    rcases hletters with rfl | rfl
    · exact ⟨_, rfl, rfl⟩
    · exact ⟨[Conversion.character v], rfl, rfl⟩

/-- What is filled up honours the width, if zeros go between lead and digits of numbers. -/
theorem honoursWidth_pad (form : Form) (letter : Char) (v : Value) (numeric : Bool)
    (lead body : Text)
    (hnumeric : numeric = true ↔ letter ∈ numberLetters ∧ ∃ n, v = .number n)
    (hlead : numeric = true → ∀ n, v = .number n → lead = numberLead form.flags letter n.toInt) :
    form.HonoursWidth letter v (form.unwidened.spec.pad numeric lead body)
      (form.spec.pad numeric lead body) := by
  have hzeros : '0' ∈ form.flags ∧ numeric = true ∧ form.precision = none
      ↔ form.ZeroFills letter v := by
    rw [hnumeric, Form.ZeroFills, and_comm (b := form.precision = none)]
  rw [form.unwidened.spec.pad_without_width numeric lead body rfl]
  have hpad := form.pad_spec numeric lead body
  simp only at hpad
  -- Wherever the characters are added, they are as many as are missing.
  have hlength : (form.spec.pad numeric lead body).length
      = (lead ++ body).length + (statedCount form.width - (lead ++ body).length) := by
    rw [hpad]
    split_ifs <;> simp only [List.length_append, List.length_replicate] <;> omega
  refine ⟨fun hlong => ?_, fun hshort => by omega, fun hleft => ?_, fun hleft hzero n hv => ?_,
    fun hleft hzero => ?_⟩
  · rw [hpad, Nat.sub_eq_zero_of_le hlong]
    simp only [List.replicate_zero, List.append_nil, List.nil_append, ite_self]
  · rw [hpad, if_pos hleft]
    exact ⟨_, rfl⟩
  · rw [hpad, if_neg hleft, if_pos (hzeros.2 hzero), ← hlead (hzeros.2 hzero).2.1 n hv]
    exact ⟨_, body, rfl, rfl⟩
  · rw [hpad, if_neg hleft, if_neg fun hall => hzero (hzeros.1 hall)]
    exact ⟨_, rfl⟩

/-- A string under a floating-point conversion is written as it is. -/
theorem convert?_of_stringAsFloat (spec : Conversion) (letter : Char) (v : Value)
    (h : StringAsFloat letter v) : spec.convert? letter v = some v.display := by
  obtain ⟨rfl | rfl, content, rfl⟩ := h
  · rfl
  · rfl

/-- Every conversion honours its width, but for one of a string under a floating-point
    conversion: that is written as it is, and the width is honoured only if it has no
    effect. -/
theorem honoursWidth_fill_iff (form : Form) (letter : Char) (v : Value)
    (hletter : letter ∈ conversionLetters) (hwidth : form.width.head? ≠ some '0') :
    (form.HonoursWidth letter v (fill (form.unwidened.text ++ [letter]) v)
        (fill (form.text ++ [letter]) v)
      ↔ ¬(StringAsFloat letter v ∧ v.display.length < statedCount form.width))
      ∧ (StringAsFloat letter v → fill (form.text ++ [letter]) v = v.display) := by
  have hbare := fill_conversion form.unwidened letter v hletter
    (by simp only [Form.unwidened, List.head?_nil, ne_eq, reduceCtorEq, not_false_eq_true])
  rw [hbare, fill_conversion form letter v hletter hwidth]
  by_cases hfloat : StringAsFloat letter v
  · -- The text is the same with and without the width, so it is too short or long enough.
    rw [convert?_of_stringAsFloat _ letter v hfloat, convert?_of_stringAsFloat _ letter v hfloat,
      Option.getD_some]
    refine ⟨⟨fun honoured hshort => ?_, fun hlong => ⟨fun _ => rfl, fun hshort => ?_, fun _ =>
      ⟨0, (List.append_nil _).symm⟩, fun _ _ n hv => ?_, fun _ _ => ⟨0, rfl⟩⟩⟩, fun _ => rfl⟩
    · exact absurd (honoured.filled hshort.2) (Nat.ne_of_lt hshort.2)
    · exact absurd ⟨hfloat, hshort⟩ hlong
    · obtain ⟨-, content, hcontent⟩ := hfloat
      exact absurd (hv.symm.trans hcontent) (by simp only [reduceCtorEq, not_false_eq_true])
  · refine ⟨iff_of_true ?_ fun hboth => hfloat hboth.1, fun h => absurd h hfloat⟩
    by_cases hnumber : letter ∈ numberLetters ∧ ∃ n, v = .number n
    · obtain ⟨hmember, n, rfl⟩ := hnumber
      obtain ⟨digits, hwide, hunwidened⟩ := exists_pad_of_number form letter n hmember
      rw [hwide, hunwidened, Option.getD_some, Option.getD_some]
      refine honoursWidth_pad form letter _ true _ digits
        (iff_of_true rfl ⟨hmember, n, rfl⟩) fun _ m hm => ?_
      rw [Value.number.injEq] at hm
      rw [hm]
    · obtain ⟨body, hwide, hunwidened⟩ := exists_pad_of_text form letter v hletter hnumber hfloat
      rw [hwide, hunwidened, Option.getD_some, Option.getD_some]
      exact honoursWidth_pad form letter v false [] body
        (iff_of_false Bool.false_ne_true hnumber) fun hfalse => absurd hfalse Bool.false_ne_true

/-- A conversion with flags and a width. -/
def widthForm (flags width : Text) (hflags : ∀ c ∈ flags, isFlag c = true)
    (hwidth : ∀ c ∈ width, isDigit c = true) : Form :=
  { shortForm flags hflags with
    width := width
    isDigit_of_mem_width := hwidth }

/-- A sign, a flag for zeros, and a width. -/
def zeroedForm : Form :=
  widthForm signedForm.flags ['6'] signedForm.isFlag_of_mem (List.all_eq_true.1 rfl)

/-- Zeros come between the sign and the digits. -/
theorem honoursWidth_zeroedForm :
    'd' ∈ conversionLetters ∧ zeroedForm.width.head? ≠ some '0'
      ∧ zeroedForm.text ++ ['d'] = "%+06d".toList
      ∧ zeroedForm.HonoursWidth 'd' (.number 7) "+7".toList "+00007".toList := by
  have hletter : 'd' ∈ conversionLetters := by decide
  have hwidth : zeroedForm.width.head? ≠ some '0' := by decide
  have hbare : fill (zeroedForm.unwidened.text ++ ['d']) (.number 7) = "+7".toList := by decide
  have htext : fill (zeroedForm.text ++ ['d']) (.number 7) = "+00007".toList := by decide
  have hiff := (honoursWidth_fill_iff zeroedForm 'd' (.number 7) hletter hwidth).1
  rw [hbare, htext] at hiff
  -- A number is no string, so this is not the case that is left out.
  refine ⟨hletter, hwidth, rfl, hiff.2 fun hboth => ?_⟩
  obtain ⟨⟨-, content, hcontent⟩, -⟩ := hboth
  exact absurd hcontent (by simp only [reduceCtorEq, not_false_eq_true])

/-- A width and nothing else. -/
def sixForm : Form :=
  widthForm [] ['6'] (forall_mem_nil isFlag) (List.all_eq_true.1 rfl)

/-- Two letters under a floating-point conversion stay two characters in a field of six. -/
theorem not_honoursWidth_sixForm :
    'f' ∈ conversionLetters ∧ sixForm.width.head? ≠ some '0'
      ∧ sixForm.text ++ ['f'] = "%6f".toList
      ∧ fill (sixForm.text ++ ['f']) (.bytes [97, 98]) = "ab".toList
      ∧ fill (sixForm.text ++ ['d']) (.bytes [97, 98]) = "    ab".toList
      ∧ ¬sixForm.HonoursWidth 'f' (.bytes [97, 98])
        (fill (sixForm.unwidened.text ++ ['f']) (.bytes [97, 98]))
        (fill (sixForm.text ++ ['f']) (.bytes [97, 98])) := by
  have hbare : fill (sixForm.unwidened.text ++ ['f']) (.bytes [97, 98]) = "ab".toList := by decide
  have htext : fill (sixForm.text ++ ['f']) (.bytes [97, 98]) = "ab".toList := by decide
  -- Two characters do not fill six, and the other conversion shows that they could.
  refine ⟨by decide, by decide, rfl, htext, by decide, fun honoured => ?_⟩
  rw [hbare, htext] at honoured
  have hlength := honoured.filled (by decide)
  exact absurd hlength (by decide)

end Template

end FileSignatures
