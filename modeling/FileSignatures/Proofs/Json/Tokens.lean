import FileSignatures.Json.Reader
import FileSignatures.Proofs.Number.Digits
import FileSignatures.Proofs.Text.Splitting

/-!
# Strings and numbers in documents

A string in quotes is read back as it was, whatever characters it has: each of them stands
for itself or is escaped, and what an escape stands for is found again
(`readString_escapeChar`). The quote at the end is the first one without a backslash.

A number is read as far as it goes, so it has to be followed by something that does not
continue it. Whole numbers are written in decimal. Any other number has places, an
exponent, or is a negative zero (`IsFraction`), and is kept as it is spelled.

## Main definitions

* `Json.continuesNumber`: Characters that may go on with a number.
* `Json.IsWhole`, `Json.IsPlaces`, `Json.IsExponent`: The parts of a number.
* `Json.IsFraction`: How a number is spelled that is not a whole one.

## Theorems

* `readString_quote`: A quoted text is read back.
* `readMagnitude?_of_parts`: A number is read part by part.
* `readNumber?_ofInt`: A whole number is read back.
* `readNumber?_of_isFraction`: Any other number is read as it is spelled.
-/

namespace FileSignatures

namespace Json

section Strings

/-- A control is escaped by the four digits of its code. -/
theorem fourDigits_of_control (code : Nat) (h : code < 32) :
    fourDigits code = ['0', '0', Nat.digitChar (code / 16), Nat.digitChar (code % 16)]
    ∧ codeUnit? '0' '0' (Nat.digitChar (code / 16)) (Nat.digitChar (code % 16)) = some code
    ∧ isLowHalf code = false ∧ isHighHalf code = false := by
  have hall : ∀ n < 32,
      fourDigits n = ['0', '0', Nat.digitChar (n / 16), Nat.digitChar (n % 16)]
      ∧ codeUnit? '0' '0' (Nat.digitChar (n / 16)) (Nat.digitChar (n % 16)) = some n
      ∧ isLowHalf n = false ∧ isHighHalf n = false := by decide
  exact hall code h

/-- An escape with a letter, none of which is that of an escape with a code. -/
theorem readString_letter (letter c : Char) (rest : Text) (h : escapedChar? letter = some c) :
    readString ('\\' :: letter :: rest)
      = (readString rest).map fun (t, rest) => (c :: t, rest) := by
  have hcode : escapedChar? 'u' = none := rfl
  rw [readString, h]
  intro _ _ _ _ _ hletter
  rw [hletter, hcode] at h
  exact fun _ => absurd h (by simp only [reduceCtorEq, not_false_eq_true])

theorem readString_plain (c : Char) (rest : Text) (hquote : c ≠ '"') (hbackslash : c ≠ '\\')
    (hcontrol : ¬ c < ' ') :
    readString (c :: rest) = (readString rest).map fun (t, rest) => (c :: t, rest) := by
  rw [readString, if_neg hcontrol]
  · exact hquote
  · exact fun _ _ _ _ _ heq => absurd heq hbackslash
  · exact fun _ _ heq => absurd heq hbackslash

/-- A character is read back, however it stands in a string. -/
theorem readString_escapeChar (c : Char) (rest : Text) :
    readString (escapeChar c ++ rest) = (readString rest).map fun (t, rest) => (c :: t, rest) := by
  unfold escapeChar
  by_cases hquote : c = '"'
  · rw [if_pos hquote, hquote]
    exact readString_letter '"' _ rest rfl
  by_cases hbackslash : c = '\\'
  · rw [if_neg hquote, if_pos hbackslash, hbackslash]
    exact readString_letter '\\' _ rest rfl
  rw [if_neg hquote, if_neg hbackslash]
  -- The letters of the controls that have one.
  by_cases hbackspace : c = '\x08'
  · rw [if_pos hbackspace, hbackspace]
    exact readString_letter 'b' _ rest rfl
  by_cases htab : c = '\t'
  · rw [if_neg hbackspace, if_pos htab, htab]
    exact readString_letter 't' _ rest rfl
  by_cases hnewline : c = '\n'
  · rw [if_neg hbackspace, if_neg htab, if_pos hnewline, hnewline]
    exact readString_letter 'n' _ rest rfl
  rw [if_neg hbackspace, if_neg htab, if_neg hnewline]
  by_cases hfeed : c = '\x0c'
  · rw [if_pos hfeed, hfeed]
    exact readString_letter 'f' _ rest rfl
  by_cases hreturn : c = '\r'
  · rw [if_neg hfeed, if_pos hreturn, hreturn]
    exact readString_letter 'r' _ rest rfl
  rw [if_neg hfeed, if_neg hreturn]
  by_cases hcontrol : c < ' '
  · obtain ⟨hdigits, hunit, hlow, hhigh⟩ := fourDigits_of_control c.toNat hcontrol
    rw [if_pos hcontrol, hdigits]
    simp only [List.cons_append, List.nil_append, readString, hunit, hlow, hhigh,
      Bool.false_eq_true, if_false, Char.ofNat_toNat]
  · rw [if_neg hcontrol]
    exact readString_plain c rest hquote hbackslash hcontrol

/-- A quoted text is read back, up to its closing quote. -/
theorem readString_quote (t rest : Text) :
    readString (t.flatMap escapeChar ++ '"' :: rest) = some (t, rest) := by
  induction t with
  | nil => rfl
  | cons c t ih =>
      rw [List.flatMap_cons, List.append_assoc, readString_escapeChar, ih]
      rfl

end Strings

section Numbers

/-- Characters that may go on with a number. -/
def continuesNumber (c : Char) : Bool :=
  isDigit c || c = '.' || c = 'e' || c = 'E'

/-- One digit or more. -/
def IsDigits (t : Text) : Prop :=
  t ≠ [] ∧ ∀ c ∈ t, isDigit c = true

/-- The whole part of a number: digits that do not begin with a zero, or a zero alone. -/
def IsWhole (t : Text) : Prop :=
  IsDigits t ∧ (t.head? = some '0' → t = ['0'])

/-- The places of a number behind a point, or nothing. -/
def IsPlaces (t : Text) : Prop :=
  t = [] ∨ ∃ digits, IsDigits digits ∧ t = '.' :: digits

/-- The exponent of a number, which may have a sign, or nothing. -/
def IsExponent (t : Text) : Prop :=
  t = [] ∨ ∃ e sign digits, (e = 'e' ∨ e = 'E') ∧ (sign = [] ∨ sign = ['+'] ∨ sign = ['-'])
    ∧ IsDigits digits ∧ t = e :: (sign ++ digits)

/-- The sign of a number. -/
def signText (negative : Bool) : Text :=
  if negative then ['-'] else []

/-- The spelling of a number that is not a whole one: it has places or an exponent, or it
    is a negative zero. -/
inductive IsFraction : Text → Prop
  | mk (negative : Bool) (whole places exponent : Text) (hwhole : IsWhole whole)
      (hplaces : IsPlaces places) (hexponent : IsExponent exponent)
      (hfraction : places = [] → exponent = [] → negative = true ∧ whole = ['0']) :
      IsFraction (signText negative ++ (whole ++ (places ++ exponent)))

variable (rest : Text) (hrest : rest.Stops continuesNumber)
include hrest

theorem stops_isDigit : rest.Stops isDigit := by
  intro c hc
  have hstop := hrest c hc
  simp only [continuesNumber, Bool.or_eq_false_iff] at hstop
  exact hstop.1.1.1

omit hrest in
theorem readDigits?_append (digits : Text) (h : IsDigits digits) (hstop : rest.Stops isDigit) :
    readDigits? (digits ++ rest) = some (digits, rest) := by
  unfold readDigits?
  simp only
  rw [takeWhile_append_of_stops isDigit digits rest h.2 hstop,
    dropWhile_append_of_stops isDigit digits rest h.2 hstop, if_neg]
  rw [List.isEmpty_iff]
  exact h.1

omit hrest in
theorem readWhole?_append (whole : Text) (h : IsWhole whole) (hstop : rest.Stops isDigit) :
    readWhole? (whole ++ rest) = some (whole, rest) := by
  obtain ⟨hdigits, hzero⟩ := h
  obtain ⟨c, more, rfl⟩ := List.exists_cons_of_ne_nil hdigits.1
  -- A zero in front is the whole of the number, and any other digit begins a run.
  by_cases hc : c = '0'
  · subst hc
    rw [hzero rfl]
    rfl
  · have hread := readDigits?_append rest (c :: more) hdigits hstop
    unfold readWhole?
    split
    · rename_i other heq
      rw [List.cons_append, List.cons.injEq] at heq
      exact absurd heq.1 hc
    · exact hread

theorem readPlaces?_append (places exponent : Text) (hplaces : IsPlaces places)
    (hexponent : IsExponent exponent) :
    readPlaces? (places ++ (exponent ++ rest)) = some (places, exponent ++ rest) := by
  -- The exponent does not begin with a digit or with a point.
  have hstop : (exponent ++ rest).Stops fun c => isDigit c || c = '.' := by
    refine Text.stops_append _ exponent rest ?_ fun _ c hc => ?_
    · rcases hexponent with rfl | ⟨e, sign, digits, he, -, -, rfl⟩
      · exact fun c hc => absurd hc (by simp)
      · intro c hc
        rw [List.head?_cons, Option.some.injEq] at hc
        rcases he with rfl | rfl
        · rw [← hc]
          decide
        · rw [← hc]
          decide
    · have hrest' := hrest c hc
      simp only [continuesNumber, Bool.or_eq_false_iff] at hrest' ⊢
      exact hrest'.1.1
  rcases hplaces with rfl | ⟨digits, hdigits, rfl⟩
  · rw [List.nil_append]
    unfold readPlaces?
    split
    · rename_i more heq
      have hpoint := hstop '.' (by rw [heq, List.head?_cons])
      exact absurd hpoint (by decide)
    · rfl
  · have hdigit : (exponent ++ rest).Stops isDigit := by
      intro c hc
      have hboth := hstop c hc
      simp only [Bool.or_eq_false_iff] at hboth
      exact hboth.1
    rw [List.cons_append, readPlaces?, readDigits?_append _ digits hdigits hdigit]
    rfl

theorem readExponent?_append (exponent : Text) (h : IsExponent exponent) :
    readExponent? (exponent ++ rest) = some (exponent, rest) := by
  have hdigit := stops_isDigit rest hrest
  rcases h with rfl | ⟨e, sign, digits, he, hsign, hdigits, rfl⟩
  · have hstop : ∀ c, rest.head? = some c → c ≠ 'e' ∧ c ≠ 'E' := by
      intro c hc
      have hnone := hrest c hc
      simp only [continuesNumber, Bool.or_eq_false_iff, decide_eq_false_iff_not] at hnone
      exact ⟨hnone.1.2, hnone.2⟩
    rw [List.nil_append]
    unfold readExponent?
    split
    · rename_i c d more
      obtain ⟨hlower, hupper⟩ := hstop c rfl
      rw [if_neg (by simp only [hlower, hupper, or_self, not_false_eq_true])]
    · exact absurd rfl (hstop 'e' rfl).1
    · exact absurd rfl (hstop 'E' rfl).2
    · rfl
  · have hread := readDigits?_append rest digits hdigits hdigit
    rcases hsign with rfl | hsign
    · -- Without a sign the first digit stands in its place.
      obtain ⟨d, more, rfl⟩ := List.exists_cons_of_ne_nil hdigits.1
      have hd : ¬ (d = '+' ∨ d = '-') := by
        have hisDigit := hdigits.2 d List.mem_cons_self
        rintro (rfl | rfl)
        · exact absurd hisDigit (by decide)
        · exact absurd hisDigit (by decide)
      rw [List.cons_append] at hread
      rw [List.nil_append, List.cons_append, List.cons_append, readExponent?, if_pos he, if_neg hd,
        hread]
      rfl
    · have hboth : ∀ s, s = '+' ∨ s = '-' → readExponent? (e :: s :: (digits ++ rest))
          = some (e :: s :: digits, rest) := by
        intro s hs
        rw [readExponent?, if_pos he, if_pos hs, hread]
        rfl
      rcases hsign with rfl | rfl
      · exact hboth '+' (Or.inl rfl)
      · exact hboth '-' (Or.inr rfl)

/-- A number is read part by part, up to what does not continue it. -/
theorem readMagnitude?_of_parts (negative : Bool) (whole places exponent : Text)
    (hwhole : IsWhole whole) (hplaces : IsPlaces places) (hexponent : IsExponent exponent) :
    readMagnitude? negative (whole ++ (places ++ (exponent ++ rest)))
      = some (if places.isEmpty && exponent.isEmpty
            && !(negative && Text.decimalValue whole = 0) then
          .integer (if negative then -(Text.decimalValue whole : Int) else Text.decimalValue whole)
        else .fraction (signText negative ++ (whole ++ (places ++ exponent))), rest) := by
  -- Behind the whole part stands a point, an exponent or the end, and none of them is a digit.
  have hdigit : (places ++ (exponent ++ rest)).Stops isDigit := by
    refine Text.stops_append _ places _ ?_ fun _ => Text.stops_append _ exponent rest ?_
      fun _ => stops_isDigit rest hrest
    · rcases hplaces with rfl | ⟨digits, -, rfl⟩
      · exact fun c hc => absurd hc (by simp)
      · intro c hc
        rw [← Option.some.inj hc]
        decide
    · rcases hexponent with rfl | ⟨e, sign, digits, he, -, -, rfl⟩
      · exact fun c hc => absurd hc (by simp)
      · intro c hc
        rw [← Option.some.inj hc]
        rcases he with rfl | rfl <;> decide
  unfold readMagnitude?
  rw [readWhole?_append _ whole hwhole hdigit]
  simp only [Option.bind_eq_bind, Option.bind_some,
    readPlaces?_append rest hrest places exponent hplaces hexponent,
    readExponent?_append rest hrest exponent hexponent]
  split
  · rfl
  · simp only [signText, List.append_assoc]
    rfl

omit hrest in
theorem isWhole_ofNat (n : Nat) : IsWhole (Text.ofNat n) := by
  refine ⟨⟨ofNat_ne_nil n, isDigit_of_mem_ofNat n⟩, fun hhead => ?_⟩
  rcases ofNat_zero_or_head n with hzero | ⟨c, more, heq, -, hc⟩
  · exact hzero
  · rw [heq, List.head?_cons, Option.some.injEq] at hhead
    exact absurd hhead hc

omit hrest in
theorem readNumber?_sign (negative : Bool) (whole tail : Text) (h : IsWhole whole) :
    readNumber? (signText negative ++ (whole ++ tail))
      = readMagnitude? negative (whole ++ tail) := by
  cases negative with
  | true => rfl
  | false =>
      obtain ⟨c, more, rfl⟩ := List.exists_cons_of_ne_nil h.1.1
      -- Without a sign the number begins with a digit, which is no minus.
      have hc : c ≠ '-' := by
        rintro rfl
        exact absurd (h.1.2 '-' List.mem_cons_self) (by decide)
      unfold readNumber?
      split
      · rename_i heq
        rw [signText, if_neg Bool.false_ne_true, List.nil_append, List.cons_append,
          List.cons.injEq] at heq
        exact absurd heq.1 hc
      · rfl

theorem readNumber?_ofInt (n : Int) :
    readNumber? (Text.ofInt n ++ rest) = some (.integer n, rest) := by
  have hwhole := isWhole_ofNat n.natAbs
  have hread := fun negative => readMagnitude?_of_parts rest hrest negative _ [] [] hwhole
    (Or.inl rfl) (Or.inl rfl)
  simp only [List.nil_append, List.isEmpty_nil, Bool.true_and, decimalValue_ofNat] at hread
  -- Of the negative numbers none is minus zero, which would be a fraction.
  rcases ofInt_cases n with ⟨hsign, heq⟩ | ⟨hsign, heq⟩
  · have hnumber := readNumber?_sign false _ rest hwhole
    rw [signText, if_neg Bool.false_ne_true, List.nil_append] at hnumber
    rw [heq, hnumber, hread]
    simp only [Bool.false_and, Bool.not_false, if_true, Bool.false_eq_true, if_false]
    rw [Int.natAbs_of_nonneg hsign]
  · have hnumber := readNumber?_sign true _ rest hwhole
    have hzero : n.natAbs ≠ 0 := by omega
    rw [signText, if_pos rfl, List.singleton_append] at hnumber
    rw [heq, List.cons_append, hnumber, hread]
    simp only [Bool.true_and, hzero, decide_false, Bool.not_false, if_true]
    congr 3
    omega

/-- A number that is no whole one is read as it is spelled. -/
theorem readNumber?_of_isFraction (spelling : Text) (h : IsFraction spelling) :
    readNumber? (spelling ++ rest) = some (.fraction spelling, rest) := by
  cases h with
  | mk negative whole places exponent hwhole hplaces hexponent hfraction =>
      rw [List.append_assoc, List.append_assoc, List.append_assoc,
        readNumber?_sign negative whole _ hwhole,
        readMagnitude?_of_parts rest hrest negative whole places exponent hwhole hplaces hexponent,
        if_neg]
      -- Without places and exponent it is minus zero, the one such number that is no integer.
      intro hinteger
      simp only [Bool.and_eq_true, List.isEmpty_iff, Bool.not_eq_true'] at hinteger
      obtain ⟨⟨hnone, hneither⟩, hzero⟩ := hinteger
      obtain ⟨rfl, rfl⟩ := hfraction hnone hneither
      exact absurd hzero (by decide)

end Numbers

end Json

end FileSignatures
