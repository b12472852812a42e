import FileSignatures.Number.Literal
import FileSignatures.Proofs.Text.Splitting
import Mathlib.Data.List.Forall2

/-!
# Numbers that are written are read back

Databases, templates and reports write numbers in decimal, and masks in
hexadecimal. This module says that reading a numeral gives the number that was
written, from the digits up: a digit has its value, a list of digits the value that
it is written for, and a literal the integer with its sign. Words keep their whole
range, down to the negative one without a positive counterpart.

Numerals consist of graphic characters, so no blanks are trimmed from them.

## Main definitions

* `IsGraphic`: A visible ASCII character.
* `SameDigit`: A digit, be it a letter of either case.
* `IsHexadecimal`: The hexadecimal digits of a number.

## Theorems

* `trim_eq_self`: Graphic characters are not trimmed.
* `isDigit_of_mem_ofNat`: A decimal consists of digits.
* `digitsValue?_toDigits`: The digits of a number denote it, in any radix.
* `toDigits_zero_or_head`: They do not begin with a zero.
* `digitsValue?_ofNat`, `digitsValue?_of_isDigit`: A decimal denotes its number.
* `radixAndDigits_ofNat`: A decimal selects no other radix.
* `ofText?_ofInt`, `ofText?_hexadecimal`: A literal denotes the integer that is
  written.
* `signed?_ofInt`, `word?_ofInt`, `word?_hexadecimal`: Words are read back.
-/

namespace FileSignatures

/-- A visible ASCII character. -/
def IsGraphic (c : Char) : Prop :=
  0x20 < c.toNat ∧ c.toNat < 0x7f

instance (c : Char) : Decidable (IsGraphic c) :=
  inferInstanceAs (Decidable (_ ∧ _))

theorem isBlank_of_isGraphic (c : Char) (h : IsGraphic c) : isBlank c = false := by
  rcases h with ⟨hlow, hhigh⟩
  -- No range of blanks reaches into the visible characters.
  rw [isBlank, List.any_eq_false]
  intro range hmem
  simp only [blankRanges, List.mem_cons, List.not_mem_nil, or_false] at hmem
  rcases hmem with rfl | rfl | rfl | rfl | rfl | rfl | rfl | rfl | rfl | rfl <;>
    simp only [Bool.and_eq_true, decide_eq_true_eq] <;> omega

/-- Graphic characters are not trimmed. -/
theorem trim_eq_self (t : Text) (h : ∀ c ∈ t, IsGraphic c) : t.trim = t :=
  trimBy_eq_self isBlank t fun c hc => isBlank_of_isGraphic c (h c hc)

theorem isDigit_iff (c : Char) : isDigit c = true ↔ 48 ≤ c.toNat ∧ c.toNat ≤ 57 := by
  unfold isDigit
  rw [Bool.and_eq_true, decide_eq_true_eq, decide_eq_true_eq]
  exact Iff.rfl

theorem isGraphic_of_isDigit (c : Char) (h : isDigit c = true) : IsGraphic c := by
  have hrange := (isDigit_iff c).1 h
  unfold IsGraphic
  omega

theorem isDigit_of_mem_ofNat (n : Nat) (c : Char) (h : c ∈ Text.ofNat n) : isDigit c = true := by
  have hdigit := Nat.isDigit_of_mem_toDigits (by omega) (by omega) h
  unfold Char.isDigit at hdigit
  unfold isDigit
  simp only [Bool.and_eq_true, decide_eq_true_eq] at hdigit ⊢
  exact hdigit

theorem ofNat_ne_nil (n : Nat) : Text.ofNat n ≠ [] :=
  Nat.toDigits_ne_nil

/-- Reading more digits continues from the value of those before. -/
theorem digitsValueFrom?_append (radix high : Nat) (s t : Text) :
    digitsValueFrom? radix high (s ++ t)
      = (digitsValueFrom? radix high s).bind fun n => digitsValueFrom? radix n t := by
  induction s generalizing high with
  | nil => rfl
  | cons c rest ih =>
      rw [List.cons_append, digitsValueFrom?, digitsValueFrom?]
      cases digitValue? radix c with
      | none => rfl
      | some d => exact ih _

/-- A digit of any radix is a graphic character. -/
theorem isGraphic_of_digitValue? (radix d : Nat) (c : Char) (h : digitValue? radix c = some d) :
    IsGraphic c := by
  have hdigit : ('0' ≤ c ∧ c ≤ '9') ↔ 48 ≤ c.toNat ∧ c.toNat ≤ 57 := Iff.rfl
  have hlower : ('a' ≤ c ∧ c ≤ 'z') ↔ 97 ≤ c.toNat ∧ c.toNat ≤ 122 := Iff.rfl
  have hupper : ('A' ≤ c ∧ c ≤ 'Z') ↔ 65 ≤ c.toNat ∧ c.toNat ≤ 90 := Iff.rfl
  unfold digitValue? at h
  simp only [hdigit, hlower, hupper] at h
  unfold IsGraphic
  -- The three ranges of digits lie between the first graphic character and the last.
  split at h
  · omega
  · split at h
    · omega
    · split at h
      · omega
      · exact absurd h (by simp only [Option.filter_none, reduceCtorEq, not_false_eq_true])

/-- What has a value consists of digits. -/
theorem isGraphic_of_mem_digits (radix high n : Nat) (t : Text) (c : Char)
    (h : digitsValueFrom? radix high t = some n) (hc : c ∈ t) : IsGraphic c := by
  induction t generalizing high with
  | nil => exact absurd hc List.not_mem_nil
  | cons first rest ih =>
      rw [digitsValueFrom?] at h
      cases hvalue : digitValue? radix first with
      | none =>
          rw [hvalue] at h
          exact absurd h (by simp only [reduceCtorEq, not_false_eq_true])
      | some d =>
          rw [hvalue] at h
          rcases List.mem_cons.1 hc with rfl | hc
          · exact isGraphic_of_digitValue? radix d c hvalue
          · exact ih _ h hc

/-- Every digit has its value. -/
theorem digitValue?_digitChar (radix d : Nat) (hradix : radix ≤ 16) (hd : d < radix) :
    digitValue? radix (Nat.digitChar d) = some d := by
  have hall : ∀ r < 17, ∀ e < r, digitValue? r (Nat.digitChar e) = some e := by decide
  exact hall radix (by omega) d hd

/-- The digits of a number give it back, by strong induction on the number: its
    last digit stands after the digits of the rest. -/
theorem digitsValueFrom?_toDigits (radix n : Nat) (hone : 1 < radix) (hradix : radix ≤ 16) :
    digitsValueFrom? radix 0 (Nat.toDigits radix n) = some n := by
  induction n using Nat.strongRecOn with
  | _ n ih =>
      by_cases hsmall : n < radix
      · rw [Nat.toDigits_of_lt_base hsmall, digitsValueFrom?,
          digitValue?_digitChar radix n hradix hsmall]
        simp only [digitsValueFrom?, Nat.zero_mul, Nat.zero_add]
      · have hrest := ih (n / radix) (Nat.div_lt_self (by omega) hone)
        have hlast := Nat.mod_lt n (show 0 < radix by omega)
        rw [Nat.toDigits_of_base_le hone (by omega), digitsValueFrom?_append, hrest,
          Option.bind_some, digitsValueFrom?, digitValue?_digitChar radix _ hradix hlast]
        simp only [digitsValueFrom?, Option.some.injEq]
        rw [Nat.mul_comm]
        exact Nat.div_add_mod n radix

theorem digitsValue?_of_ne_nil (radix : Nat) (digits : Text) (h : digits ≠ []) :
    digitsValue? radix digits = digitsValueFrom? radix 0 digits := by
  cases digits with
  | nil => exact absurd rfl h
  | cons c rest => rfl

/-- The digits of a number denote it, in any radix with known digits. -/
theorem digitsValue?_toDigits (radix n : Nat) (hone : 1 < radix) (hradix : radix ≤ 16) :
    digitsValue? radix (Nat.toDigits radix n) = some n := by
  rw [digitsValue?_of_ne_nil radix _ Nat.toDigits_ne_nil]
  exact digitsValueFrom?_toDigits radix n hone hradix

/-- A decimal denotes its number. -/
theorem digitsValue?_ofNat (n : Nat) : digitsValue? 10 (Text.ofNat n) = some n :=
  digitsValue?_toDigits 10 n (by omega) (by omega)

theorem decimalValue_ofNat (n : Nat) : Text.decimalValue (Text.ofNat n) = n :=
  Nat.ofDigitChars_toDigits (by omega) (by omega)

/-- A decimal digit counts from zero. -/
theorem digitValue?_of_isDigit (c : Char) (h : isDigit c = true) :
    digitValue? 10 c = some (c.toNat - '0'.toNat) := by
  have hrange := (isDigit_iff c).1 h
  have hcase : '0' ≤ c ∧ c ≤ '9' := by
    simpa only [isDigit, Bool.and_eq_true, decide_eq_true_eq] using h
  have hzero : '0'.toNat = 48 := rfl
  have hlt : c.toNat - '0'.toNat < 10 := by omega
  unfold digitValue?
  rw [if_pos hcase, Option.filter_some, if_pos (decide_eq_true hlt)]

/-- The value of a list of digits is that of their decimal. -/
theorem digitsValueFrom?_of_isDigit (digits : Text) (high : Nat)
    (h : ∀ c ∈ digits, isDigit c = true) :
    digitsValueFrom? 10 high digits = some (Nat.ofDigitChars 10 digits high) := by
  induction digits generalizing high with
  | nil => rfl
  | cons c digits ih =>
      rw [digitsValueFrom?, digitValue?_of_isDigit c (h c List.mem_cons_self)]
      simp only
      rw [ih _ fun d hd => h d (List.mem_cons_of_mem _ hd), Nat.ofDigitChars_cons, Nat.mul_comm]

theorem digitsValue?_of_isDigit (digits : Text) (hne : digits ≠ [])
    (h : ∀ c ∈ digits, isDigit c = true) :
    digitsValue? 10 digits = some (Text.decimalValue digits) := by
  rw [digitsValue?_of_ne_nil 10 digits hne]
  exact digitsValueFrom?_of_isDigit digits 0 h

/-- Two characters are the same digit, be it a letter of either case. -/
def SameDigit (digit c : Char) : Prop :=
  c = digit ∨ c = digit.toUpper

/-- A letter in upper case has the value of the same letter in lower case. -/
theorem digitValue?_toUpper (radix : Nat) (c : Char) :
    digitValue? radix c.toUpper = digitValue? radix c := by
  have hdigit : ∀ d : Char, ('0' ≤ d ∧ d ≤ '9') ↔ 48 ≤ d.toNat ∧ d.toNat ≤ 57 := fun _ => Iff.rfl
  have hlower : ∀ d : Char, ('a' ≤ d ∧ d ≤ 'z') ↔ 97 ≤ d.toNat ∧ d.toNat ≤ 122 := fun _ => Iff.rfl
  have hupper : ∀ d : Char, ('A' ≤ d ∧ d ≤ 'Z') ↔ 65 ≤ d.toNat ∧ d.toNat ≤ 90 := fun _ => Iff.rfl
  by_cases hc : 97 ≤ c.toNat ∧ c.toNat ≤ 122
  · -- The capital letters stand 32 places before the small ones.
    have hvalue : c.toUpper.toNat = c.toNat - 32 := by
      have hval : c.val.toNat = c.toNat := rfl
      have hshift : (c.val + ('A'.val - 'a'.val)).toNat = (c.val.toNat + 4294967264) % 2 ^ 32 :=
        UInt32.toNat_add _ _
      have hletter : 'a'.val ≤ c.val ∧ c.val ≤ 'z'.val := hc
      unfold Char.toUpper
      rw [dif_pos hletter]
      exact hshift.trans (by rw [hval]; omega)
    unfold digitValue?
    simp only [hdigit, hlower, hupper, hvalue]
    rw [if_neg (by omega), if_neg (by omega), if_pos (by omega), if_neg (by omega),
      if_pos (by omega)]
    congr 2
  · have hself : c.toUpper = c := by
      unfold Char.toUpper
      rw [dif_neg]
      exact hc
    rw [hself]

theorem digitValue?_of_sameDigit (radix : Nat) (digit c : Char) (h : SameDigit digit c) :
    digitValue? radix c = digitValue? radix digit := by
  rcases h with rfl | rfl
  · rfl
  · exact digitValue?_toUpper radix digit

/-- The case of letters makes no difference to the value of digits. -/
theorem digitsValueFrom?_of_sameDigit (radix high : Nat) (digits t : Text)
    (h : List.Forall₂ SameDigit digits t) :
    digitsValueFrom? radix high t = digitsValueFrom? radix high digits := by
  induction h generalizing high with
  | nil => rfl
  | @cons digit c _ _ hc _ ih =>
      rw [digitsValueFrom?, digitsValueFrom?, digitValue?_of_sameDigit radix digit c hc]
      cases digitValue? radix digit with
      | none => rfl
      | some d => exact ih _

/-- The digits of a number do not begin with a zero unless it is zero itself. -/
theorem toDigits_zero_or_head (radix n : Nat) (hone : 1 < radix) :
    (n = 0 ∧ Nat.toDigits radix n = ['0'])
      ∨ ∃ d rest, 0 < d ∧ d < radix ∧ Nat.toDigits radix n = Nat.digitChar d :: rest := by
  induction n using Nat.strongRecOn with
  | _ n ih =>
      by_cases hsmall : n < radix
      · rw [Nat.toDigits_of_lt_base hsmall]
        by_cases hzero : n = 0
        · exact Or.inl ⟨hzero, by rw [hzero]; rfl⟩
        · exact Or.inr ⟨n, [], by omega, hsmall, rfl⟩
      · -- What stands before the last digit is a number other than zero.
        have hpos : 0 < n / radix := Nat.div_pos (by omega) (by omega)
        rw [Nat.toDigits_of_base_le hone (by omega)]
        rcases ih (n / radix) (Nat.div_lt_self (by omega) hone) with
          ⟨hzero, -⟩ | ⟨d, rest, hd, hlt, heq⟩
        · omega
        · exact Or.inr ⟨d, _, hd, hlt, by rw [heq]; rfl⟩

theorem exists_of_mem_toDigits (radix n : Nat) (c : Char) (hone : 1 < radix)
    (h : c ∈ Nat.toDigits radix n) : ∃ d, d < radix ∧ c = Nat.digitChar d := by
  induction n using Nat.strongRecOn with
  | _ n ih =>
      by_cases hsmall : n < radix
      · rw [Nat.toDigits_of_lt_base hsmall] at h
        exact ⟨n, hsmall, List.mem_singleton.1 h⟩
      · rw [Nat.toDigits_of_base_le hone (by omega)] at h
        rcases List.mem_append.1 h with hmem | hmem
        · exact ih (n / radix) (Nat.div_lt_self (by omega) hone) hmem
        · exact ⟨n % radix, Nat.mod_lt n (by omega), List.mem_singleton.1 hmem⟩

/-- A decimal does not begin with a zero unless it is one. -/
theorem ofNat_zero_or_head (n : Nat) :
    Text.ofNat n = ['0'] ∨ ∃ c rest, Text.ofNat n = c :: rest ∧ isDigit c = true ∧ c ≠ '0' := by
  have hdigit : ∀ d < 10, 0 < d → isDigit (Nat.digitChar d) = true ∧ Nat.digitChar d ≠ '0' := by
    decide
  rcases toDigits_zero_or_head 10 n (by omega) with ⟨-, hzero⟩ | ⟨d, rest, hd, hlt, heq⟩
  · exact Or.inl hzero
  · exact Or.inr ⟨_, rest, heq, hdigit d hlt hd⟩

/-- A decimal begins with a digit. -/
theorem ofNat_eq_cons (n : Nat) :
    ∃ c rest, Text.ofNat n = c :: rest ∧ isDigit c = true := by
  rcases ofNat_zero_or_head n with hzero | ⟨c, rest, heq, hc, -⟩
  · exact ⟨'0', [], hzero, rfl⟩
  · exact ⟨c, rest, heq, hc⟩

/-- A decimal is its magnitude, or that after a minus sign. -/
theorem ofInt_cases (n : Int) : (0 ≤ n ∧ Text.ofInt n = Text.ofNat n.natAbs)
    ∨ (n < 0 ∧ Text.ofInt n = '-' :: Text.ofNat n.natAbs) := by
  cases n with
  | ofNat k => exact Or.inl ⟨Int.natCast_nonneg k, rfl⟩
  | negSucc k => exact Or.inr ⟨Int.negSucc_lt_zero k, rfl⟩

theorem mem_ofInt (n : Int) (c : Char) (h : c ∈ Text.ofInt n) : c = '-' ∨ isDigit c = true := by
  have hdigits := isDigit_of_mem_ofNat n.natAbs c
  rcases ofInt_cases n with ⟨-, heq⟩ | ⟨-, heq⟩
  · rw [heq] at h
    exact Or.inr (hdigits h)
  · rw [heq] at h
    rcases List.mem_cons.1 h with hc | hc
    · exact Or.inl hc
    · exact Or.inr (hdigits hc)

theorem isGraphic_of_mem_ofInt (n : Int) (c : Char) (h : c ∈ Text.ofInt n) : IsGraphic c := by
  rcases mem_ofInt n c h with rfl | hc
  · decide
  · exact isGraphic_of_isDigit c hc

theorem ofInt_eq_cons (n : Int) :
    ∃ c rest, Text.ofInt n = c :: rest ∧ (c = '-' ∨ isDigit c = true) := by
  rcases ofInt_cases n with ⟨-, heq⟩ | ⟨-, heq⟩
  · rcases ofNat_eq_cons n.natAbs with ⟨c, rest, hcons, hc⟩
    exact ⟨c, rest, heq.trans hcons, Or.inr hc⟩
  · exact ⟨'-', _, heq, Or.inl rfl⟩

/-- The digits of a number in hexadecimal, with letters of either case. -/
def IsHexadecimal (n : Nat) (digits : Text) : Prop :=
  List.Forall₂ SameDigit (Nat.toDigits 16 n) digits

theorem digitsValueFrom?_of_isHexadecimal (n : Nat) (digits : Text) (h : IsHexadecimal n digits) :
    digitsValueFrom? 16 0 digits = some n := by
  rw [digitsValueFrom?_of_sameDigit 16 0 _ digits h]
  exact digitsValueFrom?_toDigits 16 n (by omega) (by omega)

theorem digitsValue?_of_isHexadecimal (n : Nat) (digits : Text) (h : IsHexadecimal n digits) :
    digitsValue? 16 digits = some n := by
  have hne : digits ≠ [] := by
    rintro rfl
    exact Nat.toDigits_ne_nil (List.forall₂_nil_right_iff.1 h)
  rw [digitsValue?_of_ne_nil 16 digits hne]
  exact digitsValueFrom?_of_isHexadecimal n digits h

namespace Literal

/-- A decimal selects no other radix. -/
theorem radixAndDigits_ofNat (n : Nat) : radixAndDigits (Text.ofNat n) = (10, Text.ofNat n) := by
  -- A zero in front or a number sign would select another radix.
  rcases ofNat_zero_or_head n with hzero | ⟨c, rest, heq, hc, hne⟩
  · rw [hzero]
    rfl
  · have hhash : c ≠ '#' := fun h => absurd hc (by rw [h]; decide)
    rw [heq, radixAndDigits.eq_def]
    split
    · rename_i h
      exact absurd (List.cons.inj h).1 hne
    · rename_i h
      exact absurd (List.cons.inj h).1 hne
    · rename_i h
      exact absurd (List.cons.inj h).1 hhash
    · rename_i h
      exact absurd (List.cons.inj h).1 hne
    · rfl

theorem magnitude?_ofNat (n : Nat) (h : n < wordCount) : magnitude? (Text.ofNat n) = some n := by
  unfold magnitude?
  rw [radixAndDigits_ofNat]
  simp only [digitsValue?_ofNat, Option.filter_some, h, decide_true, if_true]

theorem magnitude?_hexadecimal (n : Nat) (digits : Text) (h : n < wordCount)
    (hdigits : IsHexadecimal n digits) : magnitude? ('0' :: 'x' :: digits) = some n := by
  have hradix : radixAndDigits ('0' :: 'x' :: digits) = (16, digits) := rfl
  unfold magnitude?
  rw [hradix]
  simp only [digitsValue?_of_isHexadecimal n digits hdigits, Option.filter_some, h, decide_true,
    if_true]

/-- A literal without a sign denotes its magnitude. -/
theorem ofText?_unsigned (c : Char) (rest : Text) (hgraphic : ∀ d ∈ c :: rest, IsGraphic d)
    (hdigit : isDigit c = true) :
    ofText? (c :: rest) = (magnitude? (c :: rest)).map fun n => (n : Int) := by
  unfold ofText?
  rw [trim_eq_self _ hgraphic]
  split
  · rename_i h
    rw [(List.cons.inj h).1] at hdigit
    exact absurd hdigit (by decide)
  · rename_i h
    rw [(List.cons.inj h).1] at hdigit
    exact absurd hdigit (by decide)
  · rfl

theorem ofText?_ofNat (n : Nat) (h : n < wordCount) : ofText? (Text.ofNat n) = some (n : Int) := by
  have hmagnitude := magnitude?_ofNat n h
  have hgraphic := fun c hc => isGraphic_of_isDigit c (isDigit_of_mem_ofNat n c hc)
  rcases ofNat_eq_cons n with ⟨c, rest, heq, hc⟩
  rw [heq] at hmagnitude hgraphic ⊢
  rw [ofText?_unsigned c rest hgraphic hc, hmagnitude]
  rfl

/-- A literal denotes the integer that is written. -/
theorem ofText?_ofInt (n : Int) (h : n.natAbs < wordCount) : ofText? (Text.ofInt n) = some n := by
  rcases ofInt_cases n with ⟨hsign, heq⟩ | ⟨hsign, heq⟩
  · rw [heq, ofText?_ofNat n.natAbs h, Int.natAbs_of_nonneg hsign]
  · have hgraphic := isGraphic_of_mem_ofInt n
    rw [heq] at hgraphic ⊢
    unfold ofText?
    rw [trim_eq_self _ hgraphic]
    simp only [magnitude?_ofNat n.natAbs h]
    have hnegative : -(n.natAbs : Int) = n := by omega
    exact congrArg some hnegative

theorem ofText?_plus (n : Nat) (h : n < wordCount) :
    ofText? ('+' :: Text.ofNat n) = some (n : Int) := by
  have hgraphic : ∀ c ∈ '+' :: Text.ofNat n, IsGraphic c := by
    intro c hc
    rcases List.mem_cons.1 hc with rfl | hc
    · decide
    · exact isGraphic_of_isDigit c (isDigit_of_mem_ofNat n c hc)
  unfold ofText?
  rw [trim_eq_self _ hgraphic]
  simp only [magnitude?_ofNat n h]
  rfl

/-- A literal in hexadecimal denotes the number of its digits. -/
theorem ofText?_hexadecimal (n : Nat) (digits : Text) (h : n < wordCount)
    (hdigits : IsHexadecimal n digits) : ofText? ('0' :: 'x' :: digits) = some (n : Int) := by
  have hgraphic : ∀ c ∈ '0' :: 'x' :: digits, IsGraphic c := by
    intro c hc
    rcases List.mem_cons.1 hc with rfl | hc
    · decide
    · rcases List.mem_cons.1 hc with rfl | hc
      · decide
      · exact isGraphic_of_mem_digits 16 0 n digits c
          (digitsValueFrom?_of_isHexadecimal n digits hdigits) hc
  rw [ofText?_unsigned '0' _ hgraphic rfl, magnitude?_hexadecimal n digits h hdigits]
  rfl

/-- Signed words are in the range of signed words. -/
theorem toSigned?_toInt (n : Int64) : toSigned? n.toInt = some n := by
  have hlow := n.le_toInt
  have hhigh := n.toInt_lt
  unfold toSigned?
  rw [if_pos (by unfold signedBound; omega), Int64.ofInt_toInt]

theorem natAbs_toInt_lt (n : Int64) : n.toInt.natAbs < wordCount := by
  have hlow := n.le_toInt
  have hhigh := n.toInt_lt
  unfold wordCount
  omega

/-- A signed word is read back, also the least one. -/
theorem signed?_ofInt (n : Int64) : signed? (Text.ofInt n.toInt) = some n := by
  unfold signed?
  rw [ofText?_ofInt n.toInt (natAbs_toInt_lt n), Option.bind_some, toSigned?_toInt]

/-- One that is not negative may carry a plus sign. -/
theorem signed?_plus (n : Int64) (h : 0 ≤ n.toInt) :
    signed? ('+' :: Text.ofNat n.toInt.natAbs) = some n := by
  unfold signed?
  rw [ofText?_plus n.toInt.natAbs (natAbs_toInt_lt n), Option.bind_some,
    Int.natAbs_of_nonneg h, toSigned?_toInt]

/-- A signed word is read back as the word that it is. -/
theorem word?_ofInt (n : Int64) : word? (Text.ofInt n.toInt) = some n := by
  have hlow := n.le_toInt
  have hhigh := n.toInt_lt
  unfold word?
  rw [ofText?_ofInt n.toInt (natAbs_toInt_lt n), Option.bind_some]
  unfold toWord?
  rw [if_pos (by unfold signedBound wordCount; omega), Int64.ofInt_toInt]

/-- All bits of a word are read back from its hexadecimal digits. -/
theorem word?_hexadecimal (word : UInt64) (digits : Text)
    (h : IsHexadecimal word.toNat digits) :
    ∃ n, word? ('0' :: 'x' :: digits) = some n ∧ n.toUInt64 = word := by
  have hrange : word.toNat < wordCount := word.toNat_lt
  refine ⟨Int64.ofInt word.toNat, ?_, ?_⟩
  · unfold word?
    rw [ofText?_hexadecimal word.toNat digits hrange h, Option.bind_some]
    -- Numbers above the greatest signed word are in range too, as their bits.
    unfold toWord?
    rw [if_pos (by unfold signedBound; omega)]
  · have hbits : BitVec.ofInt 64 (word.toNat : Int) = word.toBitVec := by
      rw [BitVec.ofInt_natCast]
      exact BitVec.ofNat_toNat 64 word.toBitVec
    exact UInt64.toBitVec_inj.1 hbits

end Literal

end FileSignatures
