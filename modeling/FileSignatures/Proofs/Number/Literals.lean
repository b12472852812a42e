import FileSignatures.Proofs.Number.Digits
import Mathlib.Data.Nat.Digits.Defs

/-!
# What integer literals denote

A reader of literals goes through a text from left to right: it drops blanks, takes a
sign off, chooses a radix by the next characters and adds up digits. This module states
the notation without that order. A numeral is a list of digits with their values, a
magnitude is a numeral in one of three notations, and a literal is a magnitude with a
sign, as long as 64 bits hold it.

The notations exclude each other, since a decimal with more than one digit may not begin
with a zero, and no numeral begins with a sign. So a literal denotes one integer, which
is the one that is read (`ofText?_eq_some_iff`). The two ranges that readers of literals
accept are the signed words and the words in either reading; of the latter, the word that
is stored is the integer modulo their count.

## Main definitions

* `IsNumeral`: Digits of a radix, and the number that they denote.
* `Literal.IsMagnitude`: A numeral with what selects its radix.
* `Literal.Denotes`: A text is a literal for an integer.
* `Literal.Fits`, `Literal.Stands`: The integer is in the range of signed words, or in
  the one of all words.

## Theorems

* `digitValue?_eq_some_iff`: Which characters are digits.
* `digitsValue?_eq_some_iff`: Digits have the value of the numeral that they are.
* `IsNumeral.ne_nil_and_isGraphic`: Numerals are not empty and hold no blanks.
* `magnitude?_eq_some_iff`: The radix and the value of a magnitude are read.
* `ofText?_eq_some_iff`: A text is read as the integer that it denotes.
* `signed?_eq_some_iff`, `word?_eq_some_iff`: Literals in the two ranges.
-/

namespace FileSignatures

/-- Digits of a radix, letters in either case, and the number that they denote. -/
def IsNumeral (radix : Nat) (digits : Text) (n : Nat) : Prop :=
  ∃ values : List Nat, values ≠ []
    ∧ List.Forall₂ (fun d c => d < radix ∧ SameDigit (Nat.digitChar d) c) values digits
    ∧ n = Nat.ofDigits radix values.reverse

/-- A digit up to fifteen is a decimal one or one of the first six letters. -/
theorem sameDigit_of_digitValue? (c : Char) (d : Nat) (h : digitValue? 16 c = some d) :
    SameDigit (Nat.digitChar d) c := by
  -- All characters that can be digits are checked one by one.
  have hascii : ∀ code < 128, ∀ e < 16, digitValue? 16 (Char.ofNat code) = some e →
      Char.ofNat code = Nat.digitChar e ∨ Char.ofNat code = (Nat.digitChar e).toUpper := by
    decide
  have hcode : c.toNat < 128 := by
    have hgraphic := isGraphic_of_digitValue? 16 d c h
    unfold IsGraphic at hgraphic
    omega
  have hlt : d < 16 := of_decide_eq_true (Option.filter_eq_some_iff.1 h).2
  have hsame := hascii c.toNat hcode d hlt
  rw [Char.ofNat_toNat] at hsame
  exact hsame h

/-- Which characters are digits of a radix. -/
theorem digitValue?_eq_some_iff (radix d : Nat) (c : Char) (hradix : radix ≤ 16) :
    digitValue? radix c = some d ↔ d < radix ∧ SameDigit (Nat.digitChar d) c := by
  constructor
  · intro h
    obtain ⟨hvalue, hbelow⟩ := Option.filter_eq_some_iff.1 h
    have hlt : d < radix := of_decide_eq_true hbelow
    -- A digit of the radix is one of the greatest radix, too.
    have hgreatest : digitValue? 16 c = some d :=
      Option.filter_eq_some_iff.2 ⟨hvalue, decide_eq_true (by omega)⟩
    exact ⟨hlt, sameDigit_of_digitValue? c d hgreatest⟩
  · rintro ⟨hlt, hsame⟩
    rw [digitValue?_of_sameDigit radix _ c hsame, digitValue?_digitChar radix d hradix hlt]

/-- Reading digits adds their values up, behind those that have been read. -/
theorem digitsValueFrom?_eq_some_iff (radix high n : Nat) (digits : Text) (hradix : radix ≤ 16) :
    digitsValueFrom? radix high digits = some n ↔
      ∃ values : List Nat,
        List.Forall₂ (fun d c => d < radix ∧ SameDigit (Nat.digitChar d) c) values digits
          ∧ n = values.foldl (fun high d => high * radix + d) high := by
  -- What has been read so far is general: it is the start of the sum.
  induction digits generalizing high with
  | nil =>
      rw [digitsValueFrom?, Option.some.injEq]
      constructor
      · exact fun h => ⟨[], .nil, h.symm⟩
      · rintro ⟨values, hvalues, rfl⟩
        cases hvalues
        rfl
  | cons c rest ih =>
      rw [digitsValueFrom?]
      constructor
      · intro h
        cases hc : digitValue? radix c with
        | none =>
            rw [hc] at h
            exact absurd h (by simp only [reduceCtorEq, not_false_eq_true])
        | some d =>
            rw [hc] at h
            obtain ⟨values, hvalues, rfl⟩ := (ih _).1 h
            exact ⟨d :: values, .cons ((digitValue?_eq_some_iff radix d c hradix).1 hc) hvalues,
              rfl⟩
      · rintro ⟨values, hvalues, rfl⟩
        cases hvalues with
        | cons hc hrest =>
            rw [(digitValue?_eq_some_iff radix _ c hradix).2 hc]
            exact (ih _).2 ⟨_, hrest, rfl⟩

/-- The least significant digit comes last in a text, and first in a sum of powers. -/
theorem ofDigits_reverse (radix : Nat) (values : List Nat) :
    Nat.ofDigits radix values.reverse = values.foldl (fun high d => high * radix + d) 0 := by
  rw [Nat.ofDigits_eq_foldr, List.foldr_reverse]
  have hstep : (fun high d : Nat => ((d : Nat) : Nat) + radix * high)
      = fun high d => high * radix + d := by
    funext high d
    rw [Nat.add_comm, Nat.mul_comm]
  exact congrArg (fun step => values.foldl step 0) hstep

/-- Digits have the value of the numeral that they are. -/
theorem digitsValue?_eq_some_iff (radix n : Nat) (digits : Text) (hradix : radix ≤ 16) :
    digitsValue? radix digits = some n ↔ IsNumeral radix digits n := by
  unfold IsNumeral
  constructor
  · intro h
    -- Reading rejects the empty text, and a numeral has a digit.
    have hne : digits ≠ [] := by
      rintro rfl
      exact absurd h (by simp only [digitsValue?, reduceCtorEq, not_false_eq_true])
    rw [digitsValue?_of_ne_nil radix digits hne] at h
    obtain ⟨values, hvalues, rfl⟩ := (digitsValueFrom?_eq_some_iff radix 0 n digits hradix).1 h
    refine ⟨values, ?_, hvalues, (ofDigits_reverse radix values).symm⟩
    rintro rfl
    exact hne (List.forall₂_nil_left_iff.1 hvalues)
  · rintro ⟨values, hne, hvalues, rfl⟩
    have hdigits : digits ≠ [] := by
      rintro rfl
      exact hne (List.forall₂_nil_right_iff.1 hvalues)
    rw [digitsValue?_of_ne_nil radix digits hdigits]
    exact (digitsValueFrom?_eq_some_iff radix 0 _ digits hradix).2
      ⟨values, hvalues, ofDigits_reverse radix values⟩

/-- A numeral begins with a digit. -/
theorem IsNumeral.exists_cons {radix n : Nat} {digits : Text} (h : IsNumeral radix digits n)
    (hradix : radix ≤ 16) : ∃ c rest, digits = c :: rest ∧ digitValue? radix c ≠ none := by
  obtain ⟨values, hne, hvalues, -⟩ := h
  cases hvalues with
  | nil => exact absurd rfl hne
  | cons hc _ =>
      exact ⟨_, _, rfl,
        Option.ne_none_iff_exists'.2 ⟨_, (digitValue?_eq_some_iff radix _ _ hradix).2 hc⟩⟩

/-- A numeral is not empty and consists of graphic characters. -/
theorem IsNumeral.ne_nil_and_isGraphic {radix n : Nat} {digits : Text}
    (h : IsNumeral radix digits n) (hradix : radix ≤ 16) :
    digits ≠ [] ∧ ∀ c ∈ digits, IsGraphic c := by
  obtain ⟨first, rest, hcons, -⟩ := h.exists_cons hradix
  have hne : digits ≠ [] := hcons ▸ List.cons_ne_nil first rest
  have hvalue := (digitsValue?_eq_some_iff radix n digits hradix).2 h
  rw [digitsValue?_of_ne_nil radix digits hne] at hvalue
  exact ⟨hne, fun c hc => isGraphic_of_mem_digits radix 0 n digits c hvalue hc⟩

namespace Literal

/-- A numeral with what selects its radix: a mark before hexadecimal digits, a zero before
    octal ones, and nothing before a decimal that does not begin with a zero itself unless
    it is one. -/
inductive IsMagnitude : Text → Nat → Prop
  | hexadecimal (mark digits : Text) (n : Nat) (hmark : mark ∈ [['0', 'x'], ['0', 'X'], ['#']])
      (h : IsNumeral 16 digits n) : IsMagnitude (mark ++ digits) n
  | octal (digits : Text) (n : Nat) (h : IsNumeral 8 digits n) : IsMagnitude ('0' :: digits) n
  | decimal (digits : Text) (n : Nat) (h : IsNumeral 10 digits n)
      (hzero : digits.head? = some '0' → digits = ['0']) : IsMagnitude digits n

/-- A text is a literal for an integer: between blanks it is a magnitude that 64 bits hold,
    after a sign if there is one. -/
inductive Denotes (t : Text) : Int → Prop
  | unsigned (n : Nat) (h : IsMagnitude t.trim n) (hn : n < 2 ^ 64) : Denotes t n
  | plus (body : Text) (n : Nat) (ht : t.trim = '+' :: body) (h : IsMagnitude body n)
      (hn : n < 2 ^ 64) : Denotes t n
  | minus (body : Text) (n : Nat) (ht : t.trim = '-' :: body) (h : IsMagnitude body n)
      (hn : n < 2 ^ 64) : Denotes t (-n)

/-- A text is a literal in the range of signed words, and the word is its integer. -/
def Fits (t : Text) (word : Int64) : Prop :=
  ∃ n : Int, Denotes t n ∧ -2 ^ 63 ≤ n ∧ n < 2 ^ 63 ∧ word.toInt = n

/-- A text is a literal in the range of words, signed or unsigned, and the word is its
    integer modulo their count. -/
def Stands (t : Text) (word : UInt64) : Prop :=
  ∃ n : Int, Denotes t n ∧ -2 ^ 63 ≤ n ∧ n < 2 ^ 64 ∧ (word.toNat : Int) = n % 2 ^ 64

/-- The radix and the digits of a magnitude are found, by cases on how it begins. -/
theorem magnitude?_of_isMagnitude (body : Text) (n : Nat) (h : IsMagnitude body n)
    (hn : n < 2 ^ 64) : magnitude? body = some n := by
  have hread : ∀ (radix : Nat) (digits : Text), radix ≤ 16 → IsNumeral radix digits n →
      radixAndDigits body = (radix, digits) → magnitude? body = some n := by
    intro radix digits hradix hnumeral hbody
    unfold magnitude?
    rw [hbody]
    exact Option.filter_eq_some_iff.2
      ⟨(digitsValue?_eq_some_iff radix n digits hradix).2 hnumeral, decide_eq_true hn⟩
  cases h with
  | hexadecimal mark digits _ hmark h =>
      simp only [List.mem_cons, List.not_mem_nil, or_false] at hmark
      rcases hmark with rfl | rfl | rfl <;> exact hread 16 digits (by omega) h rfl
  | octal digits _ h =>
      refine hread 8 digits (by omega) h ?_
      -- No octal digit is the mark of a hexadecimal numeral.
      obtain ⟨c, rest, rfl, hc⟩ := h.exists_cons (by omega)
      have hmarks : c ≠ 'x' ∧ c ≠ 'X' := by
        constructor <;> (rintro rfl; exact hc (by decide))
      rw [radixAndDigits.eq_def]
      split
      · rename_i heq
        simp only [List.cons.injEq, true_and] at heq
        exact absurd heq.1 hmarks.1
      · rename_i heq
        simp only [List.cons.injEq, true_and] at heq
        exact absurd heq.1 hmarks.2
      · rename_i heq
        exact absurd (List.cons.inj heq).1 (by decide)
      · rename_i heq
        rw [(List.cons.inj heq).2]
      · rename_i _ _ _ hother
        exact absurd rfl (hother c rest)
  | decimal _ _ h hzero =>
      refine hread 10 body (by omega) h ?_
      obtain ⟨c, rest, rfl, hc⟩ := h.exists_cons (by omega)
      have hmark : c ≠ '#' := by
        rintro rfl
        exact hc (by decide)
      -- After a zero there is nothing, so neither a mark nor an octal digit.
      have hlone : ∀ (e : Char) (more : Text), c :: rest ≠ '0' :: e :: more := by
        intro e more heq
        have hall := hzero (by rw [heq]; rfl)
        rw [heq] at hall
        exact absurd (List.cons.inj hall).2 (List.cons_ne_nil e more)
      rw [radixAndDigits.eq_def]
      split
      · exact absurd ‹_› (hlone _ _)
      · exact absurd ‹_› (hlone _ _)
      · rename_i heq
        exact absurd (List.cons.inj heq).1 hmark
      · exact absurd ‹_› (hlone _ _)
      · rfl

/-- The radix and the value of a magnitude are read. -/
theorem magnitude?_eq_some_iff (body : Text) (n : Nat) :
    magnitude? body = some n ↔ IsMagnitude body n ∧ n < 2 ^ 64 := by
  constructor
  · intro h
    obtain ⟨hvalue, hbelow⟩ := Option.filter_eq_some_iff.1 h
    refine ⟨?_, of_decide_eq_true hbelow⟩
    have hnumeral : ∀ (radix : Nat) (digits : Text), radix ≤ 16 →
        radixAndDigits body = (radix, digits) → IsNumeral radix digits n := by
      intro radix digits hradix heq
      have hfound : digitsValue? (radixAndDigits body).1 (radixAndDigits body).2 = some n := hvalue
      rw [heq] at hfound
      exact (digitsValue?_eq_some_iff radix n digits hradix).1 hfound
    -- What stands in front decides the radix, and what remains are the digits.
    rw [radixAndDigits.eq_def] at hnumeral
    split at hnumeral
    · exact .hexadecimal ['0', 'x'] _ n (by simp) (hnumeral 16 _ (by omega) rfl)
    · exact .hexadecimal ['0', 'X'] _ n (by simp) (hnumeral 16 _ (by omega) rfl)
    · exact .hexadecimal ['#'] _ n (by simp) (hnumeral 16 _ (by omega) rfl)
    · exact .octal _ n (hnumeral 8 _ (by omega) rfl)
    · rename_i hoctal
      refine .decimal _ n (hnumeral 10 _ (by omega) rfl) fun hhead => ?_
      cases body with
      | nil => exact absurd hhead (by simp only [List.head?_nil, reduceCtorEq, not_false_eq_true])
      | cons c rest =>
          rw [List.head?_cons, Option.some.injEq] at hhead
          subst hhead
          cases rest with
          | nil => rfl
          | cons d more => exact absurd rfl (hoctal d more)
  · exact fun h => magnitude?_of_isMagnitude body n h.1 h.2

/-- A magnitude begins with a digit or a mark, so with no sign. -/
theorem IsMagnitude.no_sign {body : Text} {n : Nat} (h : IsMagnitude body n) (rest : Text) :
    body ≠ '+' :: rest ∧ body ≠ '-' :: rest := by
  -- The first character of a numeral is a digit, whatever the radix.
  have hdigit : ∀ (radix : Nat) (digits : Text), radix ≤ 16 → IsNumeral radix digits n →
      digits ≠ '+' :: rest ∧ digits ≠ '-' :: rest := by
    intro radix digits hradix hnumeral
    obtain ⟨c, more, rfl, hc⟩ := hnumeral.exists_cons hradix
    constructor <;>
      · intro heq
        rw [(List.cons.inj heq).1] at hc
        exact hc rfl
  cases h with
  | hexadecimal mark digits _ hmark _ =>
      simp only [List.mem_cons, List.not_mem_nil, or_false] at hmark
      rcases hmark with rfl | rfl | rfl <;> constructor <;>
        exact fun heq => absurd (List.cons.inj heq).1 (by decide)
  | octal => constructor <;> exact fun heq => absurd (List.cons.inj heq).1 (by decide)
  | decimal _ _ h => exact hdigit 10 body (by omega) h

/-- A sign is applied to a magnitude that has been read. -/
theorem map_natCast_eq_some_iff (magnitude : Option Nat) (sign : Int → Int) (n : Int) :
    Option.map sign (do let m ← magnitude; pure (m : Int)) = some n ↔
      ∃ m : Nat, magnitude = some m ∧ sign m = n := by
  cases magnitude with
  | none => simp
  | some m => simp

/-- A text is read as the integer that it denotes. -/
theorem ofText?_eq_some_iff (t : Text) (n : Int) : ofText? t = some n ↔ Denotes t n := by
  constructor
  · intro h
    unfold ofText? at h
    split at h
    · rename_i body ht
      obtain ⟨m, hm, rfl⟩ := (map_natCast_eq_some_iff _ _ n).1 h
      obtain ⟨hbody, hlt⟩ := (magnitude?_eq_some_iff body m).1 hm
      exact .minus body m ht hbody hlt
    · rename_i body ht
      obtain ⟨m, hm, rfl⟩ := (map_natCast_eq_some_iff _ _ n).1 h
      obtain ⟨hbody, hlt⟩ := (magnitude?_eq_some_iff body m).1 hm
      exact .plus body m ht hbody hlt
    · obtain ⟨m, hm, rfl⟩ := (map_natCast_eq_some_iff _ _ n).1 h
      obtain ⟨hbody, hlt⟩ := (magnitude?_eq_some_iff t.trim m).1 hm
      exact .unsigned m hbody hlt
  · intro h
    unfold ofText?
    cases h with
    -- A magnitude does not begin with a sign, so the cases exclude each other.
    | unsigned m hbody hlt =>
        split
        · rename_i rest ht
          exact absurd ht (hbody.no_sign rest).2
        · rename_i rest ht
          exact absurd ht (hbody.no_sign rest).1
        · exact (map_natCast_eq_some_iff _ _ _).2
            ⟨m, (magnitude?_eq_some_iff t.trim m).2 ⟨hbody, hlt⟩, rfl⟩
    | plus body m ht hbody hlt =>
        rw [ht]
        exact (map_natCast_eq_some_iff _ _ _).2
          ⟨m, (magnitude?_eq_some_iff body m).2 ⟨hbody, hlt⟩, rfl⟩
    | minus body m ht hbody hlt =>
        rw [ht]
        exact (map_natCast_eq_some_iff _ _ _).2
          ⟨m, (magnitude?_eq_some_iff body m).2 ⟨hbody, hlt⟩, rfl⟩

/-- A literal in the range of signed words is read as its integer. -/
theorem signed?_eq_some_iff (t : Text) (word : Int64) : signed? t = some word ↔ Fits t word := by
  unfold signed? Fits
  rw [Option.bind_eq_some_iff]
  refine exists_congr fun n => and_congr (ofText?_eq_some_iff t n) ?_
  unfold toSigned? signedBound
  -- Outside of the range there is neither a word nor an integer of one.
  by_cases hrange : -2 ^ 63 ≤ n ∧ n < 2 ^ 63
  · rw [if_pos (by omega), Option.some.injEq]
    constructor
    · intro hword
      exact ⟨hrange.1, hrange.2, by rw [← hword, Int64.toInt_ofInt_of_le (by omega) (by omega)]⟩
    · rintro ⟨-, -, rfl⟩
      exact Int64.ofInt_toInt word
  · rw [if_neg (by omega)]
    simp only [reduceCtorEq, false_iff]
    exact fun h => hrange ⟨h.1, h.2.1⟩

/-- A word has the bits of an integer if it is the integer modulo the count of words. -/
theorem toUInt64_ofInt_eq_iff (n : Int) (word : Int64) :
    Int64.ofInt n = word ↔ (word.toUInt64.toNat : Int) = n % 2 ^ 64 := by
  have hbits : (word.toUInt64.toNat : Int) = (word.toBitVec.toNat : Int) := rfl
  rw [hbits, ← Int64.toBitVec_inj]
  have hofInt : (Int64.ofInt n).toBitVec = BitVec.ofInt 64 n := rfl
  have hnat : ((BitVec.ofInt 64 n).toNat : Int) = n % 2 ^ 64 := by
    rw [BitVec.toNat_ofInt]
    omega
  rw [hofInt, ← BitVec.toNat_inj, ← Int.ofNat_inj, hnat]
  exact eq_comm

/-- A literal in the range of words is read as the word that stands for it. -/
theorem word?_eq_some_iff (t : Text) (word : Int64) :
    word? t = some word ↔ Stands t word.toUInt64 := by
  unfold word? Stands
  rw [Option.bind_eq_some_iff]
  refine exists_congr fun n => and_congr (ofText?_eq_some_iff t n) ?_
  rw [← toUInt64_ofInt_eq_iff]
  unfold toWord? signedBound wordCount
  -- The range reaches from the least signed word to the greatest unsigned one.
  by_cases hrange : -2 ^ 63 ≤ n ∧ n < 2 ^ 64
  · rw [if_pos (by omega), Option.some.injEq]
    exact ⟨fun h => ⟨hrange.1, hrange.2, h⟩, fun h => h.2.2⟩
  · rw [if_neg (by omega)]
    simp only [reduceCtorEq, false_iff]
    exact fun h => hrange ⟨h.1, h.2.1⟩

end Literal

end FileSignatures
