import FileSignatures.Proofs.Expression.Numerals
import FileSignatures.Proofs.Property.Fields
import FileSignatures.Proofs.Template.Integers

/-!
# Numbers in templates are read back

A decimal conversion may put a sign before a number, zeros between the sign and the
digits, and blanks around all of it. For a number that is not negative the result is an
expression whatever the flags, the width and the precision are: a plus sign is an operator
of expressions, zeros do not change a numeral, and blanks are skipped. Its value is the
number (`ShowsNumber.evaluate`).

As the value of a property the text is trimmed first, and it must not hold what ends a
property. Neither changes that (`ShowsNumber.trimBy`, `ShowsNumber.notMem`).

## Main definitions

* `Template.decimalLetters`: The final characters of decimal conversions.
* `SignedNumeral`: Digits for a number, perhaps with a plus sign.
* `ShowsNumber`: The same with blanks around.

## Theorems

* `writes_of_signedNumeral`: Which expression it is.
* `ShowsNumber.evaluate`: It evaluates to the number.
* `showsNumber_fill`: What decimal conversions write.
* `evaluate_fill`: What they write is read back.
-/

namespace FileSignatures

/-- Digits for a number, of which the first ones may be zeros, perhaps with a plus sign. -/
inductive SignedNumeral (n : Nat) : Text → Prop
  | unsigned (digits : Text) (hne : digits ≠ []) (hdigits : ∀ c ∈ digits, isDigit c = true)
      (hvalue : Text.decimalValue digits = n) : SignedNumeral n digits
  | plus (digits : Text) (hne : digits ≠ []) (hdigits : ∀ c ∈ digits, isDigit c = true)
      (hvalue : Text.decimalValue digits = n) : SignedNumeral n ('+' :: digits)

/-- A text that shows a number: such a numeral with blanks around. -/
def ShowsNumber (n : Nat) (text : Text) : Prop :=
  ∃ (front back : Nat) (body : Text), SignedNumeral n body
    ∧ text = List.replicate front ' ' ++ body ++ List.replicate back ' '

/-- It is not empty and consists of a plus sign and digits. -/
theorem SignedNumeral.ne_nil_and_mem {n : Nat} {body : Text} (h : SignedNumeral n body) :
    body ≠ [] ∧ ∀ c ∈ body, c = '+' ∨ isDigit c = true := by
  cases h with
  | unsigned _ hne hdigits => exact ⟨hne, fun c hc => Or.inr (hdigits c hc)⟩
  | plus digits hne hdigits =>
      refine ⟨List.cons_ne_nil _ _, fun c hc => ?_⟩
      rcases List.mem_cons.1 hc with rfl | hc
      · exact Or.inl rfl
      · exact Or.inr (hdigits c hc)

namespace Expression

/-- Blanks around it are skipped. -/
theorem writes_of_signedNumeral (n : Nat) (front back body : Text) (h : SignedNumeral n body)
    (hfront : ∀ c ∈ front, isBlank c = true) (hback : ∀ c ∈ back, isBlank c = true) :
    ∃ tree digits, Writes isDigit (front ++ body ++ back) tree ∧ digits ≠ []
      ∧ (∀ c ∈ digits, isDigit c = true) ∧ Text.decimalValue digits = n
      ∧ ∀ {α : Type} (A : Arithmetic α), tree.evaluate A = A.numeral digits := by
  -- A plus sign is an operator of the expression and does not change its value.
  cases h with
  | unsigned _ hne hdigits hvalue =>
      have hspells : Spells [.numeral body] (front ++ (body ++ back)) :=
        .token front (.numeral body) [] back hfront (.blanks back hback)
      rw [← List.append_assoc] at hspells
      exact ⟨.numeral body, body, ⟨_, hspells, .sum _ _ (.product _ _
        (derives_numeral isDigit body hne hdigits))⟩, hne, hdigits, hvalue, fun _ => rfl⟩
  | plus digits hne hdigits hvalue =>
      have hrest : Spells [.numeral digits] ([] ++ (digits ++ back)) :=
        .token [] (.numeral digits) [] back (fun _ hc => absurd hc List.not_mem_nil)
          (.blanks back hback)
      have hspells : Spells [.symbol '+', .numeral digits] (front ++ (['+'] ++ (digits ++ back))) :=
        .token front (.symbol '+') _ _ hfront hrest
      have htext : front ++ ('+' :: digits) ++ back = front ++ (['+'] ++ (digits ++ back)) := by
        simp only [List.append_assoc, List.cons_append, List.nil_append]
      rw [← htext] at hspells
      exact ⟨.signed .plus (.numeral digits), digits, ⟨_, hspells, .sum _ _ (.product _ _
        (.sign .plus _ _ (derives_numeral isDigit digits hne hdigits)))⟩, hne, hdigits, hvalue,
        fun _ => rfl⟩

end Expression

namespace ShowsNumber

variable {n : Nat} {text : Text} (h : ShowsNumber n text)

include h

/-- A text that shows a number evaluates to it, if a signed word holds it. -/
theorem evaluate (hlt : n < 2 ^ 63) :
    Evaluator.arithmetic.integer text = .ok (Int64.ofInt n) := by
  obtain ⟨front, back, body, hbody, rfl⟩ := h
  have hblank : ∀ count, ∀ c ∈ List.replicate count ' ', isBlank c = true := by
    intro count c hc
    rw [List.eq_of_mem_replicate hc]
    rfl
  -- The expression has one numeral and perhaps a sign that changes nothing.
  obtain ⟨tree, digits, hwrites, hne, hdigits, hvalue, hevaluate⟩ :=
    Expression.writes_of_signedNumeral n _ _ body hbody (hblank front) (hblank back)
  have hnumeral : ((digitsValue? 10 digits).bind fun n => Literal.toSigned? n)
      = some (Int64.ofInt n) := by
    rw [digitsValue?_of_isDigit digits hne hdigits, Option.bind_some, hvalue,
      Expression.toSigned?_natCast n hlt]
  show Expression.evaluate integerArithmetic _ = _
  rw [Expression.evaluate_of_writes integerArithmetic Expression.isNumeralClass_isDigit _ _ hwrites,
    hevaluate]
  simp only [integerArithmetic, hnumeral]

/-- Without blanks around it shows the same number. -/
theorem trimBy : ShowsNumber n (text.trimBy isControlOrSpace) := by
  obtain ⟨front, back, body, hbody, rfl⟩ := h
  obtain ⟨hne, hmem⟩ := hbody.ne_nil_and_mem
  have hblank : ∀ count, ∀ c ∈ List.replicate count ' ', isControlOrSpace c = true := by
    intro count c hc
    rw [List.eq_of_mem_replicate hc]
    rfl
  -- The body begins and ends with something visible, so exactly the blanks go.
  have hkept : ∀ c ∈ body, isControlOrSpace c = false := by
    intro c hc
    rcases hmem c hc with rfl | hdigit
    · rfl
    · exact not_control_of_isDigit c hdigit
  refine ⟨0, 0, body, hbody, ?_⟩
  rw [trimBy_append isControlOrSpace _ body _ hne (hblank front) hkept (hblank back)]
  simp only [List.replicate_zero, List.nil_append, List.append_nil]

/-- It holds nothing that means something in a description. -/
theorem notMem : ∀ c ∈ text, c ∉ ['[', ']', ';'] := by
  obtain ⟨front, back, body, hbody, rfl⟩ := h
  obtain ⟨-, hmem⟩ := hbody.ne_nil_and_mem
  -- Blanks, signs and digits are all there is.
  have hother : ∀ c, c = ' ' ∨ c = '+' ∨ isDigit c = true → c ∉ ['[', ']', ';'] := by
    intro c hc hspecial
    simp only [List.mem_cons, List.not_mem_nil, or_false] at hspecial
    rcases hc with rfl | rfl | hdigit
    · exact absurd hspecial (by decide)
    · exact absurd hspecial (by decide)
    · rcases hspecial with rfl | rfl | rfl <;> exact absurd hdigit (by decide)
  intro c hc
  refine hother c ?_
  rcases List.mem_append.1 hc with hc | hc
  · rcases List.mem_append.1 hc with hc | hc
    · exact Or.inl (List.eq_of_mem_replicate hc)
    · exact Or.inr (hmem c hc)
  · exact Or.inl (List.eq_of_mem_replicate hc)

end ShowsNumber

namespace Template

/-- The final characters of decimal conversions. -/
def decimalLetters : List Char :=
  ['d', 'i', 'u']

theorem decimalLetters_subset : decimalLetters ⊆ integerLetters := by
  decide

/-- A decimal conversion writes no sign before a number that is not negative, or one that an
    expression allows, or a blank. -/
theorem integerLead_of_decimal (flags : Text) (letter : Char) (n : Int)
    (hletter : letter ∈ decimalLetters) (hn : 0 ≤ n) :
    integerLead flags letter n = [] ∨ integerLead flags letter n = ['+']
      ∨ integerLead flags letter n = [' '] := by
  simp only [decimalLetters, List.mem_cons, List.not_mem_nil, or_false] at hletter
  -- Signed conversions look at the flags; the unsigned one has no sign.
  have hsigned : letter = 'd' ∨ letter = 'i' → integerLead flags letter n
      = if '+' ∈ flags then ['+'] else if ' ' ∈ flags then [' '] else [] := by
    intro h
    rw [integerLead, if_pos h, if_neg (Int.not_lt.2 hn)]
  rcases hletter with hd | hi | hu
  · rw [hsigned (Or.inl hd)]
    split_ifs <;> simp
  · rw [hsigned (Or.inr hi)]
    split_ifs <;> simp
  · rw [hu]
    exact Or.inl (ite_self [])

/-- The number that a decimal conversion writes is the one it is given. -/
theorem integerDigits_of_decimal (letter : Char) (n : Int64) (hletter : letter ∈ decimalLetters)
    (hn : 0 ≤ n.toInt) :
    integerRadix letter = 10
      ∧ integerDigits letter (integerMagnitude letter n.toInt) = Text.ofNat n.toInt.toNat := by
  have hrange := n.toInt_lt
  have hsigned : n.toInt.natAbs = n.toInt.toNat := by omega
  -- The number is not negative, so reading it unsigned changes nothing.
  have hunsigned : (n.toInt % 2 ^ 64).toNat = n.toInt.toNat := by omega
  simp only [decimalLetters, List.mem_cons, List.not_mem_nil, or_false] at hletter
  rcases hletter with rfl | rfl | rfl
  · rw [← hsigned]
    exact ⟨rfl, rfl⟩
  · rw [← hsigned]
    exact ⟨rfl, rfl⟩
  · rw [← hunsigned]
    exact ⟨rfl, rfl⟩

/-- Zeros before the digits of a number are digits for the same number. -/
theorem decimalValue_replicate_append (zeros n : Nat) :
    Text.decimalValue (List.replicate zeros '0' ++ Text.ofNat n) = n
      ∧ ∀ c ∈ List.replicate zeros '0' ++ Text.ofNat n, isDigit c = true := by
  have hdigits : ∀ c ∈ List.replicate zeros '0' ++ Text.ofNat n, isDigit c = true := by
    intro c hc
    rcases List.mem_append.1 hc with hc | hc
    · rw [List.eq_of_mem_replicate hc]
      rfl
    · exact isDigit_of_mem_ofNat n c hc
  have hne : List.replicate zeros '0' ++ Text.ofNat n ≠ [] :=
    List.append_ne_nil_of_right_ne_nil _ (ofNat_ne_nil n)
  -- Zeros in front are digits of the same numeral.
  have hnumeral : digitsValue? 10 (List.replicate zeros '0' ++ Text.ofNat n) = some n :=
    (digitsValue?_eq_some_iff 10 n _ (by decide)).2 (isNumeral_integerDigits 'd' zeros n)
  rw [digitsValue?_of_isDigit _ hne hdigits, Option.some.injEq] at hnumeral
  exact ⟨hnumeral, hdigits⟩

/-- Decimal conversions show a number that is not negative. -/
theorem showsNumber_fill (form : Form) (letter : Char) (n : Int64)
    (hletter : letter ∈ decimalLetters) (hwidth : form.width.head? ≠ some '0')
    (hn : 0 ≤ n.toInt) :
    ShowsNumber n.toInt.toNat (fill (form.text ++ [letter]) (.number n)) := by
  obtain ⟨front, zeros, back, htext, -⟩ :=
    fill_integer form letter n (decimalLetters_subset hletter) hwidth
  obtain ⟨hvalue, hdigits⟩ := decimalValue_replicate_append zeros n.toInt.toNat
  have hne : List.replicate zeros '0' ++ Text.ofNat n.toInt.toNat ≠ [] :=
    List.append_ne_nil_of_right_ne_nil _ (ofNat_ne_nil _)
  rw [htext, (integerDigits_of_decimal letter n hletter hn).2]
  rcases integerLead_of_decimal form.flags letter n.toInt hletter hn with hlead | hlead | hlead
  · rw [hlead, List.nil_append]
    exact ⟨front, back, _, .unsigned _ hne hdigits hvalue, rfl⟩
  · rw [hlead]
    exact ⟨front, back, _, .plus _ hne hdigits hvalue, rfl⟩
  · -- The blank in place of a sign is one more of those in front.
    rw [hlead, replicate_blank_append]
    exact ⟨front + 1, back, _, .unsigned _ hne hdigits hvalue, rfl⟩

/-- What a decimal conversion writes of a number that is not negative is read back as this
    number. -/
theorem evaluate_fill (form : Form) (letter : Char) (n : Int64)
    (hletter : letter ∈ decimalLetters) (hwidth : form.width.head? ≠ some '0')
    (hn : 0 ≤ n.toInt) :
    Evaluator.arithmetic.integer (fill (form.text ++ [letter]) (.number n)) = .ok n := by
  have hrange := n.toInt_lt
  have hvalue := (showsNumber_fill form letter n hletter hwidth hn).evaluate (by omega)
  have hback : Int64.ofInt (n.toInt.toNat : Int) = n := by
    rw [Int.toNat_of_nonneg hn, Int64.ofInt_toInt]
  rw [hback] at hvalue
  exact hvalue

end Template

end FileSignatures
