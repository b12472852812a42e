import FileSignatures.Proofs.Expression.CheckedIntegers
import FileSignatures.Proofs.Floating.WholeNumbers

/-!
# Numerals are read back

A number that a template writes in decimal is read again by an evaluator of
numeric properties. The decimal writes a numeral (`writes_ofNat`), and its digits give
the number back, so a decimal evaluates to its number as long as a signed word holds
it.

A quotient of decimals evaluates in double precision unless its divisor is zero.

## Theorems

* `writes_ofNat`, `writes_quotient`: What a decimal and a quotient of decimals write.
* `evaluate_integer_ofNat`: A decimal is an expression for a whole number.
* `evaluate_float_quotient`: A quotient of decimals is one for a rate.
-/

namespace FileSignatures

namespace Expression

/-- A decimal is a numeral wherever digits are numeral characters. -/
theorem derives_ofNat (isNumeralChar : Char → Bool) (n : Nat)
    (hdigits : ∀ c, isDigit c = true → isNumeralChar c = true) :
    Derives isNumeralChar .signed [.numeral (Text.ofNat n)] (.numeral (Text.ofNat n)) :=
  derives_numeral isNumeralChar (Text.ofNat n) (ofNat_ne_nil n)
    fun c h => hdigits c (isDigit_of_mem_ofNat n c h)

theorem writes_ofNat (isNumeralChar : Char → Bool) (n : Nat)
    (hdigits : ∀ c, isDigit c = true → isNumeralChar c = true) :
    Writes isNumeralChar (Text.ofNat n) (.numeral (Text.ofNat n)) := by
  have hspells := spells_flatMap [.numeral (Text.ofNat n)]
  rw [List.flatMap_singleton] at hspells
  exact ⟨_, hspells, .sum _ _ (.product _ _ (derives_ofNat isNumeralChar n hdigits))⟩

theorem writes_quotient (isNumeralChar : Char → Bool) (dividend divisor : Nat)
    (hdigits : ∀ c, isDigit c = true → isNumeralChar c = true) :
    Writes isNumeralChar (Text.ofNat dividend ++ '/' :: Text.ofNat divisor)
      (.product (.numeral (Text.ofNat dividend)) .divide (.numeral (Text.ofNat divisor))) := by
  have hspells := spells_flatMap
    [.numeral (Text.ofNat dividend), .symbol '/', .numeral (Text.ofNat divisor)]
  rw [List.flatMap_cons, List.flatMap_cons, List.flatMap_singleton] at hspells
  exact ⟨_, hspells, .sum _ _ (.moreProduct _ _ _ _ .divide
    (.product _ _ (derives_ofNat isNumeralChar dividend hdigits))
    (derives_ofNat isNumeralChar divisor hdigits))⟩

/-- Digits and the point are apart from blanks and from the symbols of expressions. -/
theorem isNumeralClass_float : IsNumeralClass floatArithmetic.isNumeralChar where
  not_blank c h := by
    simp only [floatArithmetic, Bool.or_eq_true, decide_eq_true_eq] at h
    rcases h with hdigit | rfl
    · exact isNumeralClass_isDigit.not_blank c hdigit
    · decide
  not_symbol := eq_false_of_symbols floatArithmetic.isNumeralChar (by decide)

/-- A number below half the count of words is a signed word. -/
theorem toSigned?_natCast (n : Nat) (hlt : n < 2 ^ 63) :
    Literal.toSigned? n = some (Int64.ofInt n) := by
  have hrange : -Literal.signedBound ≤ (n : Int) ∧ (n : Int) < Literal.signedBound := by
    unfold Literal.signedBound
    omega
  unfold Literal.toSigned?
  rw [if_pos hrange]

theorem integerNumeral_ofNat (n : Nat) (hlt : n < 2 ^ 63) :
    integerArithmetic.numeral (Text.ofNat n) = .ok (Int64.ofInt n) := by
  have hvalue : ((digitsValue? 10 (Text.ofNat n)).bind fun n => Literal.toSigned? n)
      = some (Int64.ofInt n) := by
    rw [digitsValue?_ofNat, Option.bind_some, toSigned?_natCast n hlt]
  simp only [integerArithmetic, hvalue]

/-- A decimal is an expression for its number, if a signed word holds it. -/
theorem evaluate_integer_ofNat (n : Nat) (hlt : n < 2 ^ 63) :
    evaluate integerArithmetic (Text.ofNat n) = .ok (Int64.ofInt n) := by
  rw [evaluate_of_writes integerArithmetic isNumeralClass_isDigit _ _
    (writes_ofNat isDigit n fun _ h => h)]
  exact integerNumeral_ofNat n hlt

/-- A run of digits is a numeral without a fraction. -/
theorem floatNumeral_of_isDigit (digits : Text) (hne : digits ≠ [])
    (h : ∀ c ∈ digits, isDigit c = true) :
    floatNumeral digits = .ok (Float.ofScientific (Text.decimalValue digits) true 0) := by
  -- The whole part takes all digits, and no fraction is left.
  have hall : digits.takeWhile isDigit = digits := List.takeWhile_eq_self_iff.2 h
  have hrest : digits.dropWhile isDigit = [] := List.dropWhile_eq_nil_iff.2 h
  have hvalue : digitsValue? 10 digits = some (Text.decimalValue digits) :=
    digitsValue?_of_isDigit digits hne h
  unfold floatNumeral
  simp only [hall, hrest, Option.bind_some, List.append_nil, hvalue, Option.map_some,
    List.length_nil]

theorem floatNumeral_ofNat (n : Nat) :
    floatNumeral (Text.ofNat n) = .ok (Float.ofScientific n true 0) := by
  rw [floatNumeral_of_isDigit (Text.ofNat n) (ofNat_ne_nil n) (isDigit_of_mem_ofNat n),
    decimalValue_ofNat]

/-- A quotient of decimals is an expression for a rate, if the divisor is not
    zero. -/
theorem evaluate_float_quotient (dividend divisor : Nat) (hpos : 0 < divisor)
    (hlt : divisor < 2 ^ 53) :
    ∃ rate, evaluate floatArithmetic (Text.ofNat dividend ++ '/' :: Text.ofNat divisor)
      = .ok rate := by
  have hdigits : ∀ c, isDigit c = true → floatArithmetic.isNumeralChar c = true := by
    intro c h
    simp only [floatArithmetic, h, Bool.true_or]
  have hnumeral : ∀ n, floatArithmetic.numeral (Text.ofNat n) = .ok (Float.ofScientific n true 0) :=
    floatNumeral_ofNat
  -- The divisor is a natural number that a rate holds exactly, so it is not zero.
  have hdivide : floatArithmetic.divide (Float.ofScientific dividend true 0)
        (Float.ofScientific divisor true 0)
      = .ok (Float.ofScientific dividend true 0 / Float.ofScientific divisor true 0) := by
    simp only [floatArithmetic, ofScientific_ne_zero divisor hpos hlt, Bool.false_eq_true, if_false]
  refine ⟨Float.ofScientific dividend true 0 / Float.ofScientific divisor true 0, ?_⟩
  rw [evaluate_of_writes floatArithmetic isNumeralClass_float _ _
    (writes_quotient _ dividend divisor hdigits)]
  simp only [Tree.evaluate, hnumeral]
  exact hdivide

end Expression

end FileSignatures
