import FileSignatures.Expression.Evaluator
import FileSignatures.Proofs.Expression.Evaluation
import FileSignatures.Proofs.Number.Digits

/-!
# Whole numbers in expressions

An expression for a whole number is evaluated in signed words of 64 bits. What its
value is can be said without words, by integers that must not leave a range:
`checkedIntegers` adds, multiplies and divides as integers do, and whatever would leave
the range is a fault. A remainder has the sign of the dividend. It never leaves the
range itself, but the one quotient that does has no remainder either.

Both domains agree on every tree with decimal numerals (`map_evaluate`), and
evaluation follows the grammar in every domain, so an expression has a value exactly if
it writes a tree, and then it is the value of the tree.

## Main definitions

* `IsWord`: An integer in the range of signed words.
* `checkedIntegers`: Integers whose operations must not leave the range.

## Theorems

* `isWord_tdiv_iff`: Only one quotient leaves the range.
* `map_checkedWord`: Words are checked integers.
* `map_evaluate`: Trees have the same values in words and in checked integers.
* `evaluate_integer_iff`: The value of an expression is that of the tree it writes.
-/

namespace FileSignatures

/-- An integer in the range of signed words. -/
def IsWord (n : Int) : Prop :=
  -Literal.signedBound ≤ n ∧ n < Literal.signedBound

instance (n : Int) : Decidable (IsWord n) :=
  inferInstanceAs (Decidable (_ ∧ _))

/-- An integer, if it is in range. -/
def checkedInteger (n : Int) : Except ExpressionError Int :=
  if IsWord n then .ok n else .error .overflow

/-- Integers whose operations must not leave the range of signed words. Division
    truncates, and the remainder has the sign of the dividend. -/
def checkedIntegers : Arithmetic Int where
  isNumeralChar := isDigit
  numeral digits :=
    if Text.decimalValue digits < Literal.signedBound then .ok (Text.decimalValue digits)
    else .error (.invalidNumeral digits)
  negate a := checkedInteger (-a)
  add a b := checkedInteger (a + b)
  subtract a b := checkedInteger (a - b)
  multiply a b := checkedInteger (a * b)
  divide a b := if b = 0 then .error .divisionByZero else checkedInteger (a.tdiv b)
  remainder a b :=
    if b = 0 then .error .divisionByZero
    else if a = -Literal.signedBound ∧ b = -1 then .error .overflow
    else .ok (a.tmod b)

theorem isWord_toInt (a : Int64) : IsWord a.toInt :=
  ⟨a.le_toInt, a.toInt_lt⟩

/-- A quotient is in range, except that of the least word and minus one. -/
theorem isWord_tdiv_iff (a b : Int) (ha : IsWord a) (hb : b ≠ 0) :
    IsWord (a.tdiv b) ↔ ¬ (a = -Literal.signedBound ∧ b = -1) := by
  unfold IsWord Literal.signedBound at *
  by_cases hone : b.natAbs = 1
  · have hcases : b = 1 ∨ b = -1 := by omega
    rcases hcases with rfl | rfl
    · rw [Int.tdiv_one]
      omega
    · rw [Int.tdiv_neg, Int.tdiv_one]
      omega
  · -- Any other divisor at least halves the dividend.
    have habs : (a.tdiv b).natAbs = a.natAbs / b.natAbs := Int.natAbs_tdiv a b
    have hhalf : a.natAbs / b.natAbs ≤ a.natAbs / 2 :=
      Nat.div_le_div_left (by omega) (by decide)
    omega

theorem isWord_tmod (a b : Int) (ha : IsWord a) : IsWord (a.tmod b) := by
  unfold IsWord Literal.signedBound at *
  have habs : (a.tmod b).natAbs = a.natAbs % b.natAbs := Int.natAbs_tmod a b
  have hle : a.natAbs % b.natAbs ≤ a.natAbs := Nat.mod_le _ _
  -- It is not positive where the dividend is not, which matters for the least word only.
  have hsign : a ≤ 0 → a.tmod b ≤ 0 := by
    intro h
    have hneg := Int.tmod_nonneg b (Int.neg_nonneg_of_nonpos h)
    rw [Int.neg_tmod] at hneg
    omega
  omega

namespace Expression

theorem checkedWord_of_isWord (n : Int) (h : IsWord n) : checkedWord n = .ok (Int64.ofInt n) := by
  have hword : Literal.toSigned? n = some (Int64.ofInt n) := if_pos h
  unfold checkedWord
  rw [hword]

theorem checkedWord_of_not_isWord (n : Int) (h : ¬ IsWord n) :
    checkedWord n = .error .overflow := by
  have hword : Literal.toSigned? n = none := if_neg h
  unfold checkedWord
  rw [hword]

/-- Words are checked integers. -/
theorem map_checkedWord (n : Int) : (checkedWord n).map Int64.toInt = checkedInteger n := by
  unfold checkedInteger
  by_cases hn : IsWord n
  · rw [checkedWord_of_isWord n hn, if_pos hn]
    exact congrArg Except.ok (Int64.toInt_ofInt_of_le hn.1 hn.2)
  · rw [checkedWord_of_not_isWord n hn, if_neg hn]
    rfl

theorem toInt_eq_zero_iff (b : Int64) : b.toInt = 0 ↔ b = 0 := by
  rw [← Int64.toInt_inj, Int64.toInt_zero]

theorem map_divide (a b : Int64) : (integerArithmetic.divide a b).map Int64.toInt
    = checkedIntegers.divide a.toInt b.toInt := by
  simp only [integerArithmetic, checkedIntegers, toInt_eq_zero_iff]
  by_cases hb : b = 0
  · rw [if_pos hb, if_pos hb]
    rfl
  · rw [if_neg hb, if_neg hb]
    exact map_checkedWord _

theorem map_remainder (a b : Int64) : (integerArithmetic.remainder a b).map Int64.toInt
    = checkedIntegers.remainder a.toInt b.toInt := by
  simp only [integerArithmetic, checkedIntegers, toInt_eq_zero_iff]
  by_cases hb : b = 0
  · rw [if_pos hb, if_pos hb]
    rfl
  · rw [if_neg hb, if_neg hb]
    have hquotient := isWord_tdiv_iff a.toInt b.toInt (isWord_toInt a)
      (fun hzero => hb ((toInt_eq_zero_iff b).1 hzero))
    by_cases hleast : a.toInt = -Literal.signedBound ∧ b.toInt = -1
    · -- The quotient is checked before the remainder is taken.
      rw [checkedWord_of_not_isWord _ fun h => hquotient.1 h hleast, if_pos hleast]
      rfl
    · have hremainder := map_checkedWord (a.toInt.tmod b.toInt)
      unfold checkedInteger at hremainder
      rw [if_pos (isWord_tmod _ _ (isWord_toInt a))] at hremainder
      rw [checkedWord_of_isWord _ (hquotient.2 hleast), if_neg hleast]
      exact hremainder

theorem map_numeral (digits : Text) (hne : digits ≠ []) (h : ∀ c ∈ digits, isDigit c = true) :
    (integerArithmetic.numeral digits).map Int64.toInt = checkedIntegers.numeral digits := by
  have hvalue := digitsValue?_of_isDigit digits hne h
  have hword : (digitsValue? 10 digits).bind (fun n => Literal.toSigned? n)
      = Literal.toSigned? (Text.decimalValue digits) := by
    rw [hvalue, Option.bind_some]
  have hlow : -Literal.signedBound ≤ (Text.decimalValue digits : Int) := by
    unfold Literal.signedBound
    omega
  -- The numeral has no sign, so only the upper bound can be exceeded.
  by_cases hlt : (Text.decimalValue digits : Int) < Literal.signedBound
  · have hfound : Literal.toSigned? (Text.decimalValue digits)
        = some (Int64.ofInt (Text.decimalValue digits)) := if_pos ⟨hlow, hlt⟩
    have hchecked : checkedIntegers.numeral digits = .ok (Text.decimalValue digits : Int) := by
      simp only [checkedIntegers, if_pos hlt]
    have hnumeral : integerArithmetic.numeral digits
        = .ok (Int64.ofInt (Text.decimalValue digits)) := by
      simp only [integerArithmetic, hword.trans hfound]
    rw [hchecked, hnumeral]
    exact congrArg Except.ok (Int64.toInt_ofInt_of_le hlow hlt)
  · have hmissing : Literal.toSigned? (Text.decimalValue digits) = none :=
      if_neg fun hrange => hlt hrange.2
    have hchecked : checkedIntegers.numeral digits = .error (.invalidNumeral digits) := by
      simp only [checkedIntegers, if_neg hlt]
    have hnumeral : integerArithmetic.numeral digits = .error (.invalidNumeral digits) := by
      simp only [integerArithmetic, hword.trans hmissing]
    rw [hchecked, hnumeral]
    rfl

/-- An operation on two operands that agree, after which the results agree. -/
theorem map_bind₂ (x y : Except ExpressionError Int64)
    (f : Int64 → Int64 → Except ExpressionError Int64)
    (g : Int → Int → Except ExpressionError Int)
    (h : ∀ u v, (f u v).map Int64.toInt = g u.toInt v.toInt) :
    (do let u ← x; let v ← y; f u v).map Int64.toInt
      = (do let u ← x.map Int64.toInt; let v ← y.map Int64.toInt; g u v) := by
  cases x with
  | error e => rfl
  | ok u =>
      cases y with
      | error e => rfl
      | ok v => exact h u v

/-- Trees have the same values in words and in checked integers. -/
theorem map_evaluate (tree : Tree) (h : tree.HasNumerals isDigit) :
    (tree.evaluate integerArithmetic).map Int64.toInt = tree.evaluate checkedIntegers := by
  induction tree with
  | numeral digits => exact map_numeral digits h.1 h.2
  | signed sign operand ih =>
      have hoperand := ih h
      cases sign with
      | plus => exact hoperand
      | minus =>
          -- Only the minus sign is an operation that can overflow.
          simp only [Tree.evaluate]
          rw [← hoperand]
          cases operand.evaluate integerArithmetic with
          | error e => rfl
          | ok v => exact map_checkedWord _
  | sum left operator right ihleft ihright =>
      simp only [Tree.evaluate]
      rw [← ihleft h.1, ← ihright h.2]
      cases operator with
      | add => exact map_bind₂ _ _ _ _ fun u v => map_checkedWord _
      | subtract => exact map_bind₂ _ _ _ _ fun u v => map_checkedWord _
  | product left operator right ihleft ihright =>
      simp only [Tree.evaluate]
      rw [← ihleft h.1, ← ihright h.2]
      cases operator with
      | multiply => exact map_bind₂ _ _ _ _ fun u v => map_checkedWord _
      | divide => exact map_bind₂ _ _ _ _ map_divide
      | remainder => exact map_bind₂ _ _ _ _ map_remainder

/-- Decimal digits are apart from blanks and from the symbols of expressions. -/
theorem isNumeralClass_isDigit : IsNumeralClass isDigit where
  not_blank c h := isBlank_of_isGraphic c (isGraphic_of_isDigit c h)
  not_symbol := eq_false_of_symbols isDigit (by decide)

/-- Decimal digits are a numeral, which can stand everywhere. -/
theorem derives_digits (digits : Text) (hne : digits ≠ []) (h : digits.all isDigit = true) :
    Derives isDigit .signed [.numeral digits] (.numeral digits) :=
  derives_numeral isDigit digits hne (List.all_eq_true.1 h)

/-- An expression that writes a tree has the value of the tree in checked integers, or
    its fault. -/
theorem map_evaluate_of_writes (text : Text) (tree : Tree) (h : Writes isDigit text tree) :
    (Evaluator.arithmetic.integer text).map Int64.toInt = tree.evaluate checkedIntegers := by
  rcases h with ⟨contents, hspells, hderives⟩
  have hvalue := evaluate_of_writes integerArithmetic isNumeralClass_isDigit text tree
    ⟨contents, hspells, hderives⟩
  rw [← map_evaluate tree (hasNumerals_of_derives isDigit .sum contents tree hderives), ← hvalue]
  rfl

/-- An expression has a value exactly if it writes a tree of this value. Whatever
    writes a tree is evaluated as the tree is, and every tree with decimal numerals is
    written by some expression. -/
theorem evaluate_integer_iff :
    (∀ text v, Evaluator.arithmetic.integer text = .ok v ↔
      ∃ tree, Writes isDigit text tree ∧ tree.evaluate checkedIntegers = .ok v.toInt)
    ∧ (∀ text tree, Writes isDigit text tree →
      (Evaluator.arithmetic.integer text).map Int64.toInt = tree.evaluate checkedIntegers)
    ∧ ∀ tree : Tree, tree.HasNumerals isDigit → Writes isDigit tree.text tree := by
  refine ⟨fun text v => ⟨fun h => ?_, ?_⟩, map_evaluate_of_writes, writes_text isDigit⟩
  · rcases exists_writes_of_evaluate integerArithmetic isNumeralClass_isDigit text v h with
      ⟨tree, hwrites, -⟩
    refine ⟨tree, hwrites, ?_⟩
    rw [← map_evaluate_of_writes text tree hwrites, h]
    rfl
  · rintro ⟨tree, hwrites, hvalue⟩
    rw [← map_evaluate_of_writes text tree hwrites] at hvalue
    -- A checked integer that is a value comes from a word, and that from one word only.
    cases hresult : Evaluator.arithmetic.integer text with
    | error e =>
        rw [hresult] at hvalue
        exact absurd hvalue (by simp only [Except.map, reduceCtorEq, not_false_eq_true])
    | ok w =>
        rw [hresult] at hvalue
        exact congrArg Except.ok (Int64.toInt_inj.1 (Except.ok.inj hvalue))

/-- Operators associate to the left, wherever blanks stand, unless parentheses say
    something else. -/
theorem evaluate_integer_differences :
    Evaluator.arithmetic.integer "7 -2 - 1 ".toList = .ok 4
    ∧ Evaluator.arithmetic.integer "7-(2-1)".toList = .ok 6 := by
  have hseven := Derives.product _ _ (derives_digits "7".toList (by decide) (by decide))
  have htwo := Derives.product _ _ (derives_digits "2".toList (by decide) (by decide))
  have hone := Derives.product _ _ (derives_digits "1".toList (by decide) (by decide))
  -- The same three numerals, joined from the left or in parentheses.
  have hleft := Derives.moreSum _ _ _ _ .subtract
    (.moreSum _ _ _ _ .subtract (.sum _ _ hseven) htwo) hone
  have hright := Derives.moreSum _ _ _ _ .subtract (.sum _ _ hseven)
    (.product _ _ (derives_parenthesize _ _ _
      (.moreSum _ _ _ _ .subtract (.sum _ _ htwo) hone)))
  have hwrites := fun text tree => (writes_iff isDigit isNumeralClass_isDigit 0 text tree).2
  exact ⟨(evaluate_integer_iff.1 _ 4).2 ⟨_, hwrites "7 -2 - 1 ".toList _ hleft, rfl⟩,
    (evaluate_integer_iff.1 _ 6).2 ⟨_, hwrites "7-(2-1)".toList _ hright, rfl⟩⟩

end Expression

end FileSignatures
