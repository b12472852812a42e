import FileSignatures.Proofs.Expression.CheckedIntegers

/-!
# Exactness of whole numbers in expressions

Words do not wrap around: an expression for a whole number has its mathematical value
or a fault, and a fault has a cause in the tree that the expression writes. Three causes
there are. A part of the tree has a value that is no word, a divisor is zero, or the
least word is divided by minus one for the sake of the remainder. In the last case the
remainder is zero, but the quotient that belongs to it is no word.

The causes are told by the exact values of the parts (`exactIntegers`). The cause of a
fault in an operand is in the whole tree as well (`hasCause_of_parts`), so what has to
be shown of an operation is only what it does to operands that have values.

## Main definitions

* `exactIntegers`: Integers without bounds.
* `Tree.parts`: A tree and all that it is made up of.
* `Tree.LeavesRange`, `Tree.DividesByZero`, `Tree.IsLeastRemainder`: What can go wrong.
* `Tree.HasCause`: A fault has a cause.
* `Tree.Accounts`: A checked value is exact, and a fault has a cause.

## Theorems

* `accounts_bind₂`: Operations on operands that account for themselves.
* `accounts_evaluate`: Trees account for their checked values.
* `evaluate_integer_exact`: Expressions have exact values unless there is a cause.
-/

namespace FileSignatures

/-- Integers without bounds, in which only a division by zero is a fault. Division
    truncates, and the remainder has the sign of the dividend. -/
def exactIntegers : Arithmetic Int where
  isNumeralChar := isDigit
  numeral digits := .ok (Text.decimalValue digits)
  negate a := .ok (-a)
  add a b := .ok (a + b)
  subtract a b := .ok (a - b)
  multiply a b := .ok (a * b)
  divide a b := if b = 0 then .error .divisionByZero else .ok (a.tdiv b)
  remainder a b := if b = 0 then .error .divisionByZero else .ok (a.tmod b)

namespace Expression

namespace Tree

/-- A tree and all the trees that it is made up of. -/
def parts : Tree → List Tree
  | numeral digits => [numeral digits]
  | signed sign operand => signed sign operand :: operand.parts
  | sum left operator right => sum left operator right :: (left.parts ++ right.parts)
  | product left operator right => product left operator right :: (left.parts ++ right.parts)

/-- Whether all numerals are words. -/
def HasWords (tree : Tree) : Prop :=
  tree.AllNumerals fun digits => Text.decimalValue digits < Literal.signedBound

/-- The exact value is no word. -/
def LeavesRange (tree : Tree) : Prop :=
  ∃ n ∈ (tree.evaluate exactIntegers).toOption, ¬ IsWord n

/-- The exact value of the divisor is zero. -/
def DividesByZero : Tree → Prop
  | product _ .divide right => right.evaluate exactIntegers = .ok 0
  | product _ .remainder right => right.evaluate exactIntegers = .ok 0
  | _ => False

/-- The least word is divided by minus one, for the remainder. -/
def IsLeastRemainder : Tree → Prop
  | product left .remainder right =>
    left.evaluate exactIntegers = .ok (-Literal.signedBound)
      ∧ right.evaluate exactIntegers = .ok (-1)
  | _ => False

instance (tree : Tree) : Decidable tree.HasWords :=
  inferInstanceAs (Decidable (tree.AllNumerals _))

instance (tree : Tree) : Decidable tree.LeavesRange :=
  inferInstanceAs (Decidable (∃ n ∈ (tree.evaluate exactIntegers).toOption, _))

instance : (tree : Tree) → Decidable tree.DividesByZero
  | product _ .divide right | product _ .remainder right =>
    inferInstanceAs (Decidable (right.evaluate exactIntegers = .ok 0))
  | product _ .multiply _ | numeral _ | signed _ _ | sum _ _ _ => isFalse id

instance : (tree : Tree) → Decidable tree.IsLeastRemainder
  | product _ .remainder _ => inferInstanceAs (Decidable (_ ∧ _))
  | product _ .multiply _ | product _ .divide _ | numeral _ | signed _ _ | sum _ _ _ => isFalse id

/-- Whether a fault has a cause in a tree. -/
def HasCause (tree : Tree) : ExpressionError → Prop
  | .overflow => ∃ part ∈ tree.parts, part.LeavesRange ∨ part.IsLeastRemainder
  | .divisionByZero => ∃ part ∈ tree.parts, part.DividesByZero
  | _ => False

/-- A checked value is exact and in range, and a fault has a cause. -/
def Accounts (tree : Tree) (checked exact : Except ExpressionError Int) : Prop :=
  match checked with
  | .ok n => exact = .ok n ∧ IsWord n
  | .error e => tree.HasCause e

theorem self_mem_parts (tree : Tree) : tree ∈ tree.parts := by
  cases tree <;> exact List.mem_cons_self

/-- The parts of operands are parts of the tree. -/
theorem parts_signed (sign : Sign) (operand : Tree) :
    operand.parts ⊆ (signed sign operand).parts :=
  List.subset_cons_self _ _

theorem parts_sum (left right : Tree) (operator : SumOperator) :
    left.parts ⊆ (sum left operator right).parts
      ∧ right.parts ⊆ (sum left operator right).parts :=
  ⟨List.subset_cons_of_subset _ (List.subset_append_left _ _),
    List.subset_cons_of_subset _ (List.subset_append_right _ _)⟩

theorem parts_product (left right : Tree) (operator : ProductOperator) :
    left.parts ⊆ (product left operator right).parts
      ∧ right.parts ⊆ (product left operator right).parts :=
  ⟨List.subset_cons_of_subset _ (List.subset_append_left _ _),
    List.subset_cons_of_subset _ (List.subset_append_right _ _)⟩

/-- What goes wrong in an operand goes wrong in the tree. -/
theorem hasCause_of_parts (operand tree : Tree) (e : ExpressionError)
    (hparts : operand.parts ⊆ tree.parts) (h : operand.HasCause e) : tree.HasCause e := by
  cases e with
  | overflow => exact h.imp fun part hpart => ⟨hparts hpart.1, hpart.2⟩
  | divisionByZero => exact h.imp fun part hpart => ⟨hparts hpart.1, hpart.2⟩
  | empty => exact h
  | unexpectedCharacter _ _ => exact h
  | unexpectedEnd => exact h
  | invalidNumeral _ => exact h

theorem accounts_of_parts (operand tree : Tree) (checked exact : Except ExpressionError Int)
    (hparts : operand.parts ⊆ tree.parts) (h : operand.Accounts checked exact) :
    tree.Accounts checked exact := by
  cases checked with
  | ok n => exact h
  | error e => exact hasCause_of_parts operand tree e hparts h

/-- The exact value of a tree, checked, is that value, or it is no word. -/
theorem accounts_checkedInteger (tree : Tree) (n : Int)
    (h : tree.evaluate exactIntegers = .ok n) : tree.Accounts (checkedInteger n) (.ok n) := by
  unfold checkedInteger
  by_cases hn : IsWord n
  · rw [if_pos hn]
    exact ⟨rfl, hn⟩
  · rw [if_neg hn]
    refine ⟨tree, self_mem_parts tree, .inl ⟨n, ?_, hn⟩⟩
    rw [h]
    rfl

/-- Operands that account for themselves, and an operation that does on their values. -/
theorem accounts_bind₂ (tree left right : Tree)
    (f g : Int → Int → Except ExpressionError Int)
    (hparts : left.parts ⊆ tree.parts ∧ right.parts ⊆ tree.parts)
    (hleft : left.Accounts (left.evaluate checkedIntegers) (left.evaluate exactIntegers))
    (hright : right.Accounts (right.evaluate checkedIntegers) (right.evaluate exactIntegers))
    (h : ∀ a b, IsWord a → left.evaluate exactIntegers = .ok a →
      right.evaluate exactIntegers = .ok b → tree.Accounts (f a b) (g a b)) :
    tree.Accounts
      (do let u ← left.evaluate checkedIntegers; let v ← right.evaluate checkedIntegers; f u v)
      (do let u ← left.evaluate exactIntegers; let v ← right.evaluate exactIntegers; g u v) := by
  -- The first fault from the left is that of the whole, and its cause is below.
  cases hu : left.evaluate checkedIntegers with
  | error e =>
      rw [hu] at hleft
      exact hasCause_of_parts left tree e hparts.1 hleft
  | ok u =>
      rw [hu] at hleft
      rcases hleft with ⟨hexact, hword⟩
      cases hv : right.evaluate checkedIntegers with
      | error e =>
          rw [hv] at hright
          exact hasCause_of_parts right tree e hparts.2 hright
      | ok v =>
          rw [hv] at hright
          have hoperation := h u v hword hexact hright.1
          rw [hexact, hright.1]
          exact hoperation

/-- A product accounts for itself. Apart from zero, only the least word and minus one are
    treated differently, and only by the remainder. -/
theorem accounts_product (left right : Tree) (operator : ProductOperator)
    (hleft : left.Accounts (left.evaluate checkedIntegers) (left.evaluate exactIntegers))
    (hright : right.Accounts (right.evaluate checkedIntegers) (right.evaluate exactIntegers)) :
    (product left operator right).Accounts
      ((product left operator right).evaluate checkedIntegers)
      ((product left operator right).evaluate exactIntegers) := by
  refine accounts_bind₂ _ left right _ _ (parts_product left right operator) hleft hright
    fun a b hword ha hb => ?_
  have hself := self_mem_parts (product left operator right)
  cases operator with
  | multiply =>
      refine accounts_checkedInteger _ (a * b) ?_
      simp only [evaluate, ha, hb]
      rfl
  | divide =>
      simp only [checkedIntegers, exactIntegers]
      by_cases hzero : b = 0
      · rw [if_pos hzero, if_pos hzero]
        exact ⟨_, hself, by rw [DividesByZero, hb, hzero]⟩
      · rw [if_neg hzero, if_neg hzero]
        refine accounts_checkedInteger _ (a.tdiv b) ?_
        simp only [evaluate, ha, hb]
        exact if_neg hzero
  | remainder =>
      simp only [checkedIntegers, exactIntegers]
      by_cases hzero : b = 0
      · rw [if_pos hzero, if_pos hzero]
        exact ⟨_, hself, by rw [DividesByZero, hb, hzero]⟩
      · -- Any other remainder is a word, so it is not checked itself.
        rw [if_neg hzero, if_neg hzero]
        by_cases hleast : a = -Literal.signedBound ∧ b = -1
        · rw [if_pos hleast]
          exact ⟨_, hself, .inr ⟨by rw [ha, hleast.1], by rw [hb, hleast.2]⟩⟩
        · rw [if_neg hleast]
          exact ⟨rfl, isWord_tmod a b hword⟩

theorem accounts_sum (left right : Tree) (operator : SumOperator)
    (hleft : left.Accounts (left.evaluate checkedIntegers) (left.evaluate exactIntegers))
    (hright : right.Accounts (right.evaluate checkedIntegers) (right.evaluate exactIntegers)) :
    (sum left operator right).Accounts ((sum left operator right).evaluate checkedIntegers)
      ((sum left operator right).evaluate exactIntegers) := by
  refine accounts_bind₂ _ left right _ _ (parts_sum left right operator) hleft hright
    fun a b _ ha hb => ?_
  cases operator with
  | add =>
      refine accounts_checkedInteger _ (a + b) ?_
      simp only [evaluate, ha, hb]
      rfl
  | subtract =>
      refine accounts_checkedInteger _ (a - b) ?_
      simp only [evaluate, ha, hb]
      rfl

theorem accounts_signed (sign : Sign) (operand : Tree)
    (h : operand.Accounts (operand.evaluate checkedIntegers) (operand.evaluate exactIntegers)) :
    (signed sign operand).Accounts ((signed sign operand).evaluate checkedIntegers)
      ((signed sign operand).evaluate exactIntegers) := by
  have hparts := parts_signed sign operand
  cases sign with
  | plus => exact accounts_of_parts operand _ _ _ hparts h
  | minus =>
      -- A fault inside has its cause inside; otherwise only the negation can overflow.
      cases hvalue : operand.evaluate checkedIntegers with
      | error e =>
          rw [hvalue] at h
          simp only [evaluate, hvalue]
          exact hasCause_of_parts operand _ e hparts h
      | ok v =>
          rw [hvalue] at h
          have hexact : (signed .minus operand).evaluate exactIntegers = .ok (-v) := by
            simp only [evaluate, h.1]
            rfl
          rw [hexact]
          simp only [evaluate, hvalue]
          exact accounts_checkedInteger _ (-v) hexact

/-- Trees account for their checked values. -/
theorem accounts_evaluate (tree : Tree) (h : tree.HasWords) :
    tree.Accounts (tree.evaluate checkedIntegers) (tree.evaluate exactIntegers) := by
  induction tree with
  | numeral digits =>
      -- Numerals are words by assumption, so they have their exact value.
      have hlt : (Text.decimalValue digits : Int) < Literal.signedBound := h
      have hchecked : (numeral digits).evaluate checkedIntegers
          = .ok (Text.decimalValue digits : Int) := by
        simp only [evaluate, checkedIntegers, if_pos hlt]
      have hlow : -Literal.signedBound ≤ (Text.decimalValue digits : Int) := by
        unfold Literal.signedBound
        omega
      rw [hchecked]
      exact ⟨rfl, hlow, hlt⟩
  | signed sign operand ih => exact accounts_signed sign operand (ih h)
  | sum left operator right ihleft ihright =>
      exact accounts_sum left right operator (ihleft h.1) (ihright h.2)
  | product left operator right ihleft ihright =>
      exact accounts_product left right operator (ihleft h.1) (ihright h.2)

end Tree

/-- An expression with numerals that are words overflows only if the exact value of some
    part of its tree is no word, or if the remainder of the least word and minus one is
    taken; it divides by zero only if the exact value of some divisor is zero; and if
    nothing of this is the case, it has the exact value of its tree. -/
theorem evaluate_integer_exact (text : Text) (tree : Tree) (h : Writes isDigit text tree)
    (hwords : tree.HasWords) :
    (Evaluator.arithmetic.integer text = .error .overflow →
      ∃ part ∈ tree.parts, part.LeavesRange ∨ part.IsLeastRemainder)
    ∧ (Evaluator.arithmetic.integer text = .error .divisionByZero →
      ∃ part ∈ tree.parts, part.DividesByZero)
    ∧ ((∀ part ∈ tree.parts,
        ¬ part.LeavesRange ∧ ¬ part.IsLeastRemainder ∧ ¬ part.DividesByZero) →
      ∃ v, Evaluator.arithmetic.integer text = .ok v
        ∧ tree.evaluate exactIntegers = .ok v.toInt) := by
  have hchecked := map_evaluate_of_writes text tree h
  have haccounts := Tree.accounts_evaluate tree hwords
  rw [← hchecked] at haccounts
  -- Every fault of the evaluator is accounted for by some part of the tree.
  have hcause : ∀ e, Evaluator.arithmetic.integer text = .error e → tree.HasCause e := by
    intro e herror
    rw [herror] at haccounts
    exact haccounts
  refine ⟨hcause .overflow, hcause .divisionByZero, fun hnone => ?_⟩
  cases hresult : Evaluator.arithmetic.integer text with
  | ok v =>
      rw [hresult] at haccounts
      exact ⟨v, rfl, haccounts.1⟩
  | error e =>
      have hcaused := hcause e hresult
      cases e with
      | overflow =>
          rcases hcaused with ⟨part, hmem, hrange | hleast⟩
          · exact absurd hrange (hnone part hmem).1
          · exact absurd hleast (hnone part hmem).2.1
      | divisionByZero =>
          rcases hcaused with ⟨part, hmem, hzero⟩
          exact absurd hzero (hnone part hmem).2.2
      | empty => exact hcaused.elim
      | unexpectedCharacter _ _ => exact hcaused.elim
      | unexpectedEnd => exact hcaused.elim
      | invalidNumeral _ => exact hcaused.elim

/-- A remainder has the sign of the dividend, a sum can leave the range, and zero can
    be a divisor. -/
theorem evaluate_integer_exact_causes :
    (∃ v, Evaluator.arithmetic.integer "7%-2".toList = .ok v ∧ v.toInt = 1)
    ∧ (Tree.sum (.numeral "9223372036854775807".toList) .add (.numeral "1".toList)).HasCause
      .overflow
    ∧ (Tree.product (.numeral "1".toList) .divide (.numeral "0".toList)).HasCause
      .divisionByZero := by
  have hwrites := fun text tree => (writes_iff isDigit isNumeralClass_isDigit 0 text tree).2
  have hseven := derives_digits "7".toList (by decide) (by decide)
  have htwo := derives_digits "2".toList (by decide) (by decide)
  have hone := derives_digits "1".toList (by decide) (by decide)
  have hzero := derives_digits "0".toList (by decide) (by decide)
  have hgreatest := derives_digits "9223372036854775807".toList (by decide) (by decide)
  -- Each of the three expressions is derived from the grammar.
  have hremainder := evaluate_integer_exact "7%-2".toList _
    (hwrites _ _ (.sum _ _ (.moreProduct _ _ _ _ .remainder (.product _ _ hseven)
      (.sign .minus _ _ htwo)))) (by decide)
  have hsum := evaluate_integer_exact "9223372036854775807+1".toList _
    (hwrites _ _ (.moreSum _ _ _ _ .add (.sum _ _ (.product _ _ hgreatest))
      (.product _ _ hone))) (by decide)
  have hquotient := evaluate_integer_exact "1/0".toList _
    (hwrites _ _ (.sum _ _ (.moreProduct _ _ _ _ .divide (.product _ _ hone) hzero))) (by decide)
  refine ⟨?_, hsum.1 rfl, hquotient.2.1 rfl⟩
  rcases hremainder.2.2 (by decide) with ⟨v, hvalue, hexact⟩
  exact ⟨v, hvalue, Except.ok.inj hexact.symm⟩

/-- The remainder of the least word and minus one. -/
def leastRemainder : Tree :=
  .product
    (.sum (.signed .minus (.numeral "9223372036854775807".toList)) .subtract
      (.numeral "1".toList))
    .remainder (.signed .minus (.numeral "1".toList))

/-- The remainder of the least word and minus one is zero, which is a word as both
    operands are, and overflows nevertheless. -/
theorem leastRemainder_overflows :
    Writes isDigit "(-9223372036854775807-1)%-1".toList leastRemainder
    ∧ leastRemainder.HasWords
    ∧ (∀ part ∈ leastRemainder.parts, ¬ part.LeavesRange ∧ ¬ part.DividesByZero)
    ∧ leastRemainder.evaluate exactIntegers = .ok 0
    ∧ Evaluator.arithmetic.integer "(-9223372036854775807-1)%-1".toList
      = .error .overflow := by
  have hone := derives_digits "1".toList (by decide) (by decide)
  have hgreatest := derives_digits "9223372036854775807".toList (by decide) (by decide)
  -- The least word has no numeral, so it is written as a difference.
  have hleast := derives_parenthesize isDigit _ _ (.moreSum _ _ _ _ .subtract
    (.sum _ _ (.product _ _ (.sign .minus _ _ hgreatest))) (.product _ _ hone))
  refine ⟨?_, by decide, by decide, rfl, rfl⟩
  exact (writes_iff isDigit isNumeralClass_isDigit 0 _ _).2 (.sum _ _
    (.moreProduct _ _ _ _ .remainder (.product _ _ hleast) (.sign .minus _ _ hone)))

end Expression

end FileSignatures
