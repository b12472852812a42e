import FileSignatures.Proofs.Expression.Grammar

/-!
# Evaluation follows the grammar

The evaluator goes through the tokens once and knows no trees. This module says that
its result is the value of the tree that the text writes, for any number domain and
with all faults, and that there is a value only where there is such a tree.

For the first half (`evaluateOperand_of_derives`) a derivation is followed: derived
tokens with others behind them are evaluated as their tree is, and then the evaluator
goes on behind them. What it may meet there depends on the part of the grammar. A sum
is complete only if no operator of a product follows, a product only if nothing else
is pending at its level, and a signed operand always.

For the second half the tokens are followed, and the invariant says what the pending
operands have been read from (`LevelRead`, `OuterRead`): each of them is the value of a
derivation, which the operator or the parenthesis behind it ends. As tokens are read,
derivations are closed in the order of the operators (`values_of_run`).

## Main definitions

* `Expression.Values`: Tokens are derived with a value.
* `Expression.LevelRead`: What is pending at a level has been read from tokens.
* `Expression.OuterRead`: The levels that are open have been read from tokens.

## Theorems

* `evaluateOperator_eq_bind`: The pending product comes first.
* `evaluateOperand_of_derives`: Derived tokens are evaluated as their tree.
* `values_closeProduct`, `values_applySum`: Operands are closed to derivations.
* `values_of_run`: A value is that of a derivation of all tokens.
* `evaluate_of_writes`: A text has the value of the tree that it writes.
* `exists_writes_of_evaluate`: A text with a value writes a tree of that value.
-/

namespace FileSignatures

namespace Expression

variable {α : Type} (A : Arithmetic α)

/-- The first token is no operator of a product. -/
def NotProductNext (tokens : List Token) : Prop :=
  ∀ token ∈ tokens.head?, ProductOperator.ofToken? token = none

theorem ofToken?_of_symbol (token : Token) (c : Char) (h : token.content = .symbol c)
    (hc : c ∉ ['*', '/', '%']) : ProductOperator.ofToken? token = none := by
  unfold ProductOperator.ofToken?
  rw [h]
  have hne : ∀ d ∈ ['*', '/', '%'], TokenContent.symbol c ≠ .symbol d := by
    intro d hd heq
    rw [TokenContent.symbol.inj heq] at hc
    exact hc hd
  split
  · exact absurd ‹_› (hne '*' (by decide))
  · exact absurd ‹_› (hne '/' (by decide))
  · exact absurd ‹_› (hne '%' (by decide))
  · rfl

theorem notProductNext_cons (token : Token) (rest : List Token) (c : Char)
    (h : token.content = .symbol c) (hc : c ∉ ['*', '/', '%']) :
    NotProductNext (token :: rest) := by
  intro other hother
  rw [List.head?_cons, Option.mem_some_iff] at hother
  rw [← hother]
  exact ofToken?_of_symbol token c h hc

/-- A token that is an operator of a product consists of its symbol. -/
theorem content_of_productOperator (token : Token) (operator : ProductOperator)
    (h : ProductOperator.ofToken? token = some operator) :
    token.content = .symbol operator.symbol := by
  unfold ProductOperator.ofToken? at h
  split at h
  all_goals first
    | exact absurd h (by simp only [reduceCtorEq, not_false_eq_true])
    | (rename_i hcontent; rw [← Option.some.inj h]; exact hcontent)

theorem content_of_sumOperator (token : Token) (operator : SumOperator)
    (h : SumOperator.ofToken? token = some operator) :
    token.content = .symbol operator.symbol := by
  unfold SumOperator.ofToken? at h
  split at h
  all_goals first
    | exact absurd h (by simp only [reduceCtorEq, not_false_eq_true])
    | (rename_i hcontent; rw [← Option.some.inj h]; exact hcontent)

theorem symbol_not_product (operator : SumOperator) : operator.symbol ∉ ['*', '/', '%'] := by
  cases operator <;> decide

section Steps

variable (outer : List (Level α)) (token : Token) (rest : List Token)

/-- After an operand the pending signs and the pending product come first, whatever
    follows. -/
theorem evaluateOperator_eq_bind (v : α) (level : Level α) (tokens : List Token) :
    evaluateOperator A v level outer tokens
      = (level.closeProduct A v >>= fun w =>
          evaluateOperator A w ⟨level.sum, none, 0⟩ outer tokens) := by
  cases tokens with
  | nil =>
      unfold evaluateOperator
      cases level.closeProduct A v <;> rfl
  | cons token rest =>
      -- What is pending is applied first in every case, and nothing is pending afterwards.
      rw [evaluateOperator.eq_def]
      cases hclose : level.closeProduct A v with
      | error e => rfl
      | ok w =>
          simp only [bind, Except.bind]
          rw [evaluateOperator.eq_def]
          rfl

/-- Then comes the pending sum, unless an operator of a product follows. -/
theorem evaluateOperator_sum_eq_bind (w : α) (sum : Option (α × SumOperator))
    (tokens : List Token) (h : NotProductNext tokens) :
    evaluateOperator A w ⟨sum, none, 0⟩ outer tokens
      = (applySum A sum w >>= fun u => evaluateOperator A u .start outer tokens) := by
  cases tokens with
  | nil =>
      unfold evaluateOperator
      simp only [Level.closeProduct, applyNegations, applyProduct]
      cases applySum A sum w with
      | error e => rfl
      | ok u => cases outer <;> rfl
  | cons token rest =>
      have htoken := h token rfl
      -- The same token is looked at twice, the second time with nothing pending.
      rw [evaluateOperator.eq_def]
      simp only [Level.closeProduct, applyNegations, applyProduct, htoken]
      cases applySum A sum w with
      | error e => rfl
      | ok u =>
          simp only [bind, Except.bind]
          rw [evaluateOperator.eq_def]
          simp only [Level.closeProduct, Level.start, applyNegations, applyProduct, applySum,
            htoken]

/-- An operator of a product takes what is before it as its left operand. -/
theorem evaluateOperator_product (w : α) (sum : Option (α × SumOperator))
    (operator : ProductOperator) (h : token.content = .symbol operator.symbol) :
    evaluateOperator A w ⟨sum, none, 0⟩ outer (token :: rest)
      = evaluateOperand A ⟨sum, some (w, operator), 0⟩ outer rest := by
  have htoken : ProductOperator.ofToken? token = some operator := by
    unfold ProductOperator.ofToken?
    rw [h]
    cases operator <;> rfl
  rw [evaluateOperator.eq_def]
  simp only [Level.closeProduct, applyNegations, applyProduct, htoken]

theorem evaluateOperator_sum (u : α) (operator : SumOperator)
    (h : token.content = .symbol operator.symbol) :
    evaluateOperator A u .start outer (token :: rest)
      = evaluateOperand A ⟨some (u, operator), none, 0⟩ outer rest := by
  have hproduct := ofToken?_of_symbol token _ h (symbol_not_product operator)
  have hsum : SumOperator.ofToken? token = some operator := by
    unfold SumOperator.ofToken?
    rw [h]
    cases operator <;> rfl
  rw [evaluateOperator.eq_def]
  simp only [Level.closeProduct, Level.start, applyNegations, applyProduct, applySum, hproduct,
    hsum]

/-- A closing parenthesis makes an operand of what is before it. -/
theorem evaluateOperator_closing (u : α) (level : Level α) (h : token.content = .symbol ')') :
    evaluateOperator A u .start (level :: outer) (token :: rest)
      = evaluateOperator A u level outer rest := by
  have hproduct := ofToken?_of_symbol token ')' h (by decide)
  have hsum : SumOperator.ofToken? token = none := by
    unfold SumOperator.ofToken?
    rw [h]
    rfl
  rw [evaluateOperator.eq_def]
  simp only [Level.closeProduct, Level.start, applyNegations, applyProduct, applySum, hproduct,
    hsum, h]

end Steps

/-- At which levels, and before which tokens, a part of the grammar is complete when its
    tokens have been read. -/
def Part.IsComplete (part : Part) (level : Level α) (rest : List Token) : Prop :=
  match part with
  | .sum => level = .start ∧ NotProductNext rest
  | .product => level.product = none ∧ level.negations = 0
  | .signed | .atom => True

/-- Derived tokens are evaluated as their tree is, and what follows them is evaluated
    with that value. -/
theorem evaluateOperand_of_derives (part : Part) (contents : List TokenContent) (tree : Tree)
    (h : Derives A.isNumeralChar part contents tree) (level : Level α) (outer : List (Level α))
    (tokens rest : List Token) (htokens : tokens.map Token.content = contents)
    (hcomplete : part.IsComplete level rest) :
    evaluateOperand A level outer (tokens ++ rest)
      = (tree.evaluate A >>= fun v => evaluateOperator A v level outer rest) := by
  induction h generalizing level outer tokens rest with
  | sum contents tree _ ih =>
      rcases hcomplete with ⟨rfl, hnext⟩
      exact ih .start outer tokens rest htokens ⟨rfl, rfl⟩
  | product contents tree _ ih => exact ih level outer tokens rest htokens trivial
  | unsigned contents tree _ ih => exact ih level outer tokens rest htokens trivial
  | numeral digits _ _ =>
      rcases List.map_eq_singleton_iff.1 htokens with ⟨token, rfl, htoken⟩
      rw [List.singleton_append, evaluateOperand.eq_def]
      simp only [htoken, Tree.evaluate]
      cases A.numeral digits <;> rfl
  | parenthesized contents tree _ ih =>
      -- The parentheses open a level of its own, which ends behind the sum.
      rcases List.map_eq_append_iff.1 htokens with ⟨before, closing, rfl, hbefore, hclosing⟩
      rcases List.map_eq_cons_iff.1 hbefore with ⟨opening, inside, rfl, hopening, hinside⟩
      rcases List.map_eq_singleton_iff.1 hclosing with ⟨token, rfl, htoken⟩
      have hnext := notProductNext_cons token rest ')' htoken (by decide)
      have hsum := ih .start (level :: outer) inside (token :: rest) hinside ⟨rfl, hnext⟩
      simp only [evaluateOperator_closing A outer token rest _ level htoken] at hsum
      rw [List.append_assoc, List.singleton_append, List.cons_append, evaluateOperand.eq_def]
      simp only [hopening]
      exact hsum
  | sign sign contents operand _ ih =>
      rcases List.map_eq_cons_iff.1 htokens with ⟨token, more, rfl, htoken, hmore⟩
      rw [List.cons_append, evaluateOperand.eq_def]
      cases sign with
      | plus =>
          simp only [htoken, Sign.symbol, Tree.evaluate]
          exact ih level outer more rest hmore trivial
      | minus =>
          simp only [htoken, Sign.symbol, Tree.evaluate]
          rw [ih _ outer more rest hmore trivial]
          cases operand.evaluate A with
          | error e => rfl
          | ok v =>
              -- The sign that was counted is applied as soon as the operand is known.
              simp only [bind, Except.bind]
              rw [evaluateOperator_eq_bind]
              simp only [Level.closeProduct, applyNegations]
              cases A.negate v with
              | error e => rfl
              | ok w => exact (evaluateOperator_eq_bind A outer w level rest).symm
  | moreProduct before contents left right operator _ _ ihleft ihright =>
      rcases List.map_eq_append_iff.1 htokens with ⟨first, others, rfl, hfirst, hothers⟩
      rcases List.map_eq_cons_iff.1 hothers with ⟨token, second, rfl, htoken, hsecond⟩
      rcases level with ⟨sum, product, negations⟩
      rcases hcomplete with ⟨hproduct, hnegations⟩
      simp only at hproduct hnegations
      subst hproduct hnegations
      rw [List.append_assoc, List.cons_append,
        ihleft ⟨sum, none, 0⟩ outer first _ hfirst ⟨rfl, rfl⟩]
      simp only [Tree.evaluate]
      cases left.evaluate A with
      | error e => rfl
      | ok u =>
          simp only [bind, Except.bind]
          rw [evaluateOperator_product A outer token _ u sum operator htoken,
            ihright ⟨sum, some (u, operator), 0⟩ outer second rest hsecond trivial]
          cases right.evaluate A with
          | error e => rfl
          | ok v =>
              simp only [bind, Except.bind]
              rw [evaluateOperator_eq_bind]
              cases operator <;> rfl
  | moreSum before contents left right operator _ _ ihleft ihright =>
      rcases List.map_eq_append_iff.1 htokens with ⟨first, others, rfl, hfirst, hothers⟩
      rcases List.map_eq_cons_iff.1 hothers with ⟨token, second, rfl, htoken, hsecond⟩
      rcases hcomplete with ⟨rfl, hnext⟩
      have hoperator := notProductNext_cons token (second ++ rest) _ htoken
        (symbol_not_product operator)
      rw [List.append_assoc, List.cons_append,
        ihleft .start outer first _ hfirst ⟨rfl, hoperator⟩]
      simp only [Tree.evaluate]
      cases left.evaluate A with
      | error e => rfl
      | ok u =>
          simp only [bind, Except.bind]
          rw [evaluateOperator_sum A outer token _ u operator htoken,
            ihright ⟨some (u, operator), none, 0⟩ outer second rest hsecond ⟨rfl, rfl⟩]
          cases right.evaluate A with
          | error e => rfl
          | ok v =>
              simp only [bind, Except.bind]
              rw [evaluateOperator_sum_eq_bind A outer v _ rest hnext]
              cases operator <;> rfl

/-- Tokens are derived from a part of the grammar, with a value. -/
def Values (part : Part) (contents : List TokenContent) (v : α) : Prop :=
  ∃ tree, Derives A.isNumeralChar part contents tree ∧ tree.evaluate A = .ok v

/-- A pending sum has been read from tokens: a sum and the operator after it. -/
def SumRead : Option (α × SumOperator) → List TokenContent → Prop
  | none, contents => contents = []
  | some (u, operator), contents =>
    ∃ before, Values A .sum before u ∧ contents = before ++ [.symbol operator.symbol]

/-- A pending product has been read from tokens. -/
def ProductRead : Option (α × ProductOperator) → List TokenContent → Prop
  | none, contents => contents = []
  | some (u, operator), contents =>
    ∃ before, Values A .product before u ∧ contents = before ++ [.symbol operator.symbol]

/-- Signs, as many of them minus signs as are counted, have been read from tokens. -/
inductive SignsRead : Nat → List TokenContent → Prop
  | none : SignsRead 0 []
  | plus (count : Nat) (contents : List TokenContent) (h : SignsRead count contents) :
      SignsRead count (contents ++ [.symbol '+'])
  | minus (count : Nat) (contents : List TokenContent) (h : SignsRead count contents) :
      SignsRead (count + 1) (contents ++ [.symbol '-'])

/-- What is pending at a level has been read from tokens. -/
def LevelRead (level : Level α) (contents : List TokenContent) : Prop :=
  ∃ sums products signs, SumRead A level.sum sums ∧ ProductRead A level.product products
    ∧ SignsRead level.negations signs ∧ contents = sums ++ (products ++ signs)

/-- The levels of open parentheses have been read from tokens, the innermost last. -/
def OuterRead : List (Level α) → List TokenContent → Prop
  | [], contents => contents = []
  | level :: outer, contents => ∃ before inside, OuterRead outer before
    ∧ LevelRead A level inside ∧ contents = before ++ (inside ++ [.symbol '('])

theorem levelRead_start : LevelRead A .start [] :=
  ⟨[], [], [], rfl, rfl, .none, rfl⟩

theorem levelRead_sign (level : Level α) (contents : List TokenContent)
    (h : LevelRead A level contents) : LevelRead A level (contents ++ [.symbol '+'])
      ∧ LevelRead A { level with negations := level.negations + 1 }
        (contents ++ [.symbol '-']) := by
  rcases h with ⟨sums, products, signs, hsums, hproducts, hsigns, rfl⟩
  refine ⟨⟨sums, products, _, hsums, hproducts, .plus _ signs hsigns, ?_⟩,
    ⟨sums, products, _, hsums, hproducts, .minus _ signs hsigns, ?_⟩⟩
  · simp only [List.append_assoc]
  · simp only [List.append_assoc]

/-- The pending signs and the operand after them are a signed operand. -/
theorem values_applyNegations (count : Nat) (signs operand : List TokenContent) (v w : α)
    (hsigns : SignsRead count signs) (hoperand : Values A .signed operand v)
    (h : applyNegations A count v = .ok w) : Values A .signed (signs ++ operand) w := by
  induction hsigns generalizing operand v with
  | none =>
      rw [applyNegations, Except.ok.injEq] at h
      exact h ▸ hoperand
  | plus count signs _ ih =>
      rcases hoperand with ⟨tree, hderives, hvalue⟩
      rw [List.append_assoc, List.singleton_append]
      exact ih _ v ⟨.signed .plus tree, .sign .plus operand tree hderives, hvalue⟩ h
  | minus count signs _ ih =>
      rcases hoperand with ⟨tree, hderives, hvalue⟩
      rw [List.append_assoc, List.singleton_append]
      -- The last sign is the innermost one, so it is applied first.
      rw [applyNegations] at h
      split at h
      · rename_i u hnegate
        refine ih _ u ⟨.signed .minus tree, .sign .minus operand tree hderives, ?_⟩ h
        simp only [Tree.evaluate, hvalue, bind, Except.bind, hnegate]
      · exact absurd h (by simp only [reduceCtorEq, not_false_eq_true])

/-- The pending product and the operand after it are a product. -/
theorem values_applyProduct (pending : Option (α × ProductOperator))
    (products operand : List TokenContent) (v w : α) (hproducts : ProductRead A pending products)
    (hoperand : Values A .signed operand v) (h : applyProduct A pending v = .ok w) :
    Values A .product (products ++ operand) w := by
  rcases hoperand with ⟨right, hright, hvalue⟩
  -- Without a pending product the operand is the whole product.
  cases pending with
  | none =>
      rw [hproducts, List.nil_append]
      rw [applyProduct, Except.ok.injEq] at h
      exact ⟨right, .product operand right hright, h ▸ hvalue⟩
  | some pending =>
      rcases pending with ⟨u, operator⟩
      rcases hproducts with ⟨before, ⟨left, hleft, hu⟩, rfl⟩
      rw [List.append_assoc, List.singleton_append]
      refine ⟨.product left operator right, .moreProduct before operand left right operator hleft
        hright, ?_⟩
      simp only [Tree.evaluate, hu, hvalue, bind, Except.bind]
      cases operator <;> exact h

/-- The pending sum and the product after it are a sum. -/
theorem values_applySum (pending : Option (α × SumOperator))
    (sums contents : List TokenContent) (w u : α) (hsums : SumRead A pending sums)
    (hcontents : Values A .product contents w) (h : applySum A pending w = .ok u) :
    Values A .sum (sums ++ contents) u := by
  rcases hcontents with ⟨right, hright, hvalue⟩
  -- Without a pending sum the product is the whole sum.
  cases pending with
  | none =>
      rw [hsums, List.nil_append]
      rw [applySum, Except.ok.injEq] at h
      exact ⟨right, .sum contents right hright, h ▸ hvalue⟩
  | some pending =>
      rcases pending with ⟨v, operator⟩
      rcases hsums with ⟨before, ⟨left, hleft, hv⟩, rfl⟩
      rw [List.append_assoc, List.singleton_append]
      refine ⟨.sum left operator right, .moreSum before contents left right operator hleft hright,
        ?_⟩
      simp only [Tree.evaluate, hv, hvalue, bind, Except.bind]
      cases operator <;> exact h

/-- What is pending at a level and the operand after it are a product, with what is
    pending of the sum before it. -/
theorem values_closeProduct (level : Level α) (inside operand : List TokenContent) (v w : α)
    (hinside : LevelRead A level inside) (hoperand : Values A .atom operand v)
    (h : level.closeProduct A v = .ok w) : ∃ sums contents, SumRead A level.sum sums
      ∧ Values A .product contents w ∧ inside ++ operand = sums ++ contents := by
  rcases hinside with ⟨sums, products, signs, hsums, hproducts, hsigns, rfl⟩
  rcases hoperand with ⟨tree, hderives, hvalue⟩
  unfold Level.closeProduct at h
  split at h
  · rename_i u hnegations
    -- The signs bind tighter than the product that they stand in.
    have hsigned := values_applyNegations A level.negations signs operand v u hsigns
      ⟨tree, .unsigned operand tree hderives, hvalue⟩ hnegations
    have hproduct := values_applyProduct A level.product products _ u w hproducts hsigned h
    exact ⟨sums, _, hsums, hproduct, by simp only [List.append_assoc]⟩
  · exact absurd h (by simp only [reduceCtorEq, not_false_eq_true])

/-- Behind an operand the evaluator goes on with a product that ends there. -/
theorem values_behind_operand (level : Level α) (outer : List (Level α))
    (inside operand : List TokenContent) (tokens : List Token) (u v : α)
    (hinside : LevelRead A level inside) (hoperand : Values A .atom operand u)
    (h : evaluateOperator A u level outer tokens = .ok v) :
    ∃ sums contents w, SumRead A level.sum sums ∧ Values A .product contents w
      ∧ inside ++ operand = sums ++ contents
      ∧ evaluateOperator A w ⟨level.sum, none, 0⟩ outer tokens = .ok v := by
  rw [evaluateOperator_eq_bind] at h
  cases hclose : level.closeProduct A u with
  | error e =>
      rw [hclose] at h
      exact absurd h (by simp only [bind, Except.bind, reduceCtorEq, not_false_eq_true])
  | ok w =>
      rw [hclose] at h
      rcases values_closeProduct A level inside operand u w hinside hoperand hclose with
        ⟨sums, contents, hsums, hvalues, hread⟩
      exact ⟨sums, contents, w, hsums, hvalues, hread, h⟩

/-- Behind a product it goes on with a sum that ends there, if the product does. -/
theorem values_behind_product (pending : Option (α × SumOperator)) (outer : List (Level α))
    (sums contents : List TokenContent) (tokens : List Token) (w v : α)
    (hsums : SumRead A pending sums) (hcontents : Values A .product contents w)
    (hnext : NotProductNext tokens)
    (h : evaluateOperator A w ⟨pending, none, 0⟩ outer tokens = .ok v) :
    ∃ u, Values A .sum (sums ++ contents) u
      ∧ evaluateOperator A u .start outer tokens = .ok v := by
  rw [evaluateOperator_sum_eq_bind A outer w pending tokens hnext] at h
  cases hsum : applySum A pending w with
  | error e =>
      rw [hsum] at h
      exact absurd h (by simp only [bind, Except.bind, reduceCtorEq, not_false_eq_true])
  | ok u =>
      rw [hsum] at h
      exact ⟨u, values_applySum A pending sums contents w u hsums hcontents hsum, h⟩

/-- A value from where an operand must begin is that of all that has been read and the
    tokens that are left. -/
def OperandRun (tokens : List Token) : Prop :=
  ∀ level outer before inside v, OuterRead A outer before → LevelRead A level inside →
    evaluateOperand A level outer tokens = .ok v →
      Values A .sum (before ++ (inside ++ tokens.map Token.content)) v

/-- So is a value from behind an operand. -/
def OperatorRun (tokens : List Token) : Prop :=
  ∀ level outer before inside operand u v, OuterRead A outer before → LevelRead A level inside →
    Values A .atom operand u → evaluateOperator A u level outer tokens = .ok v →
      Values A .sum (before ++ (inside ++ (operand ++ tokens.map Token.content))) v

section Run

variable (token : Token) (rest : List Token) (hoperands : OperandRun A rest)
  (hoperators : OperatorRun A rest)

include hoperands hoperators

theorem operandRun_cons (htoken : IsLexeme A.isNumeralChar token.content) :
    OperandRun A (token :: rest) := by
  intro level outer before inside v houter hlevel h
  rw [evaluateOperand.eq_def] at h
  simp only at h
  split at h
  · rename_i hcontent
    have hmore := hoperands _ outer before _ v houter (levelRead_sign A level inside hlevel).2 h
    rw [List.map_cons, hcontent]
    rwa [List.append_assoc, List.singleton_append] at hmore
  · rename_i hcontent
    have hmore := hoperands _ outer before _ v houter (levelRead_sign A level inside hlevel).1 h
    rw [List.map_cons, hcontent]
    rwa [List.append_assoc, List.singleton_append] at hmore
  · rename_i hcontent
    -- Everything up to the parenthesis belongs to the levels outside of it.
    have hmore := hoperands .start (level :: outer) _ [] v ⟨before, inside, houter, hlevel, rfl⟩
      (levelRead_start A) h
    rw [List.map_cons, hcontent]
    rwa [List.nil_append, List.append_assoc, List.append_assoc, List.singleton_append] at hmore
  · exact absurd h (by simp only [reduceCtorEq, not_false_eq_true])
  · rename_i digits hcontent
    rw [hcontent] at htoken
    split at h
    · rename_i u hnumeral
      have hmore := hoperators level outer before inside [.numeral digits] u v houter hlevel
        ⟨.numeral digits, .numeral digits htoken.1 htoken.2, hnumeral⟩ h
      rw [List.map_cons, hcontent]
      rwa [List.singleton_append] at hmore
    · exact absurd h (by simp only [reduceCtorEq, not_false_eq_true])

/-- Behind a sum an operator or a closing parenthesis goes on. -/
theorem values_behind_sum (outer : List (Level α)) (before contents : List TokenContent) (u v : α)
    (houter : OuterRead A outer before) (hcontents : Values A .sum contents u)
    (hproduct : ProductOperator.ofToken? token = none)
    (h : evaluateOperator A u .start outer (token :: rest) = .ok v) :
    Values A .sum (before ++ (contents ++ (token :: rest).map Token.content)) v := by
  rw [List.map_cons]
  cases hsum : SumOperator.ofToken? token with
  | some operator =>
      have htoken := content_of_sumOperator token operator hsum
      rw [evaluateOperator_sum A outer token rest u operator htoken] at h
      -- The sum that has been read becomes the pending one of its level.
      have hlevel : LevelRead A ⟨some (u, operator), none, 0⟩
          (contents ++ [.symbol operator.symbol]) :=
        ⟨_, [], [], ⟨contents, hcontents, rfl⟩, rfl, .none, (List.append_nil _).symm⟩
      have hmore := hoperands _ outer before _ v houter hlevel h
      rw [htoken]
      rwa [List.append_assoc, List.singleton_append] at hmore
  | none =>
      rw [evaluateOperator.eq_def] at h
      simp only [Level.closeProduct, Level.start, applyNegations, applyProduct, applySum, hproduct,
        hsum] at h
      split at h
      · -- The level ends, and what has been read of it is an operand of the enclosing one.
        rename_i enclosing outer hcontent
        rcases houter with ⟨before, inside, houter, hlevel, rfl⟩
        rcases hcontents with ⟨tree, hderives, hvalue⟩
        have hmore := hoperators enclosing outer before inside _ u v houter hlevel
          ⟨tree, .parenthesized contents tree hderives, hvalue⟩ h
        rw [hcontent]
        simpa only [List.append_assoc, List.cons_append, List.nil_append] using hmore
      · exact absurd h (by simp only [reduceCtorEq, not_false_eq_true])

theorem operatorRun_cons : OperatorRun A (token :: rest) := by
  intro level outer before inside operand u v houter hlevel hoperand h
  rcases values_behind_operand A level outer inside operand (token :: rest) u v hlevel hoperand h
    with ⟨sums, contents, w, hsums, hvalues, hread, h⟩
  rw [← List.append_assoc inside, hread, List.append_assoc]
  -- An operator of a product binds what is pending before anything else happens.
  cases hproduct : ProductOperator.ofToken? token with
  | some operator =>
      have htoken := content_of_productOperator token operator hproduct
      rw [evaluateOperator_product A outer token rest w level.sum operator htoken] at h
      have hpending : LevelRead A ⟨level.sum, some (w, operator), 0⟩
          (sums ++ (contents ++ [.symbol operator.symbol])) :=
        ⟨sums, _, [], hsums, ⟨contents, hvalues, rfl⟩, .none, by rw [List.append_nil]⟩
      have hmore := hoperands _ outer before _ v houter hpending h
      rw [List.map_cons, htoken]
      simpa only [List.append_assoc, List.singleton_append] using hmore
  | none =>
      have hnext : NotProductNext (token :: rest) :=
        fun other hother => Option.mem_some_iff.1 hother ▸ hproduct
      rcases values_behind_product A level.sum outer sums contents (token :: rest) w v hsums hvalues
        hnext h with ⟨x, hall, h⟩
      have hmore := values_behind_sum A token rest hoperands hoperators outer before _ x v houter
        hall hproduct h
      rwa [List.append_assoc] at hmore

end Run

/-- At the end all parentheses are closed, and what is pending is applied. -/
theorem operatorRun_nil : OperatorRun A [] := by
  intro level outer before inside operand u v houter hlevel hoperand h
  rcases values_behind_operand A level outer inside operand [] u v hlevel hoperand h with
    ⟨sums, contents, w, hsums, hvalues, hread, h⟩
  rcases values_behind_product A level.sum outer sums contents [] w v hsums hvalues
    (fun other hother => absurd hother (Option.not_mem_none other)) h with ⟨x, hall, h⟩
  -- With a level open the end comes too early, and there is no value.
  cases outer with
  | nil =>
      have hx : x = v := by
        simpa only [evaluateOperator, Level.closeProduct, Level.start, applyNegations, applyProduct,
          applySum, Except.ok.injEq] using h
      rw [houter, List.map_nil, List.append_nil, List.nil_append, hread, ← hx]
      exact hall
  | cons enclosing outer =>
      exact absurd h (by simp only [evaluateOperator, Level.closeProduct, Level.start,
        applyNegations, applyProduct, applySum, reduceCtorEq, not_false_eq_true])

/-- By induction on the tokens: a value is that of a derivation of all that has been
    read. -/
theorem values_of_run (tokens : List Token)
    (htokens : ∀ token ∈ tokens, IsLexeme A.isNumeralChar token.content) :
    OperandRun A tokens ∧ OperatorRun A tokens := by
  induction tokens with
  | nil =>
      refine ⟨fun level outer before inside v _ _ h => ?_, operatorRun_nil A⟩
      exact absurd h (by simp only [evaluateOperand, reduceCtorEq, not_false_eq_true])
  | cons token rest ih =>
      rcases ih fun other hother => htokens other (List.mem_cons_of_mem _ hother) with
        ⟨hoperands, hoperators⟩
      exact ⟨operandRun_cons A token rest hoperands hoperators (htokens token List.mem_cons_self),
        operatorRun_cons A token rest hoperands hoperators⟩

section Text

variable (hclass : IsNumeralClass A.isNumeralChar) (text : Text)

include hclass

/-- A text has the value of the tree that it writes, and its fault. -/
theorem evaluate_of_writes (tree : Tree) (h : Writes A.isNumeralChar text tree) :
    evaluate A text = tree.evaluate A := by
  have hderives := (writes_iff A.isNumeralChar hclass 0 text tree).1 h
  have hrun := evaluateOperand_of_derives A .sum _ tree hderives .start []
    (tokens A.isNumeralChar 0 text) [] rfl ⟨rfl, fun _ hmem => absurd hmem (Option.not_mem_none _)⟩
  rw [List.append_nil] at hrun
  unfold evaluate
  split
  · rename_i hnone
    rw [hnone] at hderives
    exact absurd rfl (ne_nil_of_derives A.isNumeralChar .sum [] tree hderives)
  · rename_i token rest htokens
    rw [← htokens, hrun]
    -- Nothing is pending at the end but the value itself.
    cases tree.evaluate A with
    | error e => rfl
    | ok v =>
        simp only [bind, Except.bind, evaluateOperator, Level.closeProduct, Level.start,
          applyNegations, applyProduct, applySum]

/-- A text with a value writes a tree of that value. -/
theorem exists_writes_of_evaluate (v : α) (h : evaluate A text = .ok v) :
    ∃ tree, Writes A.isNumeralChar text tree ∧ tree.evaluate A = .ok v := by
  unfold evaluate at h
  split at h
  · exact absurd h (by simp only [reduceCtorEq, not_false_eq_true])
  · rename_i token rest htokens
    have hlexemes := isLexeme_of_mem_tokens A.isNumeralChar 0 text
    rw [htokens] at hlexemes
    rcases (values_of_run A (token :: rest) hlexemes).1 .start [] [] [] v rfl (levelRead_start A) h
      with ⟨tree, hderives, hvalue⟩
    rw [← htokens] at hderives
    exact ⟨tree, (writes_iff A.isNumeralChar hclass 0 text tree).2 hderives, hvalue⟩

end Text

end Expression

end FileSignatures
