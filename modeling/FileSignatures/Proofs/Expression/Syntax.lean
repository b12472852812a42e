import FileSignatures.Proofs.Expression.Evaluation

/-!
# The syntax of expressions

Whether tokens are an expression depends on no value. Whoever reads them from the left
has to know only whether an operand must come next and how many parentheses are open
(`Stage`), and the first token that cannot stand where it does is the fault.

This reading is compared with two others. It accepts exactly what the grammar derives
(`exists_derives_iff`). And an evaluator does the same in every number domain, except
that an operation may fail before the end is reached (`agrees_evaluate`); so two number
domains can differ in what their operations reject, and in nothing else.

## Main definitions

* `ExpressionError.IsSyntactic`: A fault of the form of an expression.
* `Expression.Stage`: How far an expression has been read.
* `Expression.Stage.after?`: The stage behind tokens that may stand where they do.
* `Expression.Stage.fault?`: The first fault of tokens.
* `Expression.syntaxFault?`: The first fault of the form of a text.
* `Arithmetic.FailsOnly`: The operations fail in certain ways only.
* `Expression.Agrees`: A result agrees with the first fault of the form.
* `Expression.IsExpression`: A text is an expression.

## Theorems

* `after?_of_derives`, `exists_derives_iff`: What is read to the end is derived.
* `agrees_run`: An evaluator reads tokens as the syntax does.
* `agrees_evaluate`: So a text has the same syntax in every number domain.
* `isExpression_iff`: A text without a fault of its form is an expression.
-/

namespace FileSignatures

/-- A fault that the form of an expression has, whatever its numbers are. -/
def ExpressionError.IsSyntactic : ExpressionError → Prop
  | empty | unexpectedCharacter _ _ | unexpectedEnd => True
  | invalidNumeral _ | divisionByZero | overflow => False

instance : DecidablePred ExpressionError.IsSyntactic
  | .empty | .unexpectedCharacter _ _ | .unexpectedEnd => .isTrue trivial
  | .invalidNumeral _ | .divisionByZero | .overflow => .isFalse id

/-- The operations of a number domain fail in certain ways only. Nothing is said about
    numerals, which depend on the text as well. -/
structure Arithmetic.FailsOnly {α : Type} (A : Arithmetic α) (IsOwn : ExpressionError → Prop) :
    Prop where
  negate : ∀ a e, A.negate a = .error e → IsOwn e
  add : ∀ a b e, A.add a b = .error e → IsOwn e
  subtract : ∀ a b e, A.subtract a b = .error e → IsOwn e
  multiply : ∀ a b e, A.multiply a b = .error e → IsOwn e
  divide : ∀ a b e, A.divide a b = .error e → IsOwn e
  remainder : ∀ a b e, A.remainder a b = .error e → IsOwn e

namespace Expression

/-- How far an expression has been read: whether an operand must come next, and how
    many parentheses are open. -/
structure Stage where
  awaitsOperand : Bool
  depth : Nat
  deriving DecidableEq

namespace Stage

/-- Nothing has been read. -/
def start : Stage := ⟨true, 0⟩

/-- Where an expression may end. -/
def final : Stage := ⟨false, 0⟩

/-- The stage behind a token, if the token may stand here. -/
def next? : Stage → TokenContent → Option Stage
  | ⟨true, depth⟩, .numeral _ => some ⟨false, depth⟩
  | ⟨true, depth⟩, .symbol c =>
    if c = '(' then some ⟨true, depth + 1⟩
    else if c ∈ ['+', '-'] then some ⟨true, depth⟩
    else none
  | ⟨false, _⟩, .numeral _ => none
  | ⟨false, depth⟩, .symbol c =>
    if c ∈ ['+', '-', '*', '/', '%'] then some ⟨true, depth⟩
    else if c = ')' ∧ 0 < depth then some ⟨false, depth - 1⟩
    else none

/-- The stage behind tokens, if each of them may stand where it does. -/
def after? (stage : Stage) (contents : List TokenContent) : Option Stage :=
  contents.foldlM next? stage

/-- The first fault of tokens that are read from a stage on. -/
def fault? : Stage → List Token → Option ExpressionError
  | stage, [] => if stage = final then none else some .unexpectedEnd
  | stage, token :: rest =>
    match stage.next? token.content with
    | some next => next.fault? rest
    | none => some token.unexpected

theorem after?_cons (stage : Stage) (content : TokenContent) (contents : List TokenContent) :
    stage.after? (content :: contents)
      = (stage.next? content).bind fun next => next.after? contents := rfl

theorem after?_append (stage : Stage) (before contents : List TokenContent) :
    stage.after? (before ++ contents)
      = (stage.after? before).bind fun next => next.after? contents :=
  List.foldlM_append

theorem fault?_cons_of_some (stage next : Stage) (token : Token) (rest : List Token)
    (h : stage.next? token.content = some next) :
    stage.fault? (token :: rest) = next.fault? rest := by
  rw [fault?, h]

theorem fault?_cons_of_none (stage : Stage) (token : Token) (rest : List Token)
    (h : stage.next? token.content = none) :
    stage.fault? (token :: rest) = some token.unexpected := by
  rw [fault?, h]

/-- An operator may stand behind an operand. -/
theorem next?_operator (depth : Nat) (c : Char) (hc : c ∈ ['+', '-', '*', '/', '%']) :
    next? ⟨false, depth⟩ (.symbol c) = some ⟨true, depth⟩ :=
  if_pos hc

theorem next?_sumOperator (depth : Nat) (operator : SumOperator) :
    next? ⟨false, depth⟩ (.symbol operator.symbol) = some ⟨true, depth⟩ :=
  next?_operator depth _ (by cases operator <;> decide)

theorem next?_productOperator (depth : Nat) (operator : ProductOperator) :
    next? ⟨false, depth⟩ (.symbol operator.symbol) = some ⟨true, depth⟩ :=
  next?_operator depth _ (by cases operator <;> decide)

/-- A sign may stand before an operand. -/
theorem next?_sign (depth : Nat) (sign : Sign) :
    next? ⟨true, depth⟩ (.symbol sign.symbol) = some ⟨true, depth⟩ := by
  cases sign <;> rfl

/-- Tokens have no fault if they can be read to where an expression may end. -/
theorem fault?_eq_none_iff (stage : Stage) (tokens : List Token) :
    stage.fault? tokens = none ↔ stage.after? (tokens.map Token.content) = some final := by
  induction tokens generalizing stage with
  | nil =>
      have hafter : stage.after? [] = some stage := rfl
      rw [List.map_nil, hafter, Option.some.injEq, fault?]
      by_cases hfinal : stage = final
      · exact iff_of_true (if_pos hfinal) hfinal
      · rw [if_neg hfinal]
        exact iff_of_false (Option.some_ne_none _) hfinal
  | cons token rest ih =>
      rw [List.map_cons, after?_cons, fault?]
      cases stage.next? token.content with
      | none => exact iff_of_false (Option.some_ne_none _) (Option.some_ne_none _).symm
      | some next => exact ih next

/-- Tokens with a fault either end too early or hold a token that cannot stand where
    it does. In both cases all that is before the fault can be read. -/
theorem cases_of_fault? (stage : Stage) (tokens : List Token) (e : ExpressionError)
    (h : stage.fault? tokens = some e) :
    (e = .unexpectedEnd ∧ ∃ next, stage.after? (tokens.map Token.content) = some next
      ∧ next ≠ final)
    ∨ ∃ before token rest next, tokens = before ++ token :: rest
      ∧ stage.after? (before.map Token.content) = some next
      ∧ next.next? token.content = none ∧ e = token.unexpected := by
  induction tokens generalizing stage with
  | nil =>
      rw [fault?] at h
      split at h
      · exact absurd h.symm (Option.some_ne_none e)
      · rename_i hfinal
        exact Or.inl ⟨(Option.some.inj h).symm, stage, rfl, hfinal⟩
  | cons token rest ih =>
      rw [fault?] at h
      -- Either this token is the one that cannot stand here, or the fault is further on.
      cases hnext : stage.next? token.content with
      | none =>
          rw [hnext] at h
          exact Or.inr ⟨[], token, rest, stage, rfl, rfl, hnext, (Option.some.inj h).symm⟩
      | some next =>
          rw [hnext] at h
          rcases ih next h with ⟨hend, last, hlast, hne⟩ | ⟨before, other, more, last, rfl, hlast,
            hother⟩
          · refine Or.inl ⟨hend, last, ?_, hne⟩
            rw [List.map_cons, after?_cons, hnext]
            exact hlast
          · refine Or.inr ⟨token :: before, other, more, last, rfl, ?_, hother⟩
            rw [List.map_cons, after?_cons, hnext]
            exact hlast

end Stage

/-- The first fault of the form of a text. -/
def syntaxFault? (isNumeralChar : Char → Bool) (text : Text) : Option ExpressionError :=
  match tokens isNumeralChar 0 text with
  | [] => some .empty
  | token :: rest => Stage.start.fault? (token :: rest)

/-- Derived tokens are an operand, whatever parentheses are open. -/
theorem after?_of_derives (isNumeralChar : Char → Bool) (part : Part)
    (contents : List TokenContent) (tree : Tree) (h : Derives isNumeralChar part contents tree)
    (depth : Nat) : Stage.after? ⟨true, depth⟩ contents = some ⟨false, depth⟩ := by
  -- The depth is general: what a parenthesis holds is read one level deeper.
  induction h generalizing depth with
  | sum _ _ _ ih => exact ih depth
  | product _ _ _ ih => exact ih depth
  | unsigned _ _ _ ih => exact ih depth
  | numeral digits _ _ => rfl
  | sign sign contents _ _ ih =>
      rw [Stage.after?_cons, Stage.next?_sign]
      exact ih depth
  | moreSum before contents _ _ operator _ _ ihleft ihright =>
      rw [Stage.after?_append, ihleft, Option.bind_some, Stage.after?_cons,
        Stage.next?_sumOperator]
      exact ihright depth
  | moreProduct before contents _ _ operator _ _ ihleft ihright =>
      rw [Stage.after?_append, ihleft, Option.bind_some, Stage.after?_cons,
        Stage.next?_productOperator]
      exact ihright depth
  | parenthesized contents _ _ ih =>
      have hopening : Stage.next? ⟨true, depth⟩ (.symbol '(') = some ⟨true, depth + 1⟩ := rfl
      have hclosing : Stage.next? ⟨false, depth + 1⟩ (.symbol ')') = some ⟨false, depth⟩ := rfl
      rw [List.cons_append, Stage.after?_cons, hopening, Option.bind_some, Stage.after?_append,
        ih, Option.bind_some, Stage.after?_cons, hclosing]
      rfl

/-- A result agrees with the first fault of the form: a value means that there is none,
    and a fault that is not one of the number domain's own is this one. -/
def Agrees {α : Type} (IsOwn : ExpressionError → Prop) (fault? : Option ExpressionError) :
    Except ExpressionError α → Prop
  | .ok _ => fault? = none
  | .error e => IsOwn e ∨ fault? = some e

section Domain

variable {α : Type} (A : Arithmetic α) (IsOwn : ExpressionError → Prop) (hA : A.FailsOnly IsOwn)

include hA

/-- What is pending of a product fails as the operations do. -/
theorem isOwn_of_closeProduct (level : Level α) (v : α) (e : ExpressionError)
    (h : level.closeProduct A v = .error e) : IsOwn e := by
  -- The signs before the operand are applied first, one after the other.
  have hnegations : ∀ count u, applyNegations A count u = .error e → IsOwn e := by
    intro count
    induction count with
    | zero => exact fun u hu => absurd hu (by simp only [applyNegations, reduceCtorEq,
        not_false_eq_true])
    | succ count ih =>
        intro u hu
        rw [applyNegations] at hu
        split at hu
        · exact ih _ hu
        · rename_i other hnegate
          exact hA.negate u e (Except.error.inj hu ▸ hnegate)
  unfold Level.closeProduct at h
  split at h
  · unfold applyProduct at h
    split at h
    · exact absurd h (by simp only [reduceCtorEq, not_false_eq_true])
    · exact hA.multiply _ _ e h
    · exact hA.divide _ _ e h
    · exact hA.remainder _ _ e h
  · rename_i other hother
    exact hnegations level.negations v (Except.error.inj h ▸ hother)

theorem isOwn_of_applySum (pending : Option (α × SumOperator)) (v : α) (e : ExpressionError)
    (h : applySum A pending v = .error e) : IsOwn e := by
  unfold applySum at h
  split at h
  · exact absurd h (by simp only [reduceCtorEq, not_false_eq_true])
  · exact hA.add _ _ e h
  · exact hA.subtract _ _ e h

omit hA in
/-- An operator is read as the syntax says, and so is what cannot stand behind an
    operand. -/
theorem next?_of_no_operator (token : Token) (depth : Nat)
    (hproduct : ProductOperator.ofToken? token = none)
    (hsum : SumOperator.ofToken? token = none)
    (hclosing : token.content = .symbol ')' → depth = 0) :
    Stage.next? ⟨false, depth⟩ token.content = none := by
  cases hcontent : token.content with
  | numeral digits => rfl
  | symbol c =>
      -- Were it one of the five operators, one of the two readers would have taken it.
      have hoperator : c ∉ ['+', '-', '*', '/', '%'] := by
        intro hmem
        simp only [ProductOperator.ofToken?, SumOperator.ofToken?, hcontent] at hproduct hsum
        simp only [List.mem_cons, List.not_mem_nil, or_false] at hmem
        rcases hmem with rfl | rfl | rfl | rfl | rfl
        · exact absurd hsum (Option.some_ne_none _)
        · exact absurd hsum (Option.some_ne_none _)
        · exact absurd hproduct (Option.some_ne_none _)
        · exact absurd hproduct (Option.some_ne_none _)
        · exact absurd hproduct (Option.some_ne_none _)
      have hopen : ¬ (c = ')' ∧ 0 < depth) := by
        rintro ⟨rfl, hpos⟩
        exact Nat.ne_of_gt hpos (hclosing hcontent)
      rw [Stage.next?, if_neg hoperator, if_neg hopen]

/-- The numerals among tokens fail in certain ways only. -/
def NumeralsFailOnly (tokens : List Token) : Prop :=
  ∀ token ∈ tokens, ∀ digits, token.content = .numeral digits →
    ∀ e, A.numeral digits = .error e → IsOwn e

/-- From where an operand must begin an evaluator reads tokens as the syntax does,
    whatever is pending. -/
def OperandAgrees (tokens : List Token) : Prop :=
  ∀ level (outer : List (Level α)), Agrees IsOwn (Stage.fault? ⟨true, outer.length⟩ tokens)
    (evaluateOperand A level outer tokens)

/-- So it does from behind an operand. -/
def OperatorAgrees (tokens : List Token) : Prop :=
  ∀ v level (outer : List (Level α)), Agrees IsOwn (Stage.fault? ⟨false, outer.length⟩ tokens)
    (evaluateOperator A v level outer tokens)

/-- At the end no parenthesis may be open. -/
theorem operatorAgrees_nil : OperatorAgrees A IsOwn [] := by
  intro v level outer
  rw [evaluateOperator.eq_def]
  simp only
  -- What is still pending may overflow before the missing parenthesis is noticed.
  cases hclose : level.closeProduct A v with
  | error e => exact Or.inl (isOwn_of_closeProduct A IsOwn hA level v e hclose)
  | ok w =>
      simp only
      cases hsum : applySum A level.sum w with
      | error e => exact Or.inl (isOwn_of_applySum A IsOwn hA level.sum w e hsum)
      | ok u =>
          cases outer with
          | nil => exact if_pos rfl
          | cons enclosing outer => exact Or.inr (if_neg fun h => by cases h)

section Cons

variable (token : Token) (rest : List Token) (hoperands : OperandAgrees A IsOwn rest)
  (hoperators : OperatorAgrees A IsOwn rest)

include hoperands hoperators

theorem operatorAgrees_cons : OperatorAgrees A IsOwn (token :: rest) := by
  intro v level outer
  rw [evaluateOperator.eq_def]
  simp only
  cases hclose : level.closeProduct A v with
  | error e => exact Or.inl (isOwn_of_closeProduct A IsOwn hA level v e hclose)
  | ok w =>
      simp only
      cases hproduct : ProductOperator.ofToken? token with
      | some operator =>
          have hcontent := content_of_productOperator token operator hproduct
          rw [Stage.fault?_cons_of_some _ _ token rest
            (hcontent ▸ Stage.next?_productOperator outer.length operator)]
          exact hoperands _ outer
      | none =>
          simp only
          cases hpending : applySum A level.sum w with
          | error e => exact Or.inl (isOwn_of_applySum A IsOwn hA level.sum w e hpending)
          | ok u =>
              simp only
              cases hsum : SumOperator.ofToken? token with
              | some operator =>
                  have hcontent := content_of_sumOperator token operator hsum
                  rw [Stage.fault?_cons_of_some _ _ token rest
                    (hcontent ▸ Stage.next?_sumOperator outer.length operator)]
                  exact hoperands _ outer
              | none =>
                  simp only
                  split
                  · rename_i enclosing outer hcontent
                    rw [Stage.fault?_cons_of_some _ ⟨false, outer.length⟩ token rest
                      (by rw [hcontent]; rfl)]
                    exact hoperators u enclosing outer
                  · -- A parenthesis that closes nothing is as wrong as any other token.
                    rename_i levels _ _ hnot
                    have hclosing : token.content = .symbol ')' → levels.length = 0 := by
                      intro hcontent
                      cases levels with
                      | nil => rfl
                      | cons enclosing others => exact (hnot enclosing others hcontent rfl).elim
                    exact Or.inr (Stage.fault?_cons_of_none _ token rest
                      (next?_of_no_operator token levels.length hproduct hsum hclosing))

omit hA in
theorem operandAgrees_cons (hnumeral : ∀ digits, token.content = .numeral digits →
    ∀ e, A.numeral digits = .error e → IsOwn e) : OperandAgrees A IsOwn (token :: rest) := by
  intro level outer
  rw [evaluateOperand.eq_def]
  simp only
  -- A sign leaves an operand to come, a parenthesis opens a level, a numeral ends the operand.
  split
  · rename_i hcontent
    rw [Stage.fault?_cons_of_some _ _ token rest (hcontent ▸ Stage.next?_sign _ .minus)]
    exact hoperands _ outer
  · rename_i hcontent
    rw [Stage.fault?_cons_of_some _ _ token rest (hcontent ▸ Stage.next?_sign _ .plus)]
    exact hoperands _ outer
  · rename_i hcontent
    rw [Stage.fault?_cons_of_some _ ⟨true, outer.length + 1⟩ token rest (by rw [hcontent]; rfl)]
    exact hoperands .start (level :: outer)
  · rename_i c hminus hplus hopening hcontent
    have hsign : c ∉ ['+', '-'] := by
      intro hmem
      simp only [List.mem_cons, List.not_mem_nil, or_false] at hmem
      rcases hmem with heq | heq
      · exact hplus heq
      · exact hminus heq
    exact Or.inr (Stage.fault?_cons_of_none _ token rest
      (by rw [hcontent, Stage.next?, if_neg hopening, if_neg hsign]))
  · rename_i digits hcontent
    cases hvalue : A.numeral digits with
    | error e => exact Or.inl (hnumeral digits hcontent e hvalue)
    | ok v =>
        rw [Stage.fault?_cons_of_some _ ⟨false, outer.length⟩ token rest (by rw [hcontent]; rfl)]
        exact hoperators v level outer

end Cons

/-- By induction on the tokens: an evaluator reads them as the syntax does. -/
theorem agrees_run (tokens : List Token) (hnumerals : NumeralsFailOnly A IsOwn tokens) :
    OperandAgrees A IsOwn tokens ∧ OperatorAgrees A IsOwn tokens := by
  induction tokens with
  | nil =>
      exact ⟨fun level outer => Or.inr (if_neg fun h => by cases h),
        operatorAgrees_nil A IsOwn hA⟩
  | cons token rest ih =>
      rcases ih fun other hother => hnumerals other (List.mem_cons_of_mem _ hother) with
        ⟨hoperands, hoperators⟩
      exact ⟨operandAgrees_cons A IsOwn token rest hoperands hoperators
          (hnumerals token List.mem_cons_self),
        operatorAgrees_cons A IsOwn hA token rest hoperands hoperators⟩

/-- A text is evaluated as its form says, in every number domain. -/
theorem agrees_evaluate (text : Text)
    (hnumerals : NumeralsFailOnly A IsOwn (tokens A.isNumeralChar 0 text)) :
    Agrees IsOwn (syntaxFault? A.isNumeralChar text) (evaluate A text) := by
  unfold evaluate syntaxFault?
  cases htokens : tokens A.isNumeralChar 0 text with
  | nil => exact Or.inr rfl
  | cons token rest =>
      rw [htokens] at hnumerals
      exact (agrees_run A IsOwn hA (token :: rest) hnumerals).1 .start []

end Domain

/-- A number domain with a single number, in which nothing but the form of an
    expression can be wrong. -/
def unitArithmetic (isNumeralChar : Char → Bool) : Arithmetic Unit where
  isNumeralChar := isNumeralChar
  numeral _ := .ok ()
  negate _ := .ok ()
  add _ _ := .ok ()
  subtract _ _ := .ok ()
  multiply _ _ := .ok ()
  divide _ _ := .ok ()
  remainder _ _ := .ok ()

theorem failsOnly_unit (isNumeralChar : Char → Bool) :
    (unitArithmetic isNumeralChar).FailsOnly fun _ => False := by
  refine ⟨?_, ?_, ?_, ?_, ?_, ?_⟩ <;> intros <;> contradiction

/-- Lexemes are derived exactly if they can be read to where an expression may end. -/
theorem exists_derives_iff (isNumeralChar : Char → Bool) (contents : List TokenContent)
    (hlexemes : ∀ content ∈ contents, IsLexeme isNumeralChar content) :
    (∃ tree, Derives isNumeralChar .sum contents tree)
      ↔ Stage.start.after? contents = some .final := by
  constructor
  · rintro ⟨tree, hderives⟩
    exact after?_of_derives isNumeralChar .sum contents tree hderives 0
  · intro hafter
    -- Where the tokens stand makes no difference, so they may all stand at the beginning.
    have hcontents : (contents.map (Token.mk 0)).map Token.content = contents := by
      rw [List.map_map]
      exact List.map_id contents
    have hnone : Stage.start.fault? (contents.map (Token.mk 0)) = none :=
      (Stage.fault?_eq_none_iff _ _).2 (hcontents.symm ▸ hafter)
    have hagrees := (agrees_run (unitArithmetic isNumeralChar) (fun _ => False)
      (failsOnly_unit isNumeralChar) (contents.map (Token.mk 0))
      fun _ _ _ _ e h => absurd h (by simp only [unitArithmetic, reduceCtorEq,
        not_false_eq_true])).1 .start []
    cases hvalue : evaluateOperand (unitArithmetic isNumeralChar) .start []
      (contents.map (Token.mk 0)) with
    | ok v =>
        have htokens : ∀ token ∈ contents.map (Token.mk 0), IsLexeme isNumeralChar token.content :=
          fun token htoken => by
            rcases List.mem_map.1 htoken with ⟨content, hcontent, rfl⟩
            exact hlexemes content hcontent
        rcases (values_of_run (unitArithmetic isNumeralChar) _ htokens).1 .start [] [] [] v rfl
          (levelRead_start _) hvalue with ⟨tree, hderives, -⟩
        rw [hcontents] at hderives
        exact ⟨tree, hderives⟩
    | error e =>
        rw [hvalue] at hagrees
        rcases hagrees with hown | hfault
        · exact hown.elim
        · exact absurd (hfault.symm.trans hnone) (Option.some_ne_none e)

/-- A text is an expression if it writes a tree. -/
def IsExpression (isNumeralChar : Char → Bool) (text : Text) : Prop :=
  ∃ tree, Writes isNumeralChar text tree

/-- A text is an expression exactly if there is no fault in its form. -/
theorem isExpression_iff (isNumeralChar : Char → Bool) (hclass : IsNumeralClass isNumeralChar)
    (text : Text) :
    IsExpression isNumeralChar text ↔ syntaxFault? isNumeralChar text = none := by
  have hlexemes : ∀ content ∈ (tokens isNumeralChar 0 text).map Token.content,
      IsLexeme isNumeralChar content := fun content hcontent => by
    rcases List.mem_map.1 hcontent with ⟨token, htoken, rfl⟩
    exact isLexeme_of_mem_tokens isNumeralChar 0 text token htoken
  simp only [IsExpression, writes_iff isNumeralChar hclass 0 text,
    exists_derives_iff isNumeralChar _ hlexemes, ← Stage.fault?_eq_none_iff]
  unfold syntaxFault?
  -- A blank text has no tokens, and it is no expression.
  cases tokens isNumeralChar 0 text with
  | nil => exact iff_of_false (Option.some_ne_none _) (Option.some_ne_none _)
  | cons token rest => exact Iff.rfl

end Expression

end FileSignatures
