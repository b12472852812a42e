import FileSignatures.Proofs.Expression.Numerals
import FileSignatures.Proofs.Expression.SyntaxFaults

/-!
# Whole numbers and rates have the same syntax

Expressions for whole numbers and for rates differ in their numerals: only a rate can
have a point in it. A text without a point is cut up into the same tokens either way
(`tokens_congr`), so its form has the same fault. What can differ is where an operation
fails before this fault is reached. Words have a range and rates do not, and a divisor
may be zero as a word, but not as a rate, or the other way round.

## Theorems

* `tokens_congr`: The tokens of a text depend on its own characters only.
* `compare_of_agrees`: Two results that agree with the same fault of the form.
* `agrees_float`: A rate without a point is evaluated as its form says.
* `syntax_of_integer_and_float`: Evaluation of both kinds is compared.
-/

namespace FileSignatures

namespace Expression

/-- The tokens of a text depend on what its own characters are. -/
theorem tokens_congr (isNumeralChar isOther : Char → Bool) (position : Nat) (text : Text)
    (h : ∀ c ∈ text, isNumeralChar c = isOther c) :
    tokens isNumeralChar position text = tokens isOther position text := by
  induction text generalizing position with
  | nil => rfl
  | cons c text ih =>
      rw [tokens, tokens, h c List.mem_cons_self,
        ih _ fun d hd => h d (List.mem_cons_of_mem c hd)]

/-- Of two results that agree with the same fault of the form, the second one is as the
    first one, unless one of its own operations has failed. -/
theorem compare_of_agrees {α β : Type} (IsOwn IsOther : ExpressionError → Prop)
    (fault? : Option ExpressionError) (first : Except ExpressionError α)
    (second : Except ExpressionError β) (hfirst : Agrees IsOwn fault? first)
    (hsecond : Agrees IsOther fault? second) :
    (∀ e, ¬ IsOwn e → first = .error e →
      second = .error e ∨ ∃ other, second = .error other ∧ IsOther other)
    ∧ ((∃ v, first = .ok v) →
      (∃ v, second = .ok v) ∨ ∃ other, second = .error other ∧ IsOther other) := by
  constructor
  · rintro e hown rfl
    -- A fault that is not of the operations is the fault of the form, which the two share.
    have hfault : fault? = some e := hfirst.resolve_left hown
    cases second with
    | ok v => exact absurd (hsecond.symm.trans hfault) (Option.some_ne_none e).symm
    | error other =>
        rcases hsecond with hother | hother
        · exact Or.inr ⟨other, rfl, hother⟩
        · rw [hfault, Option.some.injEq] at hother
          exact Or.inl (congrArg Except.error hother.symm)
  · rintro ⟨v, rfl⟩
    cases second with
    | ok w => exact Or.inl ⟨w, rfl⟩
    | error other =>
        rcases hsecond with hother | hother
        · exact Or.inr ⟨other, rfl, hother⟩
        · exact absurd (hother.symm.trans hfirst) (Option.some_ne_none other)

/-- Operations on rates fail for a divisor that is zero, and for nothing else. -/
theorem failsOnly_float : floatArithmetic.FailsOnly fun e => e = .divisionByZero := by
  have htotal : ∀ (x : Float) (e : ExpressionError), Except.ok x = .error e →
      e = .divisionByZero := fun _ _ h =>
    absurd h (by simp only [reduceCtorEq, not_false_eq_true])
  -- Division and remainder look at the divisor; all the rest has a value.
  have hdivided : ∀ (b x : Float) (e : ExpressionError),
      (if b == 0.0 then Except.error .divisionByZero else .ok x) = .error e →
        e = .divisionByZero := by
    intro b x e h
    split at h
    · exact (Except.error.inj h).symm
    · exact htotal x e h
  exact ⟨fun _ e => htotal _ e, fun _ _ e => htotal _ e, fun _ _ e => htotal _ e,
    fun _ _ e => htotal _ e, fun _ b e => hdivided b _ e, fun _ b e => hdivided b _ e⟩

/-- Without a point a text has the tokens that whole numbers have. -/
theorem tokens_float (text : Text) (hpoint : '.' ∉ text) :
    tokens floatArithmetic.isNumeralChar 0 text = tokens isDigit 0 text := by
  refine tokens_congr _ _ 0 text fun c hc => ?_
  have hne : c ≠ '.' := fun heq => hpoint (heq ▸ hc)
  simp only [floatArithmetic, hne, decide_false, Bool.or_false]

/-- A rate without a point is evaluated as its form says. Its numerals are runs of
    digits, all of which have a value. -/
theorem agrees_float (text : Text) (hpoint : '.' ∉ text) :
    Agrees (fun e => e = .divisionByZero) (syntaxFault? isDigit text)
      (Evaluator.arithmetic.float text) := by
  have htokens := tokens_float text hpoint
  -- Without a point the two evaluators cut the text into the same tokens.
  have hfault : syntaxFault? floatArithmetic.isNumeralChar text = syntaxFault? isDigit text := by
    unfold syntaxFault?
    rw [htokens]
  rw [← hfault]
  refine agrees_evaluate floatArithmetic _ failsOnly_float text fun token htoken digits hcontent e
    h => ?_
  rw [htokens] at htoken
  have hlexeme := isLexeme_of_mem_tokens isDigit 0 text token htoken
  rw [hcontent] at hlexeme
  have hvalue := floatNumeral_of_isDigit digits hlexeme.1 hlexeme.2
  exact absurd (hvalue.symm.trans h) (by simp only [reduceCtorEq, not_false_eq_true])

/-- Of a text without a point, evaluation as a whole number and as a rate report the same
    fault in its form, at the same place, or none. They differ in faults of their
    operations only: of rates there is one, division by zero. -/
theorem syntax_of_integer_and_float (text : Text) (hpoint : '.' ∉ text) :
    (∀ e, e.IsSyntactic → Evaluator.arithmetic.integer text = .error e →
      Evaluator.arithmetic.float text = .error e
        ∨ Evaluator.arithmetic.float text = .error .divisionByZero)
    ∧ ((∃ v, Evaluator.arithmetic.integer text = .ok v) →
      (∃ x, Evaluator.arithmetic.float text = .ok x)
        ∨ Evaluator.arithmetic.float text = .error .divisionByZero)
    ∧ (∀ e, e.IsSyntactic → Evaluator.arithmetic.float text = .error e →
      Evaluator.arithmetic.integer text = .error e
        ∨ ∃ other, Evaluator.arithmetic.integer text = .error other ∧ ¬ other.IsSyntactic)
    ∧ ((∃ x, Evaluator.arithmetic.float text = .ok x) →
      (∃ v, Evaluator.arithmetic.integer text = .ok v)
        ∨ ∃ other, Evaluator.arithmetic.integer text = .error other ∧ ¬ other.IsSyntactic) := by
  have hinteger := agrees_integer text
  have hfloat := agrees_float text hpoint
  -- Both agree with the faults of one syntax, so each can be compared with the other.
  rcases compare_of_agrees _ _ _ _ _ hinteger hfloat with ⟨hfault, hvalue⟩
  rcases compare_of_agrees _ _ _ _ _ hfloat hinteger with ⟨hfault', hvalue'⟩
  simp only [exists_eq_right] at hfault hvalue
  refine ⟨fun e he => hfault e (not_not_intro he), hvalue, fun e he => hfault' e ?_, hvalue'⟩
  rintro rfl
  exact he

/-- Both report a missing operator at the same place, and both have a value where the
    form is right. -/
theorem syntax_of_integer_and_float_samples :
    '.' ∉ "(2 3".toList
    ∧ (ExpressionError.unexpectedCharacter '3' 3).IsSyntactic
    ∧ Evaluator.arithmetic.integer "(2 3".toList = .error (.unexpectedCharacter '3' 3)
    ∧ (Evaluator.arithmetic.float "(2 3".toList = .error (.unexpectedCharacter '3' 3)
      ∨ Evaluator.arithmetic.float "(2 3".toList = .error .divisionByZero)
    ∧ (∃ x, Evaluator.arithmetic.float "2+3".toList = .ok x)
    ∧ ((∃ v, Evaluator.arithmetic.integer "2+3".toList = .ok v)
      ∨ ∃ other, Evaluator.arithmetic.integer "2+3".toList = .error other
        ∧ ¬ other.IsSyntactic) :=
  ⟨by decide, trivial, rfl,
    (syntax_of_integer_and_float "(2 3".toList (by decide)).1 _ trivial rfl, ⟨_, rfl⟩,
    (syntax_of_integer_and_float "2+3".toList (by decide)).2.2.2 ⟨_, rfl⟩⟩

end Expression

end FileSignatures
