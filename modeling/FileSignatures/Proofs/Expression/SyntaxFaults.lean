import FileSignatures.Proofs.Expression.Cuts
import FileSignatures.Proofs.Expression.Syntax
import FileSignatures.Proofs.Expression.CheckedIntegers

/-!
# Faults in the form of an expression

A fault in the form of an expression is reported at a character of the text. That this
is the right one can be said without the evaluator, by the grammar alone: what stands
before it is the beginning of some expression, and with the character it is the
beginning of none. If the text ends too early, then it is itself the beginning of an
expression, and no expression.

What is before the character can be completed because its tokens can be read
(`Stage.after?_closing`). That nothing can follow the character takes a cut in front of
it: whatever is put behind, the tokens before it stay as they are, and the one that it
begins can stand at the same places as before (`exists_token_of_head`).

## Main definitions

* `Expression.Stage.closing`: Tokens that complete what has been read.

## Theorems

* `exists_isExpression_append`: What can be read is the beginning of an expression.
* `not_isExpression_of_next?`: No expression has a token that cannot stand where it does.
* `cases_of_syntaxFault?`: What can be wrong with the form of a text.
* `located_of_syntaxFault?`: A character is reported where no expression could go on.
* `unfinished_of_syntaxFault?`: A text that ends too early can be completed.
* `agrees_integer`: A whole number is evaluated as its form says.
* `evaluate_integer_located`: Evaluation locates faults of the form exactly.
-/

namespace FileSignatures

namespace Expression

/-- Tokens that complete what has been read: an operand, if there must be one, and a
    parenthesis for each that is open. -/
def Stage.closing (stage : Stage) : List TokenContent :=
  (if stage.awaitsOperand then [.numeral ['0']] else [])
    ++ List.replicate stage.depth (.symbol ')')

theorem Stage.after?_closing (stage : Stage) : stage.after? stage.closing = some final := by
  have hparentheses : ∀ depth, Stage.after? ⟨false, depth⟩
      (List.replicate depth (.symbol ')')) = some final := by
    intro depth
    induction depth with
    | zero => rfl
    | succ depth ih =>
        rw [List.replicate_succ, after?_cons]
        exact ih
  rcases stage with ⟨awaitsOperand, depth⟩
  -- With an operand missing, the zero that is added makes the second case the first.
  cases awaitsOperand with
  | false => exact hparentheses depth
  | true => exact hparentheses depth

/-- Which numeral it is makes no difference. -/
theorem Stage.next?_numeral (stage : Stage) (digits others : Text) :
    stage.next? (.numeral digits) = stage.next? (.numeral others) := by
  rcases stage with ⟨awaitsOperand, depth⟩
  cases awaitsOperand <;> rfl

section Text

variable (isNumeralChar : Char → Bool) (hclass : IsNumeralClass isNumeralChar)

/-- A lexeme that cannot stand where it does is reported by its first character. -/
theorem unexpected_of_isLexeme (token : Token) (h : IsLexeme isNumeralChar token.content) :
    ∃ c rest, token.content.text = c :: rest
      ∧ token.unexpected = .unexpectedCharacter c token.position := by
  rcases token with ⟨position, content⟩
  cases content with
  | symbol c => exact ⟨c, [], rfl, rfl⟩
  | numeral digits =>
      rcases List.exists_cons_of_ne_nil h.1 with ⟨c, rest, rfl⟩
      exact ⟨c, rest, rfl, rfl⟩

include hclass

/-- A lexeme does not begin with a blank. -/
theorem not_blank_of_isLexeme (content : TokenContent) (c : Char) (rest : Text)
    (h : IsLexeme isNumeralChar content) (htext : content.text = c :: rest) :
    isBlank c = false := by
  cases content with
  | symbol d =>
      rw [TokenContent.text, List.cons.injEq] at htext
      exact htext.1 ▸ h.1
  | numeral digits =>
      rw [TokenContent.text] at htext
      exact hclass.not_blank c (h.2 c (htext ▸ List.mem_cons_self))

/-- A text that begins with the same character begins with a token that can stand at the
    same places. -/
theorem exists_token_of_head (stage : Stage) (c : Char) (hblank : isBlank c = false)
    (position : Nat) (s t : Text) (token : Token) (more : List Token)
    (h : tokens isNumeralChar position (c :: s) = token :: more) :
    ∃ other others, tokens isNumeralChar position (c :: t) = other :: others
      ∧ stage.next? other.content = stage.next? token.content := by
  by_cases hnumeral : isNumeralChar c = true
  · rcases tokens_numeral isNumeralChar hclass position c s hnumeral with ⟨digits, _, hs⟩
    rcases tokens_numeral isNumeralChar hclass position c t hnumeral with ⟨other, others, ht⟩
    rw [hs, List.cons.injEq] at h
    refine ⟨_, others, ht, ?_⟩
    rw [← h.1]
    exact stage.next?_numeral _ _
  · have hsymbol : IsLexeme isNumeralChar (.symbol c) := ⟨hblank, Bool.eq_false_iff.2 hnumeral⟩
    rw [tokens_symbol isNumeralChar position c s hsymbol, List.cons.injEq] at h
    refine ⟨_, _, tokens_symbol isNumeralChar position c t hsymbol, ?_⟩
    rw [← h.1]

omit hclass in
/-- What can be read is the beginning of an expression. -/
theorem exists_isExpression_append (hzero : isNumeralChar '0' = true)
    (hparenthesis : IsLexeme isNumeralChar (.symbol ')')) (text : Text) (stage : Stage)
    (h : Stage.start.after? ((tokens isNumeralChar 0 text).map Token.content) = some stage) :
    ∃ more, IsExpression isNumeralChar (text ++ more) := by
  -- What completes the text is an operand, if one is missing, and closing parentheses.
  have hlexemes : ∀ content ∈ (tokens isNumeralChar 0 text).map Token.content ++ stage.closing,
      IsLexeme isNumeralChar content := by
    intro content hcontent
    rcases List.mem_append.1 hcontent with hmem | hmem
    · rcases List.mem_map.1 hmem with ⟨token, htoken, rfl⟩
      exact isLexeme_of_mem_tokens isNumeralChar 0 text token htoken
    · rcases List.mem_append.1 hmem with hmem | hmem
      · split at hmem
        · rw [List.mem_singleton.1 hmem]
          exact ⟨List.cons_ne_nil _ _, fun c hc => List.mem_singleton.1 hc ▸ hzero⟩
        · exact absurd hmem List.not_mem_nil
      · rw [List.eq_of_mem_replicate hmem]
        exact hparenthesis
  have hafter : Stage.start.after? ((tokens isNumeralChar 0 text).map Token.content
      ++ stage.closing) = some .final := by
    rw [Stage.after?_append, h]
    exact stage.after?_closing
  rcases (exists_derives_iff isNumeralChar _ hlexemes).2 hafter with ⟨tree, hderives⟩
  exact ⟨stage.closing.flatMap TokenContent.text, tree, _,
    spells_append _ _ _ _ (spells_tokens isNumeralChar 0 text) (spells_flatMap stage.closing),
    hderives⟩

/-- No expression has a token that cannot stand where it does. -/
theorem not_isExpression_of_next? (text : Text) (before : List Token) (token : Token)
    (more : List Token) (stage : Stage)
    (htokens : tokens isNumeralChar 0 text = before ++ token :: more)
    (hbefore : Stage.start.after? (before.map Token.content) = some stage)
    (htoken : stage.next? token.content = none) : ¬ IsExpression isNumeralChar text := by
  rintro ⟨tree, hwrites⟩
  have hderives := (writes_iff isNumeralChar hclass 0 text tree).1 hwrites
  have hafter : Stage.start.after? _ = some Stage.final :=
    after?_of_derives isNumeralChar .sum _ tree hderives 0
  rw [htokens, List.map_append, Stage.after?_append, hbefore, Option.bind_some, List.map_cons,
    Stage.after?_cons, htoken] at hafter
  exact Option.some_ne_none _ hafter.symm

/-- A text with a fault in its form is blank, or it ends too early, or it has a token
    that cannot stand where it does, and the first character of this token is reported. -/
theorem cases_of_syntaxFault? (text : Text) (e : ExpressionError)
    (h : syntaxFault? isNumeralChar text = some e) :
    (e = .empty ∧ tokens isNumeralChar 0 text = [])
    ∨ (e = .unexpectedEnd ∧ ∃ stage, Stage.start.after?
      ((tokens isNumeralChar 0 text).map Token.content) = some stage)
    ∨ ∃ c before after first token more stage, text = before ++ c :: after
      ∧ e = .unexpectedCharacter c (Text.width before) ∧ isBlank c = false
      ∧ IsCut isNumeralChar 0 before (c :: after) first token more
      ∧ Stage.start.after? (first.map Token.content) = some stage
      ∧ stage.next? token.content = none := by
  -- A blank text is the only one whose fault does not come from a token.
  have hfault : tokens isNumeralChar 0 text = [] ∧ e = .empty
      ∨ Stage.start.fault? (tokens isNumeralChar 0 text) = some e := by
    unfold syntaxFault? at h
    cases htokens : tokens isNumeralChar 0 text with
    | nil =>
        rw [htokens] at h
        exact Or.inl ⟨rfl, (Option.some.inj h).symm⟩
    | cons token more =>
        rw [htokens] at h
        exact Or.inr h
  rcases hfault with ⟨hnone, rfl⟩ | hfault
  · exact Or.inl ⟨rfl, hnone⟩
  rcases Stage.cases_of_fault? _ _ e hfault with ⟨rfl, stage, hstage, -⟩ |
    ⟨first, token, more, stage, htokens, hstage, hnext, rfl⟩
  · exact Or.inr (Or.inl ⟨rfl, stage, hstage⟩)
  · -- The tokens before the faulty one are those of the text before its first character.
    rcases cutsFrom isNumeralChar hclass 0 text first token more htokens with
      ⟨before, rest, rfl, hcut⟩
    have hlexeme := isLexeme_of_mem_tokens isNumeralChar _ rest token
      (by rw [hcut.tokens_rest]; exact List.mem_cons_self)
    rcases unexpected_of_isLexeme isNumeralChar token hlexeme with ⟨c, text, htext, hunexpected⟩
    rcases text_of_tokens isNumeralChar _ token more rest hcut.tokens_rest hcut.position_eq with
      ⟨after, rfl⟩
    rw [htext, List.cons_append] at hcut
    refine Or.inr (Or.inr ⟨c, before, text ++ after, first, token, more, stage, ?_, ?_,
      not_blank_of_isLexeme isNumeralChar hclass token.content c text hlexeme htext, hcut, hstage,
      hnext⟩)
    · rw [htext, List.cons_append]
    · rw [hunexpected, hcut.position_eq, Nat.zero_add]

/-- A character is reported where an expression could not go on with it. -/
theorem located_of_syntaxFault? (hzero : isNumeralChar '0' = true) (text : Text) (found : Char)
    (position : Nat)
    (h : syntaxFault? isNumeralChar text = some (.unexpectedCharacter found position)) :
    ∃ before after, text = before ++ found :: after ∧ position = Text.width before
      ∧ isBlank found = false ∧ (∃ more, IsExpression isNumeralChar (before ++ more))
      ∧ ∀ more, ¬ IsExpression isNumeralChar (before ++ found :: more) := by
  have hparenthesis := isLexeme_symbol isNumeralChar hclass ')' (by decide)
  rcases cases_of_syntaxFault? isNumeralChar hclass text _ h with ⟨habsurd, -⟩ | ⟨habsurd, -⟩ |
    ⟨c, before, after, first, token, more, stage, rfl, heq, hblank, hcut, hstage, hnext⟩
  · exact absurd habsurd (by simp only [reduceCtorEq, not_false_eq_true])
  · exact absurd habsurd (by simp only [reduceCtorEq, not_false_eq_true])
  rw [ExpressionError.unexpectedCharacter.injEq] at heq
  rcases heq with ⟨rfl, rfl⟩
  refine ⟨before, after, rfl, rfl, hblank, ?_, fun others => ?_⟩
  · exact exists_isExpression_append isNumeralChar hzero hparenthesis before stage
      (hcut.tokens_first.symm ▸ hstage)
  · -- Whatever follows, the tokens before the character stay, and so does what it begins.
    have hbetween : CutBetween isNumeralChar before (found :: others) := hcut.between
    have hall := tokens_append isNumeralChar 0 before (found :: others) hbetween
    rw [hcut.tokens_first] at hall
    rcases exists_token_of_head isNumeralChar hclass stage found hblank _ after others token more
      hcut.tokens_rest with ⟨other, behind, hothers, hsame⟩
    rw [hothers] at hall
    exact not_isExpression_of_next? isNumeralChar hclass _ first other behind stage hall hstage
      (hsame.trans hnext)

/-- A text that ends too early is the beginning of an expression, and none itself. -/
theorem unfinished_of_syntaxFault? (hzero : isNumeralChar '0' = true) (text : Text)
    (h : syntaxFault? isNumeralChar text = some .unexpectedEnd) :
    ¬ IsExpression isNumeralChar text ∧ ∃ more, IsExpression isNumeralChar (text ++ more) := by
  have hparenthesis := isLexeme_symbol isNumeralChar hclass ')' (by decide)
  refine ⟨fun hexpression => ?_, ?_⟩
  · rw [isExpression_iff isNumeralChar hclass, h] at hexpression
    exact Option.some_ne_none _ hexpression
  · rcases cases_of_syntaxFault? isNumeralChar hclass text _ h with ⟨habsurd, -⟩ |
      ⟨-, stage, hstage⟩ | ⟨c, before, after, first, token, more, stage, -, habsurd, -⟩
    · exact absurd habsurd (by simp only [reduceCtorEq, not_false_eq_true])
    · exact exists_isExpression_append isNumeralChar hzero hparenthesis text stage hstage
    · exact absurd habsurd (by simp only [reduceCtorEq, not_false_eq_true])

omit hclass in
/-- A text has no tokens exactly if it is blank. -/
theorem tokens_eq_nil_iff (position : Nat) (text : Text) :
    tokens isNumeralChar position text = [] ↔ text.isAllBlank = true := by
  constructor
  · intro hnone
    have hplaced := placed_tokens isNumeralChar position text
    rw [hnone] at hplaced
    cases hplaced with
    | blanks _ _ hblanks => exact List.all_eq_true.2 hblanks
  · intro hblank
    have hskip := tokens_blanks isNumeralChar position text [] (List.all_eq_true.1 hblank)
    rw [List.append_nil] at hskip
    exact hskip

/-- Only a blank text is reported to be empty. -/
theorem isAllBlank_of_syntaxFault? (text : Text)
    (h : syntaxFault? isNumeralChar text = some .empty) : text.isAllBlank = true := by
  rcases cases_of_syntaxFault? isNumeralChar hclass text _ h with ⟨-, hnone⟩ | ⟨habsurd, -⟩ |
    ⟨c, before, after, first, token, more, stage, -, habsurd, -⟩
  · exact (tokens_eq_nil_iff isNumeralChar 0 text).1 hnone
  · exact absurd habsurd (by simp only [reduceCtorEq, not_false_eq_true])
  · exact absurd habsurd (by simp only [reduceCtorEq, not_false_eq_true])

end Text

/-- Whole numbers fail for their numerals, a divisor or their range, and for nothing
    else. -/
theorem failsOnly_integer : integerArithmetic.FailsOnly fun e => ¬ e.IsSyntactic := by
  have hword : ∀ n e, checkedWord n = .error e → ¬ e.IsSyntactic := by
    intro n e h
    unfold checkedWord at h
    split at h
    · exact absurd h (by simp only [reduceCtorEq, not_false_eq_true])
    · exact Except.error.inj h ▸ id
  -- Division and remainder look at the divisor first; the rest only checks the range.
  refine ⟨fun a e => hword _ e, fun a b e => hword _ e, fun a b e => hword _ e,
    fun a b e => hword _ e, fun a b e h => ?_, fun a b e h => ?_⟩
  · simp only [integerArithmetic] at h
    split at h
    · exact Except.error.inj h ▸ id
    · exact hword _ e h
  · simp only [integerArithmetic] at h
    split at h
    · exact Except.error.inj h ▸ id
    · cases hquotient : checkedWord (a.toInt.tdiv b.toInt) with
      | error other =>
          rw [hquotient] at h
          exact Except.error.inj h ▸ hword _ other hquotient
      | ok quotient =>
          rw [hquotient] at h
          exact hword _ e h

theorem numeralsFailOnly_integer (tokens : List Token) :
    NumeralsFailOnly integerArithmetic (fun e => ¬ e.IsSyntactic) tokens := by
  intro token _ digits _ e h
  simp only [integerArithmetic] at h
  split at h
  · exact absurd h (by simp only [reduceCtorEq, not_false_eq_true])
  · exact Except.error.inj h ▸ id

/-- An expression for a whole number is evaluated as its form says. -/
theorem agrees_integer (text : Text) : Agrees (fun e => ¬ e.IsSyntactic)
    (syntaxFault? isDigit text) (Evaluator.arithmetic.integer text) :=
  agrees_evaluate integerArithmetic _ failsOnly_integer text (numeralsFailOnly_integer _)

theorem syntaxFault?_of_integer (text : Text) (e : ExpressionError) (he : e.IsSyntactic)
    (h : Evaluator.arithmetic.integer text = .error e) : syntaxFault? isDigit text = some e := by
  have hagrees := agrees_integer text
  rw [h] at hagrees
  rcases hagrees with hown | hfault
  · exact absurd he hown
  · exact hfault

/-- Faults in the form of an expression for a whole number are located exactly. Blank
    texts are empty. A character is reported at its place if what is before it is the
    beginning of some expression, and with it of none; and the end is reported if only
    more text could make an expression. -/
theorem evaluate_integer_located (text : Text) :
    (Evaluator.arithmetic.integer text = .error .empty ↔ text.isAllBlank = true)
    ∧ (∀ found position,
      Evaluator.arithmetic.integer text = .error (.unexpectedCharacter found position) →
        ∃ before after, text = before ++ found :: after ∧ position = Text.width before
          ∧ isBlank found = false ∧ (∃ more, IsExpression isDigit (before ++ more))
          ∧ ∀ more, ¬ IsExpression isDigit (before ++ found :: more))
    ∧ (Evaluator.arithmetic.integer text = .error .unexpectedEnd →
      ¬ IsExpression isDigit text ∧ ∃ more, IsExpression isDigit (text ++ more)) := by
  refine ⟨⟨fun h => ?_, fun hblank => ?_⟩, fun found position h => ?_, fun h => ?_⟩
  · exact isAllBlank_of_syntaxFault? isDigit isNumeralClass_isDigit text
      (syntaxFault?_of_integer text .empty trivial h)
  · -- A blank text has no tokens, and this is what is looked at first.
    have hnone : tokens integerArithmetic.isNumeralChar 0 text = [] :=
      (tokens_eq_nil_iff isDigit 0 text).2 hblank
    show evaluate integerArithmetic text = .error .empty
    unfold evaluate
    rw [hnone]
  · exact located_of_syntaxFault? isDigit isNumeralClass_isDigit rfl text found position
      (syntaxFault?_of_integer text _ trivial h)
  · exact unfinished_of_syntaxFault? isDigit isNumeralClass_isDigit rfl text
      (syntaxFault?_of_integer text .unexpectedEnd trivial h)

/-- Positions count bytes, so a blank of two bytes moves them by two, and the end is
    missed as long as a parenthesis is open. -/
theorem evaluate_integer_located_samples :
    Evaluator.arithmetic.integer "(1 +\u00a0)".toList = .error (.unexpectedCharacter ')' 6)
    ∧ (∃ before after, "(1 +\u00a0)".toList = before ++ ')' :: after ∧ 6 = Text.width before
      ∧ isBlank ')' = false ∧ (∃ more, IsExpression isDigit (before ++ more))
      ∧ ∀ more, ¬ IsExpression isDigit (before ++ ')' :: more))
    ∧ Evaluator.arithmetic.integer "(1 + 2".toList = .error .unexpectedEnd
    ∧ ¬ IsExpression isDigit "(1 + 2".toList
    ∧ ∃ more, IsExpression isDigit ("(1 + 2".toList ++ more) :=
  ⟨rfl, (evaluate_integer_located _).2.1 ')' 6 rfl, rfl,
    (evaluate_integer_located "(1 + 2".toList).2.2 rfl⟩

end Expression

end FileSignatures
