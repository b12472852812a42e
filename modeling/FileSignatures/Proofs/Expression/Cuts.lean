import FileSignatures.Proofs.Expression.Lexemes

/-!
# Where an expression can be cut

A text is cut up into tokens from its end, so what its beginning is cut up into could
depend on all that follows. It does so at one place only: a numeral goes on as long as
numeral characters follow. Wherever no numeral goes on, a text can be cut, and both
parts have the tokens that they have in the whole (`tokens_append`).

Before every token there is such a cut (`cutsFrom`), and the position of the token is
the width of what has been cut off. So what is known of the tokens before a certain one
can be said of the text before its position, whatever is put in the place of the rest.

## Main definitions

* `Expression.CutBetween`: No numeral goes on from one text into the next one.
* `Expression.IsCut`: A text is cut before a token.
* `Expression.CutsFrom`: A text can be cut before each of its tokens.

## Theorems

* `tokens_append`: A text that is cut has the tokens of both parts.
* `tokens_numeral`: A numeral character begins a numeral.
* `cutsFrom`: Before every token a text can be cut.
* `spells_append`: Texts one behind the other are spelled from the tokens of both.
-/

namespace FileSignatures

namespace Expression

section Text

variable (isNumeralChar : Char → Bool)

/-- A token stands behind blanks, where its position says. -/
theorem text_of_placed (position : Nat) (token : Token) (more : List Token) (text : Text)
    (h : Placed position (token :: more) text) :
    ∃ blanks rest, text = blanks ++ (token.content.text ++ rest)
      ∧ token.position = position + Text.width blanks := by
  cases h with
  | token _ blanks _ _ rest _ _ => exact ⟨blanks, rest, rfl, rfl⟩

/-- A token at the beginning of a text is the beginning of the text. -/
theorem text_of_tokens (position : Nat) (token : Token) (more : List Token) (text : Text)
    (h : tokens isNumeralChar position text = token :: more)
    (hposition : token.position = position) : ∃ rest, text = token.content.text ++ rest := by
  have hplaced := placed_tokens isNumeralChar position text
  rw [h] at hplaced
  rcases text_of_placed position token more text hplaced with ⟨blanks, rest, htext, hblanks⟩
  have hnone : blanks = [] := by
    by_contra hne
    have hpos := Text.width_pos blanks hne
    omega
  rw [hnone, List.nil_append] at htext
  exact ⟨rest, htext⟩

/-- No numeral goes on from the end of one text into the next one. -/
def CutBetween (before rest : Text) : Prop :=
  ∀ c ∈ before.getLast?, ∀ d ∈ rest.head?, isNumeralChar c = true → isNumeralChar d = false

theorem cutBetween_of_cons (c : Char) (before rest : Text)
    (h : CutBetween isNumeralChar (c :: before) rest) : CutBetween isNumeralChar before rest := by
  intro last hlast
  refine h last ?_
  rw [List.getLast?_cons, Option.mem_def.1 hlast]
  rfl

/-- A numeral character joins a numeral that begins right behind it, or nothing. -/
theorem consNumeral_cases (position : Nat) (c : Char) (tokens : List Token) :
    (∃ text rest, tokens = ⟨position + Text.byteWidth c, .numeral text⟩ :: rest
      ∧ consNumeral position c tokens = ⟨position, .numeral (c :: text)⟩ :: rest)
    ∨ ((∀ text rest, tokens ≠ ⟨position + Text.byteWidth c, .numeral text⟩ :: rest)
      ∧ consNumeral position c tokens = ⟨position, .numeral [c]⟩ :: tokens) := by
  unfold consNumeral
  split
  · rename_i next text rest
    split
    · rename_i hnext
      exact Or.inl ⟨text, rest, by rw [hnext], rfl⟩
    · rename_i hnext
      refine Or.inr ⟨fun other more heq => hnext ?_, rfl⟩
      rw [List.cons.injEq, Token.mk.injEq] at heq
      exact heq.1.1
  · rename_i hnone
    exact Or.inr ⟨fun text rest heq => hnone _ text rest heq, rfl⟩

/-- Whether it joins something depends on the next token only. -/
theorem consNumeral_append (position : Nat) (c : Char) (tokens more : List Token)
    (h : tokens ≠ []) : consNumeral position c (tokens ++ more)
      = consNumeral position c tokens ++ more := by
  cases tokens with
  | nil => exact absurd rfl h
  | cons token rest =>
      rcases token with ⟨next, content⟩
      cases content with
      | symbol d => rfl
      | numeral text =>
          simp only [consNumeral, List.cons_append]
          split <;> rfl

/-- A text that is cut where no numeral goes on has the tokens of both parts. -/
theorem tokens_append (position : Nat) (before rest : Text)
    (hcut : CutBetween isNumeralChar before rest) :
    tokens isNumeralChar position (before ++ rest) = tokens isNumeralChar position before
      ++ tokens isNumeralChar (position + Text.width before) rest := by
  induction before generalizing position with
  | nil => rfl
  | cons c before ih =>
      have hmore := ih (position + Text.byteWidth c)
        (cutBetween_of_cons isNumeralChar c before rest hcut)
      rw [Nat.add_assoc, ← Text.width_cons] at hmore
      rw [List.cons_append, tokens, tokens, hmore]
      split
      · rfl
      · split
        · rename_i hnumeral
          by_cases hnone : tokens isNumeralChar (position + Text.byteWidth c) before = []
          · rw [hnone, List.nil_append]
            rcases consNumeral_cases position c
              (tokens isNumeralChar (position + Text.width (c :: before)) rest) with
              ⟨text, others, hjoined, -⟩ | ⟨-, hsingle⟩
            · -- A numeral of the rest that begins right behind the character would go on.
              have hplaced := placed_tokens isNumeralChar
                (position + Text.width (c :: before)) rest
              rw [hjoined] at hplaced
              have hle := le_position_of_placed _ _ _ _ hplaced
              simp only [Text.width_cons] at hle
              have hbefore : before = [] := by
                by_contra hne
                have hpos := Text.width_pos before hne
                omega
              subst hbefore
              rcases text_of_tokens isNumeralChar _ _ others rest hjoined rfl with ⟨more, hrest⟩
              have hlexeme := isLexeme_of_mem_tokens isNumeralChar _ rest
                ⟨_, .numeral text⟩ (by rw [hjoined]; exact List.mem_cons_self)
              rcases List.exists_cons_of_ne_nil hlexeme.1 with ⟨d, digits, rfl⟩
              have hd := hlexeme.2 d List.mem_cons_self
              rw [hcut c rfl d (by rw [hrest]; rfl) hnumeral] at hd
              exact absurd hd Bool.false_ne_true
            · exact hsingle
          · exact consNumeral_append position c _ _ hnone
        · rfl

/-- A text that begins with a numeral character begins with a numeral. -/
theorem tokens_numeral (hclass : IsNumeralClass isNumeralChar) (position : Nat) (c : Char)
    (text : Text) (hc : isNumeralChar c = true) : ∃ digits more,
      tokens isNumeralChar position (c :: text) = ⟨position, .numeral (c :: digits)⟩ :: more := by
  have hblank : ¬ isBlank c = true := by
    rw [hclass.not_blank c hc]
    exact Bool.false_ne_true
  rw [tokens, if_neg hblank, if_pos hc]
  rcases consNumeral_cases position c (tokens isNumeralChar (position + Text.byteWidth c) text) with
    ⟨digits, more, -, hjoined⟩ | ⟨-, hsingle⟩
  · exact ⟨digits, more, hjoined⟩
  · exact ⟨[], _, hsingle⟩

/-- A text that begins at a position is cut before a token: the first part has the tokens
    before this one, and the token stands where the rest begins. -/
structure IsCut (position : Nat) (first rest : Text) (before : List Token) (token : Token)
    (more : List Token) : Prop where
  between : CutBetween isNumeralChar first rest
  tokens_first : tokens isNumeralChar position first = before
  tokens_rest : tokens isNumeralChar (position + Text.width first) rest = token :: more
  position_eq : token.position = position + Text.width first

/-- One more character in front of the first part, which does not join the rest. -/
theorem isCut_cons (position : Nat) (c : Char) (first rest : Text) (before longer : List Token)
    (token : Token) (more : List Token)
    (h : IsCut isNumeralChar (position + Text.byteWidth c) first rest before token more)
    (hlonger : tokens isNumeralChar position (c :: first) = longer)
    (hc : first = [] → ∀ d ∈ rest.head?, isNumeralChar c = true → isNumeralChar d = false) :
    IsCut isNumeralChar position (c :: first) rest longer token more := by
  have hwidth : position + Text.byteWidth c + Text.width first
      = position + Text.width (c :: first) := by
    rw [Text.width_cons, Nat.add_assoc]
  refine ⟨?_, hlonger, hwidth ▸ h.tokens_rest, hwidth ▸ h.position_eq⟩
  intro last hlast d hd hnumeral
  -- The last character is the new one if there is no other.
  cases first with
  | nil =>
      rw [List.getLast?_singleton, Option.mem_some_iff] at hlast
      exact hc rfl d hd (hlast ▸ hnumeral)
  | cons b first =>
      rw [List.getLast?_cons_cons] at hlast
      exact h.between last hlast d hd hnumeral

/-- A text that begins at a position can be cut before each of its tokens. -/
def CutsFrom (position : Nat) (text : Text) : Prop :=
  ∀ before token more, tokens isNumeralChar position text = before ++ token :: more →
    ∃ first rest, text = first ++ rest ∧ IsCut isNumeralChar position first rest before token more

section Cons

variable (hclass : IsNumeralClass isNumeralChar) (position : Nat) (c : Char) (text : Text)

/-- Before the first token, if it stands at the beginning, there is nothing to cut off. -/
theorem isCut_nil (token : Token) (more : List Token)
    (h : tokens isNumeralChar position text = token :: more)
    (hposition : token.position = position) :
    IsCut isNumeralChar position [] text [] token more :=
  ⟨fun _ hlast => absurd hlast (Option.not_mem_none _), rfl, h, hposition⟩

variable (htext : CutsFrom isNumeralChar (position + Text.byteWidth c) text)

include hclass htext

theorem cutsFrom_blank (hc : isBlank c = true) : CutsFrom isNumeralChar position (c :: text) := by
  have hskip : ∀ rest, tokens isNumeralChar position (c :: rest)
      = tokens isNumeralChar (position + Text.byteWidth c) rest := fun rest => by
    rw [tokens, if_pos hc]
  intro before token more h
  rw [hskip] at h
  rcases htext before token more h with ⟨first, rest, rfl, hcut⟩
  refine ⟨c :: first, rest, rfl, isCut_cons isNumeralChar position c first rest before before
    token more hcut ((hskip first).trans hcut.tokens_first) fun _ _ _ hnumeral => ?_⟩
  rw [hclass.not_blank c hnumeral] at hc
  exact absurd hc Bool.false_ne_true

omit hclass in
theorem cutsFrom_symbol (hc : IsLexeme isNumeralChar (.symbol c)) :
    CutsFrom isNumeralChar position (c :: text) := by
  intro before token more h
  -- The cut lies in front of the symbol, or within the text behind it.
  cases before with
  | nil =>
      refine ⟨[], c :: text, rfl, isCut_nil isNumeralChar position _ token more h ?_⟩
      rw [tokens_symbol isNumeralChar position c text hc, List.nil_append, List.cons.injEq] at h
      rw [← h.1]
  | cons head before =>
      rw [tokens_symbol isNumeralChar position c text hc, List.cons_append, List.cons.injEq] at h
      rcases h with ⟨rfl, h⟩
      rcases htext before token more h with ⟨first, rest, rfl, hcut⟩
      refine ⟨c :: first, rest, rfl, isCut_cons isNumeralChar position c first rest before _
        token more hcut ?_ fun _ _ _ hnumeral => ?_⟩
      · rw [tokens_symbol isNumeralChar position c first hc, hcut.tokens_first]
      · rw [hc.2] at hnumeral
        exact absurd hnumeral Bool.false_ne_true

/-- A numeral character may belong to a numeral behind it, which is then before the cut
    as a whole. -/
theorem cutsFrom_numeral (hc : isNumeralChar c = true) :
    CutsFrom isNumeralChar position (c :: text) := by
  have hjoin : ∀ rest, tokens isNumeralChar position (c :: rest) = consNumeral position c
      (tokens isNumeralChar (position + Text.byteWidth c) rest) := fun rest => by
    have hblank : ¬ isBlank c = true := by
      rw [hclass.not_blank c hc]
      exact Bool.false_ne_true
    rw [tokens, if_neg hblank, if_pos hc]
  intro before token more h
  cases before with
  | nil =>
      refine ⟨[], c :: text, rfl, isCut_nil isNumeralChar position _ token more h ?_⟩
      rcases tokens_numeral isNumeralChar hclass position c text hc with ⟨digits, others, hfirst⟩
      rw [hfirst, List.nil_append, List.cons.injEq] at h
      rw [← h.1]
  | cons head before =>
      rw [hjoin] at h
      rcases consNumeral_cases position c
        (tokens isNumeralChar (position + Text.byteWidth c) text) with
        ⟨digits, others, hbehind, hjoined⟩ | ⟨hnone, hsingle⟩
      · rw [hjoined, List.cons_append, List.cons.injEq] at h
        rcases h with ⟨rfl, rfl⟩
        rcases htext (_ :: before) token more hbehind with ⟨first, rest, rfl, hcut⟩
        refine ⟨c :: first, rest, rfl, isCut_cons isNumeralChar position c first rest _ _ token
          more hcut ?_ fun hnil => ?_⟩
        · rw [hjoin, hcut.tokens_first, consNumeral, if_pos rfl]
        · have hfirst := hcut.tokens_first
          rw [hnil, tokens] at hfirst
          exact absurd hfirst.symm (List.cons_ne_nil _ _)
      · rw [hsingle, List.cons_append, List.cons.injEq] at h
        rcases h with ⟨rfl, hbehind⟩
        rw [hbehind] at hnone
        rcases htext before token more hbehind with ⟨first, rest, rfl, hcut⟩
        refine ⟨c :: first, rest, rfl, isCut_cons isNumeralChar position c first rest _ _ token
          more hcut ?_ fun hnil d hd _ => ?_⟩
        · rw [hjoin, hcut.tokens_first]
          rcases consNumeral_cases position c before with
            ⟨digits, others, rfl, -⟩ | ⟨-, hbefore⟩
          · exact absurd rfl (hnone digits (others ++ token :: more))
          · exact hbefore
        · -- With nothing between them, a numeral behind the cut would have been joined.
          subst hnil
          rcases List.head?_eq_some_iff.1 hd with ⟨others, rfl⟩
          by_contra hnumeral
          rw [Bool.not_eq_false] at hnumeral
          rcases tokens_numeral isNumeralChar hclass (position + Text.byteWidth c) d others hnumeral
            with ⟨digits, behind, hfirst⟩
          rw [List.nil_append] at hbehind
          rw [hfirst] at hbehind
          exact hnone (d :: digits) _ hbehind.symm

end Cons

/-- Before every token a text can be cut. -/
theorem cutsFrom (hclass : IsNumeralClass isNumeralChar) (position : Nat) (text : Text) :
    CutsFrom isNumeralChar position text := by
  induction text generalizing position with
  | nil =>
      intro before token more h
      exact absurd h.symm (List.append_ne_nil_of_right_ne_nil _ (List.cons_ne_nil _ _))
  | cons c text ih =>
      have htext := ih (position + Text.byteWidth c)
      by_cases hblank : isBlank c = true
      · exact cutsFrom_blank isNumeralChar hclass position c text htext hblank
      · by_cases hnumeral : isNumeralChar c = true
        · exact cutsFrom_numeral isNumeralChar hclass position c text htext hnumeral
        · exact cutsFrom_symbol isNumeralChar position c text htext
            ⟨Bool.eq_false_iff.2 hblank, Bool.eq_false_iff.2 hnumeral⟩

end Text

/-- Texts one behind the other are spelled from the tokens of both. The blanks at the
    end of the first one are before the first token of the second one. -/
theorem spells_append (first second : List TokenContent) (s t : Text) (hfirst : Spells first s)
    (hsecond : Spells second t) : Spells (first ++ second) (s ++ t) := by
  induction hfirst with
  | blanks blanks hblanks =>
      -- Blanks at the end of the first text are joined to those before the next token.
      have hall : ∀ others : Text, (∀ c ∈ others, isBlank c = true) →
          ∀ c ∈ blanks ++ others, isBlank c = true := by
        intro others hothers c hc
        rcases List.mem_append.1 hc with hc | hc
        · exact hblanks c hc
        · exact hothers c hc
      cases hsecond with
      | blanks _ hothers => exact .blanks (blanks ++ t) (hall t hothers)
      | token others content contents rest hothers hrest =>
          rw [← List.append_assoc]
          exact .token (blanks ++ others) content contents rest (hall others hothers) hrest
  | token blanks content contents rest hblanks _ ih =>
      rw [List.append_assoc, List.append_assoc]
      exact .token blanks content (contents ++ second) (rest ++ t) hblanks ih

end Expression

end FileSignatures
