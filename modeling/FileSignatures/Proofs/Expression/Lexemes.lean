import FileSignatures.Expression.Basic
import Mathlib.Data.List.Chain

/-!
# The tokens of an expression and its text

An expression is written as tokens with blanks around them: before every token and
at the end there may be any, but none inside of a numeral. `Spells` says this without
a word on how a text is cut up. The evaluator cuts it up from the last character to
the first, and joins a numeral character with what follows if that begins right
behind it, so positions decide (`Placed`).

Both agree where they have to. The tokens found in a text always spell it
(`spells_tokens`). Conversely, a text that tokens spell is cut up into just these
(`content_tokens`), provided that no two numerals meet: with nothing between them
they would be a single numeral.

## Main definitions

* `Expression.Spells`: A text consists of tokens, with blanks around them.
* `Expression.IsLexeme`: A token that can be found in a text.
* `Expression.IsNumeralClass`: Numerals are apart from blanks and from symbols.
* `Expression.Placed`: Tokens stand in a text at their positions.

## Theorems

* `tokens_blanks`: Blanks are skipped.
* `tokens_run`: A run of numeral characters is one token.
* `placed_tokens`: The tokens of a text stand at their positions.
* `spells_tokens`: The tokens of a text spell it.
* `content_tokens`: What a text is spelled from is found in it.
* `isLexeme_of_mem_tokens`: What is found in a text is a lexeme.
-/

namespace FileSignatures

/-- The bytes that a text takes up in UTF-8. -/
def Text.width : Text → Nat
  | [] => 0
  | c :: text => Text.byteWidth c + Text.width text

@[simp]
theorem Text.width_nil : Text.width [] = 0 := rfl

@[simp]
theorem Text.width_cons (c : Char) (text : Text) :
    Text.width (c :: text) = Text.byteWidth c + Text.width text := rfl

theorem Text.width_pos (text : Text) (h : text ≠ []) : 0 < Text.width text := by
  cases text with
  | nil => exact absurd rfl h
  | cons c text =>
      rw [Text.width_cons]
      exact Nat.add_pos_left (Char.utf8Size_pos c) _

namespace Expression

/-- The characters of a token. -/
def TokenContent.text : TokenContent → Text
  | .numeral text => text
  | .symbol c => [c]

/-- Tokens, with blanks before each of them and after the last one, make up a
    text. -/
inductive Spells : List TokenContent → Text → Prop
  | blanks (blanks : Text) (hblanks : ∀ c ∈ blanks, isBlank c = true) : Spells [] blanks
  | token (blanks : Text) (content : TokenContent) (contents : List TokenContent) (rest : Text)
      (hblanks : ∀ c ∈ blanks, isBlank c = true) (hrest : Spells contents rest) :
      Spells (content :: contents) (blanks ++ (content.text ++ rest))

/-- Numeral characters are apart from blanks and from the symbols of expressions. -/
structure IsNumeralClass (isNumeralChar : Char → Bool) : Prop where
  not_blank : ∀ c, isNumeralChar c = true → isBlank c = false
  not_symbol : ∀ c ∈ "+-*/%()".toList, isNumeralChar c = false

/-- What none of the symbols of expressions is, tested for all of them at once. -/
theorem eq_false_of_symbols (isOfClass : Char → Bool)
    (h : ("+-*/%()".toList.all fun c => !isOfClass c) = true) :
    ∀ c ∈ "+-*/%()".toList, isOfClass c = false := by
  intro c hc
  have hsymbol := List.all_eq_true.1 h c hc
  rwa [Bool.not_eq_true'] at hsymbol

/-- A token that can be found in a text: numerals are not empty, and symbols are
    neither blanks nor numeral characters. -/
def IsLexeme (isNumeralChar : Char → Bool) : TokenContent → Prop
  | .numeral text => text ≠ [] ∧ ∀ c ∈ text, isNumeralChar c = true
  | .symbol c => isBlank c = false ∧ isNumeralChar c = false

/-- Two tokens that may stand one behind the other: not both are numerals. -/
def MayMeet : TokenContent → TokenContent → Prop
  | .numeral _, .numeral _ => False
  | _, _ => True

/-- Tokens stand in a text that begins at a position. -/
inductive Placed : Nat → List Token → Text → Prop
  | blanks (position : Nat) (blanks : Text) (hblanks : ∀ c ∈ blanks, isBlank c = true) :
      Placed position [] blanks
  | token (position : Nat) (blanks : Text) (content : TokenContent) (more : List Token)
      (rest : Text) (hblanks : ∀ c ∈ blanks, isBlank c = true)
      (hrest : Placed (position + Text.width blanks + Text.width content.text) more rest) :
      Placed position (⟨position + Text.width blanks, content⟩ :: more)
        (blanks ++ (content.text ++ rest))

/-- Tokens that stand in a text spell it. -/
theorem spells_of_placed (position : Nat) (tokens : List Token) (text : Text)
    (h : Placed position tokens text) : Spells (tokens.map Token.content) text := by
  induction h with
  | blanks _ blanks hblanks => exact .blanks blanks hblanks
  | token _ blanks content _ rest hblanks _ ih => exact .token blanks content _ rest hblanks ih

section Text

variable (isNumeralChar : Char → Bool)

/-- A blank in front moves tokens only. -/
theorem placed_blank (position : Nat) (tokens : List Token) (c : Char) (text : Text)
    (hc : isBlank c = true) (h : Placed (position + Text.byteWidth c) tokens text) :
    Placed position tokens (c :: text) := by
  have hall : ∀ blanks : Text, (∀ d ∈ blanks, isBlank d = true) →
      ∀ d ∈ c :: blanks, isBlank d = true := by
    intro blanks hblanks d hd
    rcases List.mem_cons.1 hd with rfl | hd
    · exact hc
    · exact hblanks d hd
  -- The blank joins those that stand there already.
  cases h with
  | blanks _ _ hblanks => exact .blanks position (c :: text) (hall text hblanks)
  | token _ blanks content more rest hblanks hrest =>
      have hwidth : position + Text.byteWidth c + Text.width blanks
          = position + Text.width (c :: blanks) := by
        rw [Text.width_cons, Nat.add_assoc]
      rw [hwidth] at hrest ⊢
      exact .token position (c :: blanks) content more rest (hall blanks hblanks) hrest

/-- A token in front of a text stands where the text begins. -/
theorem placed_cons (position : Nat) (content : TokenContent) (tokens : List Token) (text : Text)
    (h : Placed (position + Text.width content.text) tokens text) :
    Placed position (⟨position, content⟩ :: tokens) (content.text ++ text) :=
  .token position [] content tokens text (fun _ hc => absurd hc List.not_mem_nil) h

/-- A numeral character in front of a text stands where the text begins, by itself or
    together with the numeral that begins right behind it. -/
theorem placed_consNumeral (position : Nat) (tokens : List Token) (c : Char) (text : Text)
    (h : Placed (position + Text.byteWidth c) tokens text) :
    Placed position (consNumeral position c tokens) (c :: text) := by
  have hsingle : Placed position (⟨position, .numeral [c]⟩ :: tokens) (c :: text) :=
    placed_cons position (.numeral [c]) tokens text
      (by simpa only [TokenContent.text, Text.width_cons, Text.width_nil, Nat.add_zero] using h)
  unfold consNumeral
  split
  · rename_i next numeral more
    split
    · rename_i hnext
      cases h with
      | token _ blanks _ _ rest _ hrest =>
          -- The numeral begins at once, so no blanks stand before it.
          have hnone : blanks = [] := by
            by_contra hne
            have hpos := Text.width_pos blanks hne
            omega
          subst hnone
          refine placed_cons position (.numeral (c :: numeral)) more rest ?_
          simp only [TokenContent.text, Text.width_cons, Text.width_nil, Nat.add_zero] at hrest ⊢
          rw [← Nat.add_assoc]
          exact hrest
    · exact hsingle
  · exact hsingle

/-- The tokens of a text stand in it at their positions. -/
theorem placed_tokens (position : Nat) (text : Text) :
    Placed position (tokens isNumeralChar position text) text := by
  induction text generalizing position with
  | nil => exact .blanks position [] fun _ hc => absurd hc List.not_mem_nil
  | cons c text ih =>
      have hrest := ih (position + Text.byteWidth c)
      rw [tokens]
      split
      · rename_i hblank
        exact placed_blank position _ c text hblank hrest
      · split
        · exact placed_consNumeral position _ c text hrest
        · refine placed_cons position (.symbol c) _ text ?_
          simpa only [TokenContent.text, Text.width_cons, Text.width_nil, Nat.add_zero] using hrest

theorem spells_tokens (position : Nat) (text : Text) :
    Spells ((tokens isNumeralChar position text).map Token.content) text :=
  spells_of_placed position _ text (placed_tokens isNumeralChar position text)

/-- A numeral character in front of lexemes makes one more, or a longer one. -/
theorem isLexeme_of_mem_consNumeral (position : Nat) (c : Char) (tokens : List Token)
    (hc : isNumeralChar c = true)
    (htokens : ∀ token ∈ tokens, IsLexeme isNumeralChar token.content) :
    ∀ token ∈ consNumeral position c tokens, IsLexeme isNumeralChar token.content := by
  -- The character alone is a lexeme, which settles the cases where it joins nothing.
  have hsingle : ∀ token ∈ ⟨position, .numeral [c]⟩ :: tokens,
      IsLexeme isNumeralChar token.content := by
    intro token htoken
    rcases List.mem_cons.1 htoken with rfl | htoken
    · exact ⟨List.cons_ne_nil c [], fun d hd => List.mem_singleton.1 hd ▸ hc⟩
    · exact htokens token htoken
  unfold consNumeral
  split
  · rename_i next numeral rest
    split
    · -- It joins the numeral behind it, and the longer text is still one of numeral characters.
      intro token htoken
      rcases List.mem_cons.1 htoken with rfl | htoken
      · refine ⟨List.cons_ne_nil c numeral, fun d hd => ?_⟩
        rcases List.mem_cons.1 hd with rfl | hd
        · exact hc
        · exact (htokens _ List.mem_cons_self).2 d hd
      · exact htokens token (List.mem_cons_of_mem _ htoken)
    · exact hsingle
  · exact hsingle

/-- What is found in a text is a lexeme. -/
theorem isLexeme_of_mem_tokens (position : Nat) (text : Text) :
    ∀ token ∈ tokens isNumeralChar position text, IsLexeme isNumeralChar token.content := by
  induction text generalizing position with
  | nil => exact fun _ h => absurd h List.not_mem_nil
  | cons c text ih =>
      have hmore := ih (position + Text.byteWidth c)
      rw [tokens]
      by_cases hblank : isBlank c = true
      · rw [if_pos hblank]
        exact hmore
      · rw [if_neg hblank]
        by_cases hnumeral : isNumeralChar c = true
        · rw [if_pos hnumeral]
          exact isLexeme_of_mem_consNumeral isNumeralChar position c _ hnumeral hmore
        · rw [if_neg hnumeral]
          intro token htoken
          rcases List.mem_cons.1 htoken with rfl | htoken
          · exact ⟨Bool.eq_false_iff.2 hblank, Bool.eq_false_iff.2 hnumeral⟩
          · exact hmore token htoken

theorem tokens_blanks (position : Nat) (blanks rest : Text)
    (hblanks : ∀ c ∈ blanks, isBlank c = true) :
    tokens isNumeralChar position (blanks ++ rest)
      = tokens isNumeralChar (position + Text.width blanks) rest := by
  induction blanks generalizing position with
  | nil => rfl
  | cons c blanks ih =>
      rw [List.cons_append, tokens]
      rw [if_pos (hblanks c List.mem_cons_self),
        ih _ fun d hd => hblanks d (List.mem_cons_of_mem _ hd), Text.width_cons, Nat.add_assoc]

/-- No token stands before the text that it is found in. -/
theorem le_position_of_placed (position : Nat) (token : Token) (more : List Token) (text : Text)
    (h : Placed position (token :: more) text) : position ≤ token.position := by
  cases h with
  | token _ blanks _ _ _ _ _ => exact Nat.le_add_right position _

/-- A numeral character joins nothing in a text that begins with none: a numeral in
    there has a blank or a symbol before it. -/
theorem consNumeral_tokens (position : Nat) (c : Char) (rest : Text)
    (hrest : ∀ d more, rest = d :: more → isNumeralChar d = false) :
    consNumeral position c (tokens isNumeralChar (position + Text.byteWidth c) rest)
      = ⟨position, .numeral [c]⟩ :: tokens isNumeralChar (position + Text.byteWidth c) rest := by
  cases rest with
  | nil => rfl
  | cons d more =>
      have hd := hrest d more rfl
      rw [tokens]
      by_cases hblank : isBlank d = true
      · rw [if_pos hblank]
        -- A numeral behind the blank does not begin where this character ends.
        have hplaced := placed_tokens isNumeralChar
          (position + Text.byteWidth c + Text.byteWidth d) more
        unfold consNumeral
        split
        · rename_i next numeral others htokens
          rw [htokens] at hplaced
          have hle := le_position_of_placed _ _ _ _ hplaced
          have hpos : 0 < Text.byteWidth d := Char.utf8Size_pos d
          simp only at hle
          rw [if_neg (by omega)]
        · rfl
      · rw [if_neg hblank, if_neg (by rw [hd]; exact Bool.false_ne_true)]
        rfl

/-- A run of numeral characters is one token, if no further one follows. -/
theorem tokens_run (hclass : IsNumeralClass isNumeralChar) (position : Nat) (text rest : Text)
    (hne : text ≠ []) (htext : ∀ c ∈ text, isNumeralChar c = true)
    (hrest : ∀ d more, rest = d :: more → isNumeralChar d = false) :
    tokens isNumeralChar position (text ++ rest) = ⟨position, .numeral text⟩
      :: tokens isNumeralChar (position + Text.width text) rest := by
  induction text generalizing position with
  | nil => exact absurd rfl hne
  | cons c text ih =>
      have hc := htext c List.mem_cons_self
      rw [List.cons_append, tokens]
      rw [if_neg (by rw [hclass.not_blank c hc]; exact Bool.false_ne_true), if_pos hc]
      cases text with
      | nil =>
          rw [List.nil_append, consNumeral_tokens isNumeralChar position c rest hrest,
            Text.width_cons, Text.width_nil, Nat.add_zero]
      | cons d text =>
          -- The rest of the run is a token that begins right behind the first character.
          rw [ih (position + Text.byteWidth c) (List.cons_ne_nil d text)
            fun e he => htext e (List.mem_cons_of_mem _ he)]
          unfold consNumeral
          simp only [if_true, Text.width_cons, Nat.add_assoc]

theorem tokens_symbol (position : Nat) (c : Char) (rest : Text)
    (hc : IsLexeme isNumeralChar (.symbol c)) : tokens isNumeralChar position (c :: rest)
      = ⟨position, .symbol c⟩ :: tokens isNumeralChar (position + Text.byteWidth c) rest := by
  rw [tokens]
  rw [if_neg (by rw [hc.1]; exact Bool.false_ne_true),
    if_neg (by rw [hc.2]; exact Bool.false_ne_true)]

/-- What follows a numeral does not begin with a numeral character. -/
theorem head_of_spells (hclass : IsNumeralClass isNumeralChar) (numeral : Text)
    (contents : List TokenContent) (rest : Text)
    (hlexemes : ∀ content ∈ contents, IsLexeme isNumeralChar content)
    (hmeet : ∀ content ∈ contents.head?, MayMeet (.numeral numeral) content)
    (h : Spells contents rest) (d : Char) (more : Text) (hrest : rest = d :: more) :
    isNumeralChar d = false := by
  have hblank : isBlank d = true → isNumeralChar d = false := by
    intro hd
    by_contra hne
    rw [Bool.not_eq_false] at hne
    rw [hclass.not_blank d hne] at hd
    exact Bool.false_ne_true hd
  -- Blanks are not numeral characters, and a token with no blank before it is a symbol.
  cases h with
  | blanks _ hblanks => exact hblank (hblanks d (by rw [hrest]; exact List.mem_cons_self))
  | token blanks content contents rest hblanks _ =>
      cases blanks with
      | cons b blanks =>
          rw [List.cons_append, List.cons.injEq] at hrest
          exact hblank (hrest.1 ▸ hblanks b List.mem_cons_self)
      | nil =>
          cases content with
          | numeral other => exact absurd (hmeet (.numeral other) rfl) id
          | symbol c =>
              have hc := hlexemes (.symbol c) List.mem_cons_self
              rw [List.nil_append, TokenContent.text, List.cons_append, List.cons.injEq] at hrest
              rw [← hrest.1]
              exact hc.2

/-- A text is cut up into the lexemes that it is spelled from, if no two numerals
    stand one behind the other. -/
theorem content_tokens (hclass : IsNumeralClass isNumeralChar) (contents : List TokenContent)
    (text : Text) (hlexemes : ∀ content ∈ contents, IsLexeme isNumeralChar content)
    (hmeet : contents.IsChain MayMeet) (h : Spells contents text) (position : Nat) :
    (tokens isNumeralChar position text).map Token.content = contents := by
  induction h generalizing position with
  | blanks blanks hblanks =>
      have hskip := tokens_blanks isNumeralChar position blanks [] hblanks
      rw [List.append_nil] at hskip
      rw [hskip]
      rfl
  | token blanks content contents rest hblanks hrest ih =>
      have hmore : ∀ other ∈ contents, IsLexeme isNumeralChar other :=
        fun other hother => hlexemes other (List.mem_cons_of_mem _ hother)
      have hcontent := hlexemes content List.mem_cons_self
      rcases List.isChain_cons.1 hmeet with ⟨hhead, htail⟩
      rw [tokens_blanks isNumeralChar position blanks _ hblanks]
      -- The run of a numeral ends where its text does, as no numeral follows.
      cases content with
      | numeral numeral =>
          have hnext := head_of_spells isNumeralChar hclass numeral contents rest hmore hhead hrest
          rw [TokenContent.text,
            tokens_run isNumeralChar hclass _ numeral rest hcontent.1 hcontent.2 hnext,
            List.map_cons, ih hmore htail]
      | symbol c =>
          rw [TokenContent.text, List.singleton_append,
            tokens_symbol isNumeralChar _ c rest hcontent, List.map_cons, ih hmore htail]

end Text

end Expression

end FileSignatures
