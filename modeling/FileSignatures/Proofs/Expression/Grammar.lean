import FileSignatures.Proofs.Expression.Lexemes

/-!
# The grammar of expressions

What an expression means is said by a tree, whose value in a number domain is that of
its operands, from the left to the right, and then of its operator. Which texts write
which trees is said by a grammar over tokens,

    sum     := product (('+' | '-') product)*
    product := signed (('*' | '/' | '%') signed)*
    signed  := ('+' | '-') signed | atom
    atom    := numeral | '(' sum ')'

together with the blanks that may stand around tokens (`Spells`). A repetition is a
recursion on the left here, so that operators associate to the left: what has been
read so far is the left operand of the operator that follows.

Parentheses leave no trace in a tree. They may stand around every part, so a tree is
written by many texts, and every tree is written by some (`writes_text`).

## Main definitions

* `Expression.Tree`: What an expression is made up of.
* `Expression.Tree.evaluate`: The value of a tree in a number domain.
* `Expression.Tree.AllNumerals`: Something is true of all numerals of a tree.
* `Expression.Derives`: The grammar, on tokens.
* `Expression.Writes`: A text writes a tree.
* `Expression.Tree.text`: A text with parentheses around every operand.

## Theorems

* `isLexeme_of_derives`, `mayMeet_of_derives`: Derived tokens can be found in a text.
* `hasNumerals_of_derives`: The numerals of a tree are those of its tokens.
* `writes_iff`: A text writes what its tokens derive.
* `writes_text`: Every tree with proper numerals is written by a text.
-/

namespace FileSignatures

namespace Expression

/-- The signs that may stand before an operand. -/
inductive Sign where
  | plus
  | minus
  deriving DecidableEq

/-- The character of a sign. -/
def Sign.symbol : Sign → Char
  | plus => '+'
  | minus => '-'

/-- The character of an operator of a sum. -/
def SumOperator.symbol : SumOperator → Char
  | add => '+'
  | subtract => '-'

/-- The character of an operator of a product. -/
def ProductOperator.symbol : ProductOperator → Char
  | multiply => '*'
  | divide => '/'
  | remainder => '%'

/-- What an expression is made up of. -/
inductive Tree where
  | numeral (digits : Text)
  | signed (sign : Sign) (operand : Tree)
  | sum (left : Tree) (operator : SumOperator) (right : Tree)
  | product (left : Tree) (operator : ProductOperator) (right : Tree)
  deriving DecidableEq

namespace Tree

/-- The value of a tree in a number domain: that of the left operand first, then that
    of the right one, then the operation. The first fault counts. -/
def evaluate {α : Type} (A : Arithmetic α) : Tree → Except ExpressionError α
  | numeral digits => A.numeral digits
  | signed .plus operand => operand.evaluate A
  | signed .minus operand => do
    let v ← operand.evaluate A
    A.negate v
  | sum left operator right => do
    let u ← left.evaluate A
    let v ← right.evaluate A
    match operator with
    | .add => A.add u v
    | .subtract => A.subtract u v
  | product left operator right => do
    let u ← left.evaluate A
    let v ← right.evaluate A
    match operator with
    | .multiply => A.multiply u v
    | .divide => A.divide u v
    | .remainder => A.remainder u v

/-- Something is true of all numerals of a tree. -/
def AllNumerals (P : Text → Prop) : Tree → Prop
  | numeral digits => P digits
  | signed _ operand => operand.AllNumerals P
  | sum left _ right => left.AllNumerals P ∧ right.AllNumerals P
  | product left _ right => left.AllNumerals P ∧ right.AllNumerals P

instance AllNumerals.decidable (P : Text → Prop) [DecidablePred P] :
    (tree : Tree) → Decidable (tree.AllNumerals P)
  | numeral digits => inferInstanceAs (Decidable (P digits))
  | signed _ operand => AllNumerals.decidable P operand
  | sum left _ right | product left _ right =>
    have := AllNumerals.decidable P left
    have := AllNumerals.decidable P right
    inferInstanceAs (Decidable (_ ∧ _))

/-- Whether all numerals of a tree are non-empty runs of numeral characters. -/
def HasNumerals (isNumeralChar : Char → Bool) (tree : Tree) : Prop :=
  tree.AllNumerals fun digits => digits ≠ [] ∧ ∀ c ∈ digits, isNumeralChar c = true

end Tree

/-- The parts of the grammar. -/
inductive Part where
  | sum
  | product
  | signed
  | atom
  deriving DecidableEq

/-- Tokens are derived from a part of the grammar, and a tree says how. -/
inductive Derives (isNumeralChar : Char → Bool) : Part → List TokenContent → Tree → Prop
  | sum (contents : List TokenContent) (tree : Tree)
      (h : Derives isNumeralChar .product contents tree) : Derives isNumeralChar .sum contents tree
  | moreSum (before contents : List TokenContent) (left right : Tree) (operator : SumOperator)
      (hleft : Derives isNumeralChar .sum before left)
      (hright : Derives isNumeralChar .product contents right) :
      Derives isNumeralChar .sum (before ++ .symbol operator.symbol :: contents)
        (.sum left operator right)
  | product (contents : List TokenContent) (tree : Tree)
      (h : Derives isNumeralChar .signed contents tree) :
      Derives isNumeralChar .product contents tree
  | moreProduct (before contents : List TokenContent) (left right : Tree)
      (operator : ProductOperator)
      (hleft : Derives isNumeralChar .product before left)
      (hright : Derives isNumeralChar .signed contents right) :
      Derives isNumeralChar .product (before ++ .symbol operator.symbol :: contents)
        (.product left operator right)
  | sign (sign : Sign) (contents : List TokenContent) (operand : Tree)
      (h : Derives isNumeralChar .signed contents operand) :
      Derives isNumeralChar .signed (.symbol sign.symbol :: contents) (.signed sign operand)
  | unsigned (contents : List TokenContent) (tree : Tree)
      (h : Derives isNumeralChar .atom contents tree) :
      Derives isNumeralChar .signed contents tree
  | numeral (digits : Text) (hne : digits ≠ []) (h : ∀ c ∈ digits, isNumeralChar c = true) :
      Derives isNumeralChar .atom [.numeral digits] (.numeral digits)
  | parenthesized (contents : List TokenContent) (tree : Tree)
      (h : Derives isNumeralChar .sum contents tree) :
      Derives isNumeralChar .atom (.symbol '(' :: contents ++ [.symbol ')']) tree

/-- A text writes a tree: it is spelled from tokens that the grammar derives. -/
def Writes (isNumeralChar : Char → Bool) (text : Text) (tree : Tree) : Prop :=
  ∃ contents, Spells contents text ∧ Derives isNumeralChar .sum contents tree

section Derived

variable (isNumeralChar : Char → Bool)

theorem isLexeme_symbol (hclass : IsNumeralClass isNumeralChar) (c : Char)
    (hc : c ∈ "+-*/%()".toList) : IsLexeme isNumeralChar (.symbol c) :=
  ⟨eq_false_of_symbols isBlank (by decide) c hc, hclass.not_symbol c hc⟩

theorem symbol_mem_of_sign (sign : Sign) : sign.symbol ∈ "+-*/%()".toList := by
  cases sign <;> decide

theorem symbol_mem_of_sumOperator (operator : SumOperator) :
    operator.symbol ∈ "+-*/%()".toList := by
  cases operator <;> decide

theorem symbol_mem_of_productOperator (operator : ProductOperator) :
    operator.symbol ∈ "+-*/%()".toList := by
  cases operator <;> decide

/-- Lexemes with a symbol of expressions between them are lexemes. -/
theorem isLexeme_append_symbol (hclass : IsNumeralClass isNumeralChar)
    (before after : List TokenContent) (c : Char) (hc : c ∈ "+-*/%()".toList)
    (hbefore : ∀ content ∈ before, IsLexeme isNumeralChar content)
    (hafter : ∀ content ∈ after, IsLexeme isNumeralChar content) :
    ∀ content ∈ before ++ .symbol c :: after, IsLexeme isNumeralChar content := by
  intro content hcontent
  rcases List.mem_append.1 hcontent with hmem | hmem
  · exact hbefore content hmem
  · rcases List.mem_cons.1 hmem with rfl | hmem
    · exact isLexeme_symbol isNumeralChar hclass c hc
    · exact hafter content hmem

theorem isLexeme_of_derives (hclass : IsNumeralClass isNumeralChar) (part : Part)
    (contents : List TokenContent) (tree : Tree) (h : Derives isNumeralChar part contents tree) :
    ∀ content ∈ contents, IsLexeme isNumeralChar content := by
  have happend := isLexeme_append_symbol isNumeralChar hclass
  have hnone : ∀ content ∈ ([] : List TokenContent), IsLexeme isNumeralChar content :=
    fun _ hmem => absurd hmem List.not_mem_nil
  -- Each part is put together from smaller ones with single symbols between them.
  induction h with
  | sum _ _ _ ih => exact ih
  | product _ _ _ ih => exact ih
  | unsigned _ _ _ ih => exact ih
  | moreSum before contents _ _ operator _ _ ihleft ihright =>
      exact happend before contents _ (symbol_mem_of_sumOperator operator) ihleft ihright
  | moreProduct before contents _ _ operator _ _ ihleft ihright =>
      exact happend before contents _ (symbol_mem_of_productOperator operator) ihleft ihright
  | sign sign contents _ _ ih =>
      exact happend [] contents _ (symbol_mem_of_sign sign) hnone ih
  | numeral digits hne hdigits =>
      intro content hcontent
      rw [List.mem_singleton.1 hcontent]
      exact ⟨hne, hdigits⟩
  | parenthesized contents _ _ ih =>
      exact happend (.symbol '(' :: contents) [] ')' (by decide)
        (happend [] contents '(' (by decide) hnone ih) hnone

theorem mayMeet_symbol_left (c : Char) (content : TokenContent) :
    MayMeet (.symbol c) content := by
  cases content <;> exact trivial

theorem mayMeet_symbol_right (content : TokenContent) (c : Char) :
    MayMeet content (.symbol c) := by
  cases content <;> exact trivial

/-- Tokens with a symbol between them may meet if they may on both sides of it. -/
theorem isChain_append_symbol (before after : List TokenContent) (c : Char)
    (hbefore : before.IsChain MayMeet) (hafter : after.IsChain MayMeet) :
    (before ++ .symbol c :: after).IsChain MayMeet := by
  refine List.isChain_append.2 ⟨hbefore, List.isChain_cons.2 ⟨?_, hafter⟩, ?_⟩
  · exact fun content _ => mayMeet_symbol_left c content
  · intro content _ next hnext
    rw [List.head?_cons, Option.mem_some_iff] at hnext
    rw [← hnext]
    exact mayMeet_symbol_right content c

/-- The grammar puts a symbol between any two numerals. -/
theorem mayMeet_of_derives (part : Part) (contents : List TokenContent) (tree : Tree)
    (h : Derives isNumeralChar part contents tree) : contents.IsChain MayMeet := by
  induction h with
  | sum _ _ _ ih => exact ih
  | product _ _ _ ih => exact ih
  | unsigned _ _ _ ih => exact ih
  | moreSum before contents _ _ operator _ _ ihleft ihright =>
      exact isChain_append_symbol before contents operator.symbol ihleft ihright
  | moreProduct before contents _ _ operator _ _ ihleft ihright =>
      exact isChain_append_symbol before contents operator.symbol ihleft ihright
  | sign sign contents _ _ ih => exact isChain_append_symbol [] contents sign.symbol .nil ih
  | numeral digits _ _ => exact .singleton _
  | parenthesized contents _ _ ih =>
      exact isChain_append_symbol (.symbol '(' :: contents) [] ')'
        (isChain_append_symbol [] contents '(' .nil ih) .nil

/-- A text writes a tree exactly if the tokens found in it derive the tree. -/
theorem writes_iff (hclass : IsNumeralClass isNumeralChar) (position : Nat) (text : Text)
    (tree : Tree) : Writes isNumeralChar text tree ↔ Derives isNumeralChar .sum
      ((tokens isNumeralChar position text).map Token.content) tree := by
  constructor
  · rintro ⟨contents, hspells, hderives⟩
    rw [content_tokens isNumeralChar hclass contents text
      (isLexeme_of_derives isNumeralChar hclass .sum contents tree hderives)
      (mayMeet_of_derives isNumeralChar .sum contents tree hderives) hspells position]
    exact hderives
  · exact fun h => ⟨_, spells_tokens isNumeralChar position text, h⟩

theorem ne_nil_of_derives (part : Part) (contents : List TokenContent) (tree : Tree)
    (h : Derives isNumeralChar part contents tree) : contents ≠ [] := by
  induction h with
  | sum _ _ _ ih => exact ih
  | product _ _ _ ih => exact ih
  | unsigned _ _ _ ih => exact ih
  | moreSum before _ _ _ _ _ _ _ _ =>
      exact List.append_ne_nil_of_right_ne_nil before (List.cons_ne_nil _ _)
  | moreProduct before _ _ _ _ _ _ _ _ =>
      exact List.append_ne_nil_of_right_ne_nil before (List.cons_ne_nil _ _)
  | sign _ _ _ _ _ => exact List.cons_ne_nil _ _
  | numeral _ _ _ => exact List.cons_ne_nil _ _
  | parenthesized _ _ _ _ => exact List.cons_ne_nil _ _

/-- The numerals of a tree are those of the tokens that derive it. -/
theorem hasNumerals_of_derives (part : Part) (contents : List TokenContent) (tree : Tree)
    (h : Derives isNumeralChar part contents tree) : tree.HasNumerals isNumeralChar := by
  induction h with
  | sum _ _ _ ih => exact ih
  | product _ _ _ ih => exact ih
  | unsigned _ _ _ ih => exact ih
  | parenthesized _ _ _ ih => exact ih
  | sign _ _ _ _ ih => exact ih
  | numeral _ hne hdigits => exact ⟨hne, hdigits⟩
  | moreSum _ _ _ _ _ _ _ ihleft ihright => exact ⟨ihleft, ihright⟩
  | moreProduct _ _ _ _ _ _ _ ihleft ihright => exact ⟨ihleft, ihright⟩

end Derived

/-- Tokens between parentheses. -/
def parenthesize (contents : List TokenContent) : List TokenContent :=
  .symbol '(' :: contents ++ [.symbol ')']

namespace Tree

/-- Tokens of a tree, with parentheses around every operand. -/
def contents : Tree → List TokenContent
  | numeral digits => [.numeral digits]
  | signed sign operand => .symbol sign.symbol :: parenthesize operand.contents
  | sum left operator right =>
    parenthesize left.contents ++ .symbol operator.symbol :: parenthesize right.contents
  | product left operator right =>
    parenthesize left.contents ++ .symbol operator.symbol :: parenthesize right.contents

/-- A text that writes a tree. -/
def text (tree : Tree) : Text :=
  tree.contents.flatMap TokenContent.text

end Tree

/-- What stands between parentheses can stand everywhere. -/
theorem derives_parenthesize (isNumeralChar : Char → Bool) (contents : List TokenContent)
    (tree : Tree) (h : Derives isNumeralChar .sum contents tree) :
    Derives isNumeralChar .signed (parenthesize contents) tree :=
  .unsigned _ tree (.parenthesized contents tree h)

/-- A numeral can stand everywhere. -/
theorem derives_numeral (isNumeralChar : Char → Bool) (digits : Text) (hne : digits ≠ [])
    (h : ∀ c ∈ digits, isNumeralChar c = true) :
    Derives isNumeralChar .signed [.numeral digits] (.numeral digits) :=
  .unsigned _ _ (.numeral digits hne h)

/-- The tokens of a tree derive it. -/
theorem derives_contents (isNumeralChar : Char → Bool) (tree : Tree)
    (h : tree.HasNumerals isNumeralChar) : Derives isNumeralChar .sum tree.contents tree := by
  -- Every operand is put in parentheses, so no rule about binding is needed.
  induction tree with
  | numeral digits => exact .sum _ _ (.product _ _ (derives_numeral _ digits h.1 h.2))
  | signed sign operand ih =>
      exact .sum _ _ (.product _ _ (.sign sign _ operand (derives_parenthesize _ _ _ (ih h))))
  | sum left operator right ihleft ihright =>
      exact .moreSum _ _ left right operator
        (.sum _ _ (.product _ _ (derives_parenthesize _ _ _ (ihleft h.1))))
        (.product _ _ (derives_parenthesize _ _ _ (ihright h.2)))
  | product left operator right ihleft ihright =>
      exact .sum _ _ (.moreProduct _ _ left right operator
        (.product _ _ (derives_parenthesize _ _ _ (ihleft h.1)))
        (derives_parenthesize _ _ _ (ihright h.2)))

/-- Tokens spell the text that they make up without blanks. -/
theorem spells_flatMap (contents : List TokenContent) :
    Spells contents (contents.flatMap TokenContent.text) := by
  induction contents with
  | nil => exact .blanks [] fun _ hc => absurd hc List.not_mem_nil
  | cons content contents ih =>
      rw [List.flatMap_cons]
      exact .token [] content contents _ (fun _ hc => absurd hc List.not_mem_nil) ih

/-- Every tree with proper numerals is written by a text. -/
theorem writes_text (isNumeralChar : Char → Bool) (tree : Tree)
    (h : tree.HasNumerals isNumeralChar) : Writes isNumeralChar tree.text tree :=
  ⟨tree.contents, spells_flatMap tree.contents, derives_contents isNumeralChar tree h⟩

end Expression

end FileSignatures
