import FileSignatures.Proofs.Database.Written
import FileSignatures.Proofs.Number.Literals

/-!
# Which texts are offsets

An offset is a literal, or a pointer in parentheses: the literal of its base, a point, a
letter for its width, and what is added to it. A text is taken for a pointer as soon as
it begins with a parenthesis, and for a plain literal otherwise; then each character that
is out of place makes it none.

The base ends at the first point of the text. No literal holds a point, so this is the
only place where it can end, and a text is an offset in one way at most.

## Main definitions

* `Offset.IsAdjustment`: What is added to a pointer, as it is written.
* `Offset.Denotes`: A text is written for an offset.
* `Offset.signedText`, `Pointer.text`: Adjustments and pointers in decimal.

## Theorems

* `beforeClosing?_eq_some_iff`: A closing parenthesis is taken off.
* `ofWidthLetter?_eq_some_iff`: Which letters select a width.
* `adjustment?_eq_some_iff`: Which texts are adjustments.
* `ofText?_of_no_parenthesis`: What is read outside of parentheses.
* `exists_split_of_parenthesis`, `ofText?_of_split`: What is read inside.
* `ofText?_eq_ok_iff`: The texts that are offsets are read as what they denote.
* `offsets_of_tokens`: No other text is read, and what is written in decimal is.
-/

namespace FileSignatures

namespace Offset

/-- What is added to a pointer, as it is written: nothing for zero, or a literal that
    carries a sign. -/
inductive IsAdjustment (n : Int64) : Text → Prop
  | nothing (h : n = 0) : IsAdjustment n []
  | signed (t : Text) (hsign : t.head? = some '+' ∨ t.head? = some '-')
      (h : Literal.Fits t n) : IsAdjustment n t

/-- A text is written for an offset. -/
inductive Denotes : Text → Offset → Prop
  | direct (token : Text) (position : Int64) (hopen : token.head? ≠ some '(')
      (h : Literal.Fits token position) : Denotes token (.direct position)
  | indirect (pointer : Pointer) (base adjustment : Text) (letter : Char) (hpoint : '.' ∉ base)
      (hbase : Literal.Fits base pointer.base) (hletter : letter ∈ pointer.width.widthLetters)
      (hadjustment : IsAdjustment pointer.adjustment adjustment) :
      Denotes ('(' :: (base ++ '.' :: letter :: adjustment) ++ [')']) (.indirect pointer)

theorem beforeClosing?_eq_some_iff (t before : Text) :
    beforeClosing? t = some before ↔ t = before ++ [')'] := by
  unfold beforeClosing?
  constructor
  · intro h
    split at h
    · rename_i hlast
      rw [Option.some.injEq] at h
      rw [← h, List.dropLast_append_getLast? ')' hlast]
    · exact absurd h (by simp only [reduceCtorEq, not_false_eq_true])
  · rintro rfl
    rw [List.getLast?_concat, if_pos rfl, List.dropLast_concat]

theorem ofWidthLetter?_eq_some_iff (letter : Char) (type : ValueType) :
    ValueType.ofWidthLetter? letter = some type ↔ letter ∈ type.widthLetters := by
  constructor
  · intro h
    unfold ValueType.ofWidthLetter? at h
    split at h <;> first
      | exact absurd h (by simp only [reduceCtorEq, not_false_eq_true])
      | (rw [← Option.some.inj h]; decide)
  · exact Database.ofWidthLetter?_of_mem type letter

theorem adjustment?_eq_some_iff (t : Text) (n : Int64) :
    adjustment? t = some n ↔ IsAdjustment n t := by
  unfold adjustment?
  constructor
  · intro h
    split at h
    · exact .nothing (Option.some.inj h).symm
    · exact .signed _ (Or.inl rfl) ((Literal.signed?_eq_some_iff _ n).1 h)
    · exact .signed _ (Or.inr rfl) ((Literal.signed?_eq_some_iff _ n).1 h)
    · exact absurd h (by simp only [reduceCtorEq, not_false_eq_true])
  · intro h
    cases h with
    | nothing h => rw [h]
    | signed _ hsign h =>
        have hread := (Literal.signed?_eq_some_iff t n).2 h
        -- The reader looks at the first character only.
        cases t with
        | nil => simp only [List.head?_nil, reduceCtorEq, or_self] at hsign
        | cons c rest =>
            simp only [List.head?_cons, Option.some.injEq] at hsign
            rcases hsign with rfl | rfl <;> exact hread

/-- An adjustment with a sign is a literal. -/
theorem isAdjustment_iff_of_sign (t : Text) (n : Int64)
    (hsign : t.head? = some '+' ∨ t.head? = some '-') :
    IsAdjustment n t ↔ Literal.Fits t n := by
  constructor
  · intro h
    cases h with
    | nothing => simp only [List.head?_nil, reduceCtorEq, or_self] at hsign
    | signed _ _ h => exact h
  · exact fun h => .signed t hsign h

/-- Outside of parentheses an offset is a literal. -/
theorem ofText?_of_no_parenthesis (token : Text) (offset : Offset)
    (hopen : token.head? ≠ some '(') :
    ofText? token = .ok offset ↔ ∃ position, offset = .direct position
      ∧ Literal.Fits token position := by
  unfold ofText?
  split
  · -- The other cases of the reader begin with a parenthesis.
    exact absurd rfl hopen
  · cases hread : Literal.signed? token with
    | none =>
        simp only [reduceCtorEq, false_iff, not_exists, not_and]
        rintro position - hfits
        rw [(Literal.signed?_eq_some_iff token position).2 hfits] at hread
        exact absurd hread (by simp only [reduceCtorEq, not_false_eq_true])
    | some position =>
        simp only [Except.ok.injEq, ← Literal.signed?_eq_some_iff, hread, Option.some.injEq]
        constructor
        · exact fun h => ⟨position, h.symm, rfl⟩
        · rintro ⟨_, h, rfl⟩
          exact h.symm

/-- Inside of parentheses there is a base up to the first point, and then a letter for the
    width. -/
theorem exists_split_of_parenthesis (body : Text) (offset : Offset)
    (h : ofText? ('(' :: body) = .ok offset) :
    ∃ (base adjustment : Text) (letter : Char) (width : ValueType),
      body = base ++ '.' :: letter :: adjustment ++ [')'] ∧ '.' ∉ base
        ∧ letter ∈ width.widthLetters := by
  simp only [ofText?, ofIndirectText?] at h
  split at h
  · exact absurd h (by simp only [reduceCtorEq, not_false_eq_true])
  · exact absurd h (by simp only [reduceCtorEq, not_false_eq_true])
  · rename_i base letter adjustment hparts
    -- The closing parenthesis is taken off before the text is cut at its point.
    obtain ⟨inner, hinner, hcut⟩ := Option.bind_eq_some_iff.1 hparts
    have hbody := (beforeClosing?_eq_some_iff body inner).1 hinner
    obtain ⟨rfl, hpoint⟩ := (cut?_eq_some_iff '.' inner base _).1 hcut
    split at h
    · exact absurd h (by simp only [reduceCtorEq, not_false_eq_true])
    · rename_i width hwidth
      exact ⟨base, adjustment, letter, width, hbody, hpoint,
        (ofWidthLetter?_eq_some_iff letter width).1 hwidth⟩

/-- Such a text is a pointer if its base is a literal and its end is an adjustment. -/
theorem ofText?_of_split (base adjustment : Text) (letter : Char) (width : ValueType)
    (offset : Offset) (hpoint : '.' ∉ base) (hletter : letter ∈ width.widthLetters) :
    ofText? ('(' :: (base ++ '.' :: letter :: adjustment) ++ [')']) = .ok offset ↔
      ∃ start added, offset = .indirect ⟨start, width, added⟩ ∧ Literal.Fits base start
        ∧ IsAdjustment added adjustment := by
  simp only [ofText?, ofIndirectText?, List.cons_append]
  rw [(beforeClosing?_eq_some_iff _ _).2 rfl, Option.bind_some,
    (cut?_eq_some_iff '.' _ base _).2 ⟨rfl, hpoint⟩]
  simp only [(ofWidthLetter?_eq_some_iff letter width).2 hletter, ← Literal.signed?_eq_some_iff,
    ← adjustment?_eq_some_iff]
  split
  · -- Both numbers have been read.
    rename_i added start hadded hstart
    simp only [hadded, hstart, Except.ok.injEq, Option.some.injEq]
    constructor
    · exact fun h => ⟨start, added, h.symm, rfl, rfl⟩
    · rintro ⟨_, _, h, rfl, rfl⟩
      exact h.symm
  · rename_i hmissing
    simp only [reduceCtorEq, false_iff]
    rintro ⟨start, added, -, hstart, hadded⟩
    exact hmissing added start hadded hstart

/-- The texts that are offsets are read as what they denote. -/
theorem ofText?_eq_ok_iff (token : Text) (offset : Offset) :
    ofText? token = .ok offset ↔ Denotes token offset := by
  constructor
  · intro h
    -- The first character tells which of the two notations it is.
    by_cases hopen : token.head? = some '('
    · obtain ⟨body, rfl⟩ := List.head?_eq_some_iff.1 hopen
      obtain ⟨base, adjustment, letter, width, rfl, hpoint, hletter⟩ :=
        exists_split_of_parenthesis body offset h
      obtain ⟨start, added, rfl, hbase, hadjustment⟩ :=
        (ofText?_of_split base adjustment letter width offset hpoint hletter).1 h
      exact .indirect ⟨start, width, added⟩ base adjustment letter hpoint hbase hletter hadjustment
    · obtain ⟨position, rfl, hfits⟩ := (ofText?_of_no_parenthesis token offset hopen).1 h
      exact .direct token position hopen hfits
  · intro h
    cases h with
    | direct _ position hopen h =>
        exact (ofText?_of_no_parenthesis token _ hopen).2 ⟨position, rfl, h⟩
    | indirect pointer base adjustment letter hpoint hbase hletter hadjustment =>
        exact (ofText?_of_split base adjustment letter _ _ hpoint hletter).2
          ⟨pointer.base, pointer.adjustment, rfl, hbase, hadjustment⟩

/-- A number in decimal that always carries its sign. -/
def signedText (n : Int64) : Text :=
  (if n.toInt < 0 then '-' else '+') :: Text.ofNat n.toInt.natAbs

theorem writtenAdjustment_signedText (n : Int64) : WrittenAdjustment n (signedText n) := by
  unfold signedText
  split
  · rename_i hsign
    exact .minus hsign
  · rename_i hsign
    exact .plus (by omega)

end Offset

/-- A pointer in decimal, with a letter for its width. -/
def Pointer.text (pointer : Pointer) (letter : Char) : Text :=
  '(' :: (Text.ofInt pointer.base.toInt ++ '.' :: letter :: Offset.signedText pointer.adjustment)
    ++ [')']

/-- A text is read as the offset that it is written for, and rejected if there is none. All
    offsets can be written in decimal, with any of the letters for the width. -/
theorem offsets_of_tokens :
    (∀ (token : Text) (offset : Offset),
        Offset.ofText? token = .ok offset ↔ Offset.Denotes token offset)
      ∧ (∀ token : Text, (∃ error, Offset.ofText? token = .error error) ↔
          ∀ offset, ¬ Offset.Denotes token offset)
      ∧ (∀ position : Int64,
          Offset.ofText? (Text.ofInt position.toInt) = .ok (.direct position))
      ∧ ∀ (pointer : Pointer) (letter : Char), letter ∈ pointer.width.widthLetters →
          Offset.ofText? (pointer.text letter) = .ok (.indirect pointer) := by
  refine ⟨Offset.ofText?_eq_ok_iff, fun token => ?_, fun position => ?_,
    fun pointer letter hletter => ?_⟩
  · -- Reading ends one way or the other, so it fails where there is no offset.
    simp only [← Offset.ofText?_eq_ok_iff]
    cases Offset.ofText? token with
    | error error => simp only [Except.error.injEq, exists_eq', reduceCtorEq, not_false_eq_true,
        implies_true]
    | ok offset => simp only [reduceCtorEq, exists_false, Except.ok.injEq, false_iff, not_forall,
        not_not, exists_eq']
  · exact Database.ofText?_of_writtenOffset _ _ (.direct position)
  · exact Database.ofText?_of_writtenOffset _ _
      (.indirect pointer letter _ hletter (Offset.writtenAdjustment_signedText _))

/-- The least base and the greatest adjustment are read back. A base beyond the greatest
    word makes a text no offset, and so does anything behind the parenthesis. -/
theorem offsets_of_extreme_tokens :
    'l' ∈ ValueType.leLong.widthLetters
      ∧ Pointer.text ⟨Int64.minValue, .leLong, Int64.maxValue⟩ 'l'
        = "(-9223372036854775808.l+9223372036854775807)".toList
      ∧ Offset.ofText? "(-9223372036854775808.l+9223372036854775807)".toList
        = .ok (.indirect ⟨Int64.minValue, .leLong, Int64.maxValue⟩)
      ∧ (∀ offset, ¬ Offset.Denotes "(9223372036854775808.l)".toList offset)
      ∧ ∀ offset, ¬ Offset.Denotes "(8.l+4)junk".toList offset := by
  have hletter : 'l' ∈ ValueType.leLong.widthLetters := by decide
  exact ⟨hletter, rfl,
    offsets_of_tokens.2.2.2 ⟨Int64.minValue, .leLong, Int64.maxValue⟩ 'l' hletter,
    (offsets_of_tokens.2.1 _).1 ⟨.invalidIndirect "(9223372036854775808.l)".toList, rfl⟩,
    (offsets_of_tokens.2.1 _).1 ⟨.invalidIndirect "(8.l+4)junk".toList, rfl⟩⟩

end FileSignatures
