import FileSignatures.Proofs.Database.Offsets

/-!
# The numbers of a database

Rule lines hold literals in five places, and two ranges apply to them. Positions, bases
and adjustments are signed words. Masks and operands are words of either reading, since a
database writes the same bits now as `-1` and now as `0xFFFFFFFFFFFFFFFF`; what is kept is
the integer modulo the count of words. The escapes of an operand are decoded first, so
its literal may itself be written with escapes.

## Main definitions

* `Database.IsOperand`: The operator and the operand that a comparison consists of.

## Theorems

* `typeOf_mask_iff`: Which masks are accepted.
* `comparisonOf_number_iff`: Which numeric operands are accepted.
* `numbers_of_fields`: The literals of a rule line and the words that they become.
-/

namespace FileSignatures

namespace Database

/-- A mask is accepted if a word stands for it. -/
theorem typeOf_mask_iff (keyword mask : Text) (type : ValueType) (found : ValueType × UInt64)
    (hplain : '&' ∉ keyword) (htype : ValueType.ofKeyword? keyword = some type)
    (hnumeric : type.isNumeric = true) :
    typeOf (keyword ++ '&' :: mask) = .ok found ↔
      found.1 = type ∧ Literal.Stands mask found.2 := by
  unfold typeOf keywordType
  rw [cut?_append '&' keyword mask hplain]
  simp only [htype, bind, Except.bind, hnumeric, if_true]
  rcases found with ⟨foundType, foundMask⟩
  -- Masks are compared as the signed words that have the same bits.
  cases hword : Literal.word? mask with
  | none =>
      simp only [reduceCtorEq, false_iff, not_and]
      rintro - hstands
      rw [← UInt64.toUInt64_toInt64 foundMask, ← Literal.word?_eq_some_iff, hword] at hstands
      exact absurd hstands (by simp only [reduceCtorEq, not_false_eq_true])
  | some word =>
      simp only [Except.ok.injEq, Prod.mk.injEq]
      rw [← UInt64.toUInt64_toInt64 foundMask, ← Literal.word?_eq_some_iff, hword,
        Option.some.injEq, UInt64.toUInt64_toInt64]
      refine and_congr eq_comm ⟨?_, ?_⟩
      · rintro rfl
        exact (Int64.toInt64_toUInt64 word).symm
      · rintro rfl
        exact UInt64.toUInt64_toInt64 foundMask

/-- The operator and the operand that the comparison of a number consists of: without an
    operator in front everything is operand, and the numbers are compared for equality. -/
inductive IsOperand (operand : Text) : Operator → Text → Prop
  | marked (operator : Operator) (h : operator ≠ .any) :
      IsOperand operand operator (operator.symbol :: operand)
  | plain (c : Char) (rest : Text) (h : operand = c :: rest) (hany : operand ≠ ['x'])
      (hc : c ∉ ['=', '!', '>', '<', '&', '^']) : IsOperand operand .equal operand

theorem numberOf_eq_ok_iff (operand : Text) (n : Int64) :
    numberOf operand = .ok n ↔
      Literal.Stands (Text.ofLatin1 (unescape operand)) n.toUInt64 := by
  rw [← Literal.word?_eq_some_iff]
  unfold numberOf
  cases Literal.word? (Text.ofLatin1 (unescape operand)) with
  | none => simp only [reduceCtorEq]
  | some word => simp only [Except.ok.injEq, Option.some.injEq]

/-- A comparison of a number is read as its operator and its operand. -/
theorem comparisonOf_of_isOperand (type : ValueType) (operator : Operator)
    (operand token : Text) (hnumeric : type.isNumeric = true)
    (h : IsOperand operand operator token) :
    comparisonOf type token = (numberOf operand).map fun n => ⟨operator, .number n, 0⟩ := by
  unfold comparisonOf
  cases h with
  | marked operator hne =>
      have hother : operator.symbol :: operand ≠ ['x'] := by
        intro heq
        have hsymbol := congrArg Operator.ofSymbol? (List.cons.inj heq).1
        rw [ofSymbol?_symbol] at hsymbol
        exact hne (Option.some.inj hsymbol)
      rw [if_neg hother, if_pos hnumeric, numericComparisonOf, ofSymbol?_symbol]
      simp only [Option.filter_some, ne_eq, hne, not_false_eq_true, decide_true, if_true]
  | plain c rest heq hany hc =>
      -- Such a character is no operator, unless it is the one that accepts everything.
      have hnone : (Operator.ofSymbol? c).filter (· ≠ .any) = none := by
        rw [Option.filter_eq_none_iff]
        intro found hfound hne
        have hsymbol : found.symbol = c := by
          unfold Operator.ofSymbol? at hfound
          have hfits := List.find?_some hfound
          exact of_decide_eq_true hfits
        rw [← hsymbol] at hc
        cases found with
        | any => exact absurd hne (by decide)
        | _ => exact absurd hc (by decide)
      rw [if_neg hany, if_pos hnumeric]
      rw [heq, numericComparisonOf, hnone]

/-- A numeric operand is accepted if a word stands for it. -/
theorem comparisonOf_number_iff (type : ValueType) (operator : Operator) (operand token : Text)
    (comparison : Comparison) (hnumeric : type.isNumeric = true)
    (h : IsOperand operand operator token) :
    comparisonOf type token = .ok comparison ↔
      ∃ n : Int64, comparison = ⟨operator, .number n, 0⟩
        ∧ Literal.Stands (Text.ofLatin1 (unescape operand)) n.toUInt64 := by
  rw [comparisonOf_of_isOperand type operator operand token hnumeric h]
  simp only [← numberOf_eq_ok_iff]
  cases numberOf operand with
  | error error => simp only [Except.map, reduceCtorEq, and_false, exists_false]
  | ok n =>
      simp only [Except.map, Except.ok.injEq]
      constructor
      · exact fun heq => ⟨n, heq.symm, rfl⟩
      · rintro ⟨_, rfl, rfl⟩
        rfl

end Database

/-- The literals of a rule line and the words that they become: what is read as an integer
    is what the notation of literals denotes, a position, a base and an adjustment have to
    be signed words, and a mask and an operand words of either reading. -/
theorem numbers_of_fields :
    (∀ (t : Text) (n : Int), Literal.ofText? t = some n ↔ Literal.Denotes t n)
      ∧ (∀ (token : Text) (offset : Offset), token.head? ≠ some '(' →
          (Offset.ofText? token = .ok offset ↔
            ∃ position, offset = .direct position ∧ Literal.Fits token position))
      ∧ (∀ (base adjustment : Text) (letter : Char) (width : ValueType) (offset : Offset),
          '.' ∉ base → letter ∈ width.widthLetters →
          adjustment.head? = some '+' ∨ adjustment.head? = some '-' →
          (Offset.ofText? ('(' :: (base ++ '.' :: letter :: adjustment) ++ [')']) = .ok offset ↔
            ∃ start added, offset = .indirect ⟨start, width, added⟩
              ∧ Literal.Fits base start ∧ Literal.Fits adjustment added))
      ∧ (∀ (keyword mask : Text) (type : ValueType) (found : ValueType × UInt64),
          '&' ∉ keyword → ValueType.ofKeyword? keyword = some type → type.isNumeric = true →
          (Database.typeOf (keyword ++ '&' :: mask) = .ok found ↔
            found.1 = type ∧ Literal.Stands mask found.2))
      ∧ ∀ (type : ValueType) (operator : Operator) (operand token : Text)
          (comparison : Database.Comparison), type.isNumeric = true →
          Database.IsOperand operand operator token →
          (Database.comparisonOf type token = .ok comparison ↔
            ∃ n : Int64, comparison = ⟨operator, .number n, 0⟩
              ∧ Literal.Stands (Text.ofLatin1 (unescape operand)) n.toUInt64) := by
  refine ⟨Literal.ofText?_eq_some_iff, fun token offset hopen =>
      Offset.ofText?_of_no_parenthesis token offset hopen,
    fun base adjustment letter width offset hpoint hletter hsign => ?_,
    fun keyword mask type found hplain htype hnumeric =>
      Database.typeOf_mask_iff keyword mask type found hplain htype hnumeric,
    fun type operator operand token comparison hnumeric h =>
      Database.comparisonOf_number_iff type operator operand token comparison hnumeric h⟩
  -- With a sign in front an adjustment is a literal, never the empty one.
  simp only [← Offset.isAdjustment_iff_of_sign adjustment _ hsign]
  exact Offset.ofText?_of_split base adjustment letter width offset hpoint hletter

/-- A literal between blanks and two texts that are none; a position beyond the greatest
    word; a pointer with the least base and the greatest adjustment; a mask of all bits;
    and an operand whose digit is written with an escape. -/
theorem numbers_of_sample_fields :
    (Literal.Denotes [Char.ofNat 0xa0, '-', '0', 'X', '1', 'f', ' '] (-31)
        ∧ (∀ n, ¬ Literal.Denotes "--1".toList n) ∧ ∀ n, ¬ Literal.Denotes "09".toList n)
      ∧ ("9223372036854775808".toList.head? ≠ some '('
        ∧ ∀ position, ¬ Literal.Fits "9223372036854775808".toList position)
      ∧ ('.' ∉ "-#8000000000000000".toList ∧ 'S' ∈ ValueType.beShort.widthLetters
        ∧ "+0777777777777777777777".toList.head? = some '+'
        ∧ Literal.Fits "-#8000000000000000".toList Int64.minValue
        ∧ Literal.Fits "+0777777777777777777777".toList Int64.maxValue)
      ∧ ('&' ∉ "belong".toList ∧ ValueType.ofKeyword? "belong".toList = some .beLong
        ∧ ValueType.beLong.isNumeric = true ∧ Literal.Stands "-1".toList Value.fullMask)
      ∧ (Database.IsOperand "\\x31".toList .less "<\\x31".toList
        ∧ Literal.Stands (Text.ofLatin1 (unescape "\\x31".toList)) 1) := by
  have hnone : ∀ t : Text, Literal.ofText? t = none → ∀ n, ¬ Literal.Denotes t n := by
    intro t hread n hn
    rw [(numbers_of_fields.1 t n).2 hn] at hread
    exact absurd hread (by simp only [reduceCtorEq, not_false_eq_true])
  have hopen : "9223372036854775808".toList.head? ≠ some '(' := by decide
  -- What is rejected by the reader is denied by the notation.
  have hbeyond : ∀ position, ¬ Literal.Fits "9223372036854775808".toList position := by
    intro position hfits
    have hread := (numbers_of_fields.2.1 _ (.direct position) hopen).2 ⟨position, rfl, hfits⟩
    have herror : Offset.ofText? "9223372036854775808".toList
        = .error (.invalid "9223372036854775808".toList) := rfl
    rw [herror] at hread
    exact absurd hread (by simp only [reduceCtorEq, not_false_eq_true])
  have hpoint : '.' ∉ "-#8000000000000000".toList := by decide
  have hletter : 'S' ∈ ValueType.beShort.widthLetters := by decide
  have hsign : "+0777777777777777777777".toList.head? = some '+' := rfl
  obtain ⟨start, added, hpointer, hbase, hadjustment⟩ :=
    (numbers_of_fields.2.2.1 _ _ 'S' .beShort
      (.indirect ⟨Int64.minValue, .beShort, Int64.maxValue⟩) hpoint hletter (Or.inl hsign)).1 rfl
  simp only [Offset.indirect.injEq, Pointer.mk.injEq, true_and] at hpointer
  have hplain : '&' ∉ "belong".toList := by decide
  have hkeyword : ValueType.ofKeyword? "belong".toList = some .beLong := by decide
  have hmask := ((numbers_of_fields.2.2.2.1 _ "-1".toList _ (.beLong, Value.fullMask) hplain
    hkeyword rfl).1 rfl).2
  have hoperand : Database.IsOperand "\\x31".toList .less "<\\x31".toList :=
    .marked .less (by decide)
  obtain ⟨n, hcomparison, hstands⟩ :=
    (numbers_of_fields.2.2.2.2 .byte .less _ _ ⟨.less, .number 1, 0⟩ rfl hoperand).1 rfl
  simp only [Database.Comparison.mk.injEq, Value.number.injEq, true_and, and_true] at hcomparison
  refine ⟨⟨(numbers_of_fields.1 _ _).1 (by decide), hnone _ (by decide), hnone _ (by decide)⟩,
    ⟨hopen, hbeyond⟩, ⟨hpoint, hletter, hsign, ?_, ?_⟩, ⟨hplain, hkeyword, rfl, hmask⟩,
    hoperand, ?_⟩
  · rw [hpointer.1]
    exact hbase
  · rw [hpointer.2]
    exact hadjustment
  · rw [← hcomparison] at hstands
    exact hstands

end FileSignatures
