import FileSignatures.Proofs.Database.Representation
import FileSignatures.Proofs.Text.Escapes

/-!
# Fields that are written are read back

How offset, type and comparison of a rule are written in a database, and that each
of them is read back by itself. The notation leaves some choice: an adjustment of
zero can be left out and so can a mask that has all bits, hexadecimal digits are
letters of either case, and a byte of an operand can be written in three ways. The
relations of this module allow all of that.

Not every rule can be written. `Rule.Writable` says which can: its fields fit
together, and it is one that a line can produce. An operand without regard to case
is in upper case, a number that is not compared is zero, and the description holds
nothing that would end a field or a line.

## Main definitions

* `ValueType.widthLetters`: The letters that select the width of a pointer.
* `WrittenOffset`, `WrittenType`, `WrittenComparison`: Fields of a rule as texts.
* `Rule.operandWeight`: What the operand adds to the length of a signature.
* `Rule.Writable`: A rule that can be written.

## Theorems

* `ofText?_of_writtenOffset`, `typeOf_of_writtenType`,
  `comparisonOf_of_writtenComparison`: Each field is read back.
* `captureOf_of_wellFormed`: The capture follows from the other fields.
* `isClean_of_writtenOffset`, `isClean_of_writtenType`,
  `isClean_of_writtenComparison`: No field holds a tab or a line end.
-/

namespace FileSignatures

/-- The letters that select the width of a pointer. -/
def ValueType.widthLetters : ValueType → List Char
  | byte => ['b', 'B']
  | leShort => ['s']
  | beShort => ['S']
  | leLong => ['l']
  | beLong => ['L']
  | string | caselessString => []

/-- What is added to a pointer, as a literal that carries a sign, or as nothing if
    it is zero. -/
inductive WrittenAdjustment (n : Int64) : Text → Prop
  | nothing (h : n = 0) : WrittenAdjustment n []
  | plus (h : 0 ≤ n.toInt) : WrittenAdjustment n ('+' :: Text.ofNat n.toInt.natAbs)
  | minus (h : n.toInt < 0) : WrittenAdjustment n ('-' :: Text.ofNat n.toInt.natAbs)

/-- An offset as a field of a line, without the mark of sub-rules. -/
inductive WrittenOffset : Offset → Text → Prop
  | direct (position : Int64) : WrittenOffset (.direct position) (Text.ofInt position.toInt)
  | indirect (pointer : Pointer) (letter : Char) (adjustment : Text)
      (hletter : letter ∈ pointer.width.widthLetters)
      (hadjustment : WrittenAdjustment pointer.adjustment adjustment) :
      WrittenOffset (.indirect pointer)
        ('(' :: (Text.ofInt pointer.base.toInt ++ '.' :: letter :: adjustment) ++ [')'])

/-- A type with its mask as a field of a line. Only numbers can be masked. -/
inductive WrittenType (type : ValueType) (mask : UInt64) : Text → Prop
  | masked (digits : Text) (hnumeric : type.isNumeric = true)
      (hdigits : IsHexadecimal mask.toNat digits) :
      WrittenType type mask (type.keyword ++ '&' :: '0' :: 'x' :: digits)
  | unmasked (h : mask = Value.fullMask) : WrittenType type mask type.keyword

/-- Operator and operand as a field of a line. -/
inductive WrittenComparison : Operator → Value → Text → Prop
  | any (operand : Value) : WrittenComparison .any operand ['x']
  | number (operator : Operator) (n : Int64) (h : operator ≠ .any) :
      WrittenComparison operator (.number n) (operator.symbol :: Text.ofInt n.toInt)
  | bytes (operator : Operator) (content : List UInt8) (spelling : Text) (h : operator ≠ .any)
      (hspelling : Spelled content spelling) :
      WrittenComparison operator (.bytes content) (operator.symbol :: spelling)

/-- What the operand adds to the length of a signature: the length of a string that
    is compared with. -/
def Rule.operandWeight (rule : Rule) : Nat :=
  match rule.operator, rule.operand with
  | .any, _ => 0
  | _, .number _ => 0
  | _, .bytes content => content.length

/-- A rule that a line can produce. -/
structure Rule.Writable (rule : Rule) : Prop where
  fields : rule.WellFormed
  any_number : rule.type.isNumeric = true → rule.operator = .any → rule.operand = .number 0
  caseless : rule.type = .caselessString → ∀ content, rule.operand = .bytes content →
    ∀ b ∈ content, isLowerByte b = false
  weight : rule.weight = rule.type.weight + rule.operandWeight
  /-- The description is one field, at the end of one line. -/
  description : '\t' ∉ rule.description ∧ rule.description.IsLine

namespace Database

theorem ofWidthLetter?_of_mem (type : ValueType) (letter : Char)
    (h : letter ∈ type.widthLetters) : ValueType.ofWidthLetter? letter = some type := by
  cases type <;> simp only [ValueType.widthLetters, List.mem_cons, List.not_mem_nil, or_false] at h
  · rcases h with rfl | rfl <;> rfl
  all_goals (rw [h]; rfl)

theorem adjustment?_of_written (n : Int64) (t : Text) (h : WrittenAdjustment n t) :
    Offset.adjustment? t = some n := by
  cases h with
  | nothing h =>
      rw [h]
      rfl
  | plus h => exact Literal.signed?_plus n h
  | minus h =>
      -- The sign is that of the number, so this is how the number itself is written.
      have hread := Literal.signed?_ofInt n
      rcases ofInt_cases n.toInt with ⟨hsign, -⟩ | ⟨-, heq⟩
      · omega
      · rw [heq] at hread
        exact hread

/-- An offset is read back, whether it is direct or indirect. -/
theorem ofText?_of_writtenOffset (offset : Offset) (t : Text) (h : WrittenOffset offset t) :
    Offset.ofText? t = .ok offset := by
  cases h with
  | direct position =>
      rcases ofInt_eq_cons position.toInt with ⟨c, rest, heq, hc⟩
      have hread := Literal.signed?_ofInt position
      rw [heq] at hread ⊢
      rw [Offset.ofText?.eq_def]
      split
      · -- A literal does not begin with a parenthesis.
        rename_i heq
        rw [(List.cons.inj heq).1] at hc
        exact absurd hc (by decide)
      · rw [hread]
  | indirect pointer letter adjustment hletter hadjustment =>
      -- A number has no point, so the base ends at the first one.
      have hpoint : '.' ∉ Text.ofInt pointer.base.toInt := by
        intro hmem
        exact absurd (mem_ofInt _ _ hmem) (by decide)
      have hclosing : Offset.beforeClosing?
          ((Text.ofInt pointer.base.toInt ++ '.' :: letter :: adjustment) ++ [')'])
            = some (Text.ofInt pointer.base.toInt ++ '.' :: letter :: adjustment) := by
        unfold Offset.beforeClosing?
        rw [List.getLast?_concat, if_pos rfl, List.dropLast_concat]
      rw [List.cons_append, Offset.ofText?.eq_def]
      simp only
      unfold Offset.ofIndirectText?
      rw [hclosing, Option.bind_some, cut?_append '.' _ _ hpoint]
      simp only [ofWidthLetter?_of_mem _ letter hletter,
        adjustment?_of_written _ adjustment hadjustment, Literal.signed?_ofInt]

theorem keywordType_keyword (type : ValueType) : keywordType type.keyword = .ok type := by
  cases type <;> rfl

/-- A type is read back with its mask. -/
theorem typeOf_of_writtenType (type : ValueType) (mask : UInt64) (t : Text)
    (h : WrittenType type mask t) : typeOf t = .ok (type, mask) := by
  have hplain : '&' ∉ type.keyword := by cases type <;> decide
  unfold typeOf
  cases h with
  | masked digits hnumeric hdigits =>
      -- A mask is read as a signed word with the same bits.
      rcases Literal.word?_hexadecimal mask digits hdigits with ⟨n, hword, hmask⟩
      rw [cut?_append '&' _ _ hplain]
      simp only [keywordType_keyword, bind, Except.bind, hnumeric, if_true, hword, hmask]
  | unmasked h =>
      rw [cut?_eq_none '&' _ hplain]
      simp only [keywordType_keyword, Except.map, h]

theorem ofSymbol?_symbol (operator : Operator) :
    Operator.ofSymbol? operator.symbol = some operator := by
  cases operator <;> rfl

theorem numberOf_ofInt (n : Int64) : numberOf (Text.ofInt n.toInt) = .ok n := by
  have hbackslash : '\\' ∉ Text.ofInt n.toInt := by
    intro hmem
    exact absurd (mem_ofInt _ _ hmem) (by decide)
  have hlatin : (Text.ofInt n.toInt).IsLatin1 := by
    intro c hc
    have hhigh := (isGraphic_of_mem_ofInt _ c hc).2
    omega
  unfold numberOf
  rw [unescape_of_notMem _ hbackslash, ofLatin1_latin1Bytes _ hlatin, Literal.word?_ofInt]

/-- A comparison of a rule that can be written is read back. -/
theorem comparisonOf_of_writtenComparison (rule : Rule) (t : Text) (hrule : rule.Writable)
    (h : WrittenComparison rule.operator rule.operand t) :
    comparisonOf rule.type t = .ok ⟨rule.operator, rule.operand, rule.operandWeight⟩ := by
  rcases rule with ⟨line, offset, type, mask, operator, operand, description, capture, weight⟩
  have hnumber := hrule.fields.number_operand
  have hstring := hrule.fields.string_comparison
  -- A field that begins with another symbol is not the comparison with anything.
  have hsymbol : ∀ rest : Text, operator ≠ .any → operator.symbol :: rest ≠ ['x'] := by
    intro rest hne heq
    have hx : Operator.ofSymbol? operator.symbol = Operator.ofSymbol? 'x' :=
      congrArg Operator.ofSymbol? (List.cons.inj heq).1
    rw [ofSymbol?_symbol] at hx
    exact hne (Option.some.inj hx)
  unfold comparisonOf
  cases h with
  | any =>
      -- The operand is not written, but the type has a placeholder for it.
      rw [if_pos rfl]
      cases hnumeric : type.isNumeric with
      | true =>
          have hzero := hrule.any_number hnumeric rfl
          simp only at hzero
          rw [hzero]
          simp only [Value.placeholder, hnumeric, if_true, Rule.operandWeight]
      | false =>
          cases hstring hnumeric with
          | any limit hlimit =>
              simp only [Value.placeholder, hnumeric, Bool.false_eq_true, if_false,
                Rule.operandWeight]
  | number _ n hne =>
      simp only [if_neg (hsymbol _ hne)]
      cases hnumeric : type.isNumeric with
      | true =>
          simp only [if_true, numericComparisonOf, ofSymbol?_symbol, Option.filter_some, ne_eq,
            hne, not_false_eq_true, decide_true, numberOf_ofInt, Except.map, Except.ok.injEq,
            Comparison.mk.injEq, true_and]
          cases operator <;> rfl
      | false => cases hstring hnumeric
  | bytes _ content spelling hne hspelling =>
      simp only [if_neg (hsymbol _ hne)]
      -- The operand is folded when it is read, and it has been folded already.
      have hread := unescape_of_spelled content spelling hspelling
      have hfold := foldCase_eq_self type content fun htype =>
        hrule.caseless htype content rfl
      cases hnumeric : type.isNumeric with
      | true =>
          rcases hnumber hnumeric with ⟨n, hn⟩
          exact Value.noConfusion hn
      | false =>
          rw [if_neg Bool.false_ne_true]
          cases hstring hnumeric with
          | equal => simp only [Operator.symbol, stringComparisonOf, hread, hfold,
              Rule.operandWeight]
          | greater first limit hlimit =>
              simp only [Operator.symbol, stringComparisonOf, hread, hfold, Rule.operandWeight,
                List.length_singleton]
          | any => exact absurd rfl hne

/-- What a rule captures follows from its other fields. -/
theorem captureOf_of_wellFormed (rule : Rule) (h : rule.WellFormed) :
    captureOf rule.type rule.operator rule.description = .ok rule.capture := by
  unfold captureOf
  cases hnumeric : rule.type.isNumeric with
  | true =>
      rw [h.number_capture hnumeric]
      rfl
  | false =>
      have hcomparison := h.string_comparison hnumeric
      generalize rule.operator = operator at hcomparison ⊢
      generalize rule.operand = operand at hcomparison
      generalize rule.capture = capture at hcomparison ⊢
      -- Only open comparisons have a limit, and it is the one of the description.
      cases hcomparison with
      | equal content => rfl
      | greater first limit hlimit => simp only [hlimit]; rfl
      | any limit hlimit => simp only [hlimit]; rfl

theorem isGraphic_of_mem_widthLetters (type : ValueType) (letter : Char)
    (h : letter ∈ type.widthLetters) : IsGraphic letter := by
  cases type <;> simp only [ValueType.widthLetters, List.mem_cons, List.not_mem_nil, or_false] at h
  · rcases h with rfl | rfl <;> decide
  all_goals (rw [h]; decide)

theorem isGraphic_of_mem_adjustment (n : Int64) (t : Text) (c : Char)
    (h : WrittenAdjustment n t) (hc : c ∈ t) : IsGraphic c := by
  have hdigits := fun hmem => isGraphic_of_isDigit c (isDigit_of_mem_ofNat n.toInt.natAbs c hmem)
  cases h with
  | nothing => exact absurd hc List.not_mem_nil
  | plus | minus =>
      rcases List.mem_cons.1 hc with rfl | hc
      · decide
      · exact hdigits hc

/-- Offsets consist of clean characters, and they begin neither with a mark nor like a
    comment. -/
theorem isClean_of_writtenOffset (offset : Offset) (t : Text) (h : WrittenOffset offset t) :
    (∀ c ∈ t, IsClean c) ∧ ∃ c rest, t = c :: rest ∧ c ∉ ['&', '>', '#'] := by
  cases h with
  | direct position =>
      -- A decimal begins with a digit or a minus sign.
      rcases ofInt_eq_cons position.toInt with ⟨c, rest, heq, hc⟩
      refine ⟨fun d hd => isClean_of_isGraphic d (isGraphic_of_mem_ofInt _ d hd), c, rest, heq,
        fun hmem => ?_⟩
      simp only [List.mem_cons, List.not_mem_nil, or_false] at hmem
      rcases hmem with rfl | rfl | rfl <;> exact absurd hc (by decide)
  | indirect pointer letter adjustment hletter hadjustment =>
      refine ⟨fun c hc => isClean_of_isGraphic c ?_, '(', _, rfl, by decide⟩
      simp only [List.cons_append, List.append_assoc, List.mem_cons, List.mem_append,
        List.not_mem_nil, or_false] at hc
      rcases hc with rfl | hc | rfl | rfl | hc | rfl
      · decide
      · exact isGraphic_of_mem_ofInt _ c hc
      · decide
      · exact isGraphic_of_mem_widthLetters _ _ hletter
      · exact isGraphic_of_mem_adjustment _ adjustment c hadjustment hc
      · decide

theorem isClean_of_writtenType (type : ValueType) (mask : UInt64) (t : Text)
    (h : WrittenType type mask t) : t ≠ [] ∧ ∀ c ∈ t, IsClean c := by
  have hvisible : type.keyword.all (fun c => decide (IsGraphic c)) = true := by
    cases type <;> decide
  have hkeyword : type.keyword ≠ [] ∧ ∀ c ∈ type.keyword, IsGraphic c :=
    ⟨by cases type <;> decide, fun c hc => of_decide_eq_true (List.all_eq_true.1 hvisible c hc)⟩
  -- Besides the keyword there are only the mask's mark and its digits.
  cases h with
  | masked digits hnumeric hdigits =>
      refine ⟨fun hnil => hkeyword.1 (List.append_eq_nil_iff.1 hnil).1,
        fun c hc => isClean_of_isGraphic c ?_⟩
      simp only [List.mem_append, List.mem_cons] at hc
      rcases hc with hc | rfl | rfl | rfl | hc
      · exact hkeyword.2 c hc
      · decide
      · decide
      · decide
      · exact isGraphic_of_mem_digits 16 0 _ digits c
          (digitsValueFrom?_of_isHexadecimal _ digits hdigits) hc
  | unmasked => exact ⟨hkeyword.1, fun c hc => isClean_of_isGraphic c (hkeyword.2 c hc)⟩

theorem isClean_of_writtenComparison (operator : Operator) (operand : Value) (t : Text)
    (h : WrittenComparison operator operand t) : t ≠ [] ∧ ∀ c ∈ t, IsClean c := by
  have hsymbol : IsGraphic operator.symbol := by cases operator <;> decide
  -- Every comparison begins with the symbol of its operator, so it is not empty.
  cases h with
  | any =>
      refine ⟨List.cons_ne_nil _ _, fun c hc => ?_⟩
      rw [List.mem_singleton.1 hc]
      decide
  | number _ n =>
      refine ⟨List.cons_ne_nil _ _, fun c hc => ?_⟩
      rcases List.mem_cons.1 hc with rfl | hc
      · exact isClean_of_isGraphic _ hsymbol
      · exact isClean_of_isGraphic c (isGraphic_of_mem_ofInt _ c hc)
  | bytes _ content spelling _ hspelling =>
      refine ⟨List.cons_ne_nil _ _, fun c hc => ?_⟩
      rcases List.mem_cons.1 hc with rfl | hc
      · exact isClean_of_isGraphic _ hsymbol
      · exact isClean_of_spelled content spelling c hspelling hc

end Database

end FileSignatures
