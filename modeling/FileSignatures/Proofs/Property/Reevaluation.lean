import FileSignatures.Proofs.Expression.Numerals
import FileSignatures.Proofs.Property.Fields
import FileSignatures.Proofs.Property.Groups
import FileSignatures.Proofs.Property.Reported

/-!
# Evaluating a property again

A count of channels is reported in decimal, which is an expression like any other. A
number that is not negative is a numeral, and a negative one a sign before a numeral
(`writes_ofInt`). The numeral has to be a word itself, before its sign is applied, so of
all words only the least one cannot be read again: no word is its opposite. It is the
value of other expressions nevertheless, as every word is of some.

A description with a single group that gives such a count is therefore extracted with
the same result from the count that has been reported, except for the least word.
Around the group there may be any text that opens no other one.

## Main definitions

* `Expression.Tree.ofInt`: The tree of an integer in decimal.
* `Description.withChannels`: A description with the count of channels as its group.
* `Extraction.ofChannels`: A comment and a count of channels.

## Theorems

* `writes_ofInt`: What an integer in decimal writes.
* `evaluate_integer_ofInt`: A word in decimal has the value that it shows.
* `exists_evaluate_integer`: Every word is the value of an expression.
* `addTokens_channels`: What a count of channels adds.
* `ofDescription_withChannels`: What is extracted from such a description.
* `evaluate_integer_again`: Values are evaluated again.
* `least_not_evaluated_again`: The least word is not.
-/

namespace FileSignatures

namespace Expression

/-- The tree of an integer in decimal. -/
def Tree.ofInt (n : Int) : Tree :=
  if n < 0 then .signed .minus (.numeral (Text.ofNat n.natAbs))
  else .numeral (Text.ofNat n.natAbs)

/-- An integer in decimal writes a numeral, with a sign before it if it is negative. -/
theorem writes_ofInt (n : Int) : Writes isDigit (Text.ofInt n) (.ofInt n) := by
  unfold Tree.ofInt
  rcases ofInt_cases n with ⟨hsign, heq⟩ | ⟨hsign, heq⟩
  · rw [heq, if_neg (by omega)]
    exact writes_ofNat isDigit n.natAbs fun _ h => h
  · -- The sign and the digits are two tokens.
    rw [heq, if_pos hsign]
    have hspells := spells_flatMap [.symbol '-', .numeral (Text.ofNat n.natAbs)]
    rw [List.flatMap_cons, List.flatMap_singleton] at hspells
    exact ⟨_, hspells, .sum _ _ (.product _ _ (.sign .minus _ _
      (derives_ofNat isDigit n.natAbs fun _ h => h)))⟩

/-- In checked integers the numeral must be in range, and its opposite then is, too. -/
theorem evaluate_ofInt (n : Int) (hlt : n.natAbs < Literal.signedBound) :
    (Tree.ofInt n).evaluate checkedIntegers = .ok n := by
  have hnumeral : checkedIntegers.numeral (Text.ofNat n.natAbs) = .ok (n.natAbs : Int) := by
    simp only [checkedIntegers, decimalValue_ofNat, if_pos hlt]
  unfold Tree.ofInt
  split
  · rename_i hsign
    have hopposite : -(n.natAbs : Int) = n := by omega
    have hword : IsWord n := by
      unfold IsWord Literal.signedBound at *
      omega
    have hnegate : checkedIntegers.negate (n.natAbs : Int) = .ok n := by
      simp only [checkedIntegers, checkedInteger, hopposite, if_pos hword]
    -- The numeral comes first, and must be in range without its sign.
    show (checkedIntegers.numeral _ >>= checkedIntegers.negate) = _
    rw [hnumeral]
    exact hnegate
  · rename_i hsign
    have hself : (n.natAbs : Int) = n := by omega
    rw [Tree.evaluate, hnumeral, hself]

/-- A word in decimal has the value that it shows, unless it is the least one. -/
theorem evaluate_integer_ofInt (n : Int64) (hne : n ≠ Int64.minValue) :
    Evaluator.arithmetic.integer (Text.ofInt n.toInt) = .ok n := by
  have hleast : n.toInt ≠ -Literal.signedBound := fun heq => hne (Int64.toInt_inj.1 heq)
  -- The magnitude of every other word is the magnitude of a positive word.
  have hlt : n.toInt.natAbs < Literal.signedBound := by
    have hlow := n.le_toInt
    have hhigh := n.toInt_lt
    unfold Literal.signedBound at *
    omega
  have hvalue := map_evaluate_of_writes _ _ (writes_ofInt n.toInt)
  rw [evaluate_ofInt n.toInt hlt] at hvalue
  cases hresult : Evaluator.arithmetic.integer (Text.ofInt n.toInt) with
  | error e =>
      rw [hresult] at hvalue
      exact absurd hvalue (by simp only [Except.map, reduceCtorEq, not_false_eq_true])
  | ok w =>
      rw [hresult] at hvalue
      exact congrArg Except.ok (Int64.toInt_inj.1 (Except.ok.inj hvalue))

/-- The least word in decimal has no value: its digits are no word. -/
theorem evaluate_integer_least :
    Evaluator.arithmetic.integer (Text.ofInt Int64.minValue.toInt)
      = .error (.invalidNumeral "9223372036854775808".toList) := rfl

/-- Every word is the value of an expression. -/
theorem exists_evaluate_integer (n : Int64) : ∃ e, Evaluator.arithmetic.integer e = .ok n := by
  by_cases hleast : n = Int64.minValue
  · exact ⟨"-9223372036854775807-1".toList, by rw [hleast]; rfl⟩
  · exact ⟨_, evaluate_integer_ofInt n hleast⟩

end Expression

/-- A description with a single group, which gives a count of channels. -/
def Description.withChannels (before value after : Text) : Text :=
  before ++ ('[' :: (PropertyKey.channels ++ '=' :: value) ++ ']' :: after)

/-- A comment and a count of channels, and no other property. -/
def Extraction.ofChannels (comment : Text) (n : Int64) : Extraction :=
  ⟨comment, (PropertyMap.empty.insert PropertyKey.channels (Text.ofInt n.toInt)).insert
    PropertyKey.comment comment⟩

theorem Extraction.channels_ofChannels (comment : Text) (n : Int64) :
    (Extraction.ofChannels comment n).properties.get? PropertyKey.channels
      = some (Text.ofInt n.toInt) := by
  unfold Extraction.ofChannels
  rw [PropertyMap.get?_insert, if_neg (by decide), PropertyMap.get?_insert, if_pos rfl]

open PropertyKey in
theorem addTokens_channels (map : PropertyMap) (value : Text) (more : List Text) :
    Property.addTokens .arithmetic map ((channels ++ '=' :: value) :: more)
      = match Evaluator.arithmetic.integer (value.trimBy isControlOrSpace) with
        | .error reason => .error ⟨channels, value.trimBy isControlOrSpace, reason⟩
        | .ok n => Property.addTokens .arithmetic (map.insert channels (Text.ofInt n.toInt))
          more := by
  have htrim : channels.trimBy isControlOrSpace = channels := by decide +kernel
  have htoken := Property.ofToken?_append channels value (by decide)
    (htrim.symm ▸ by decide)
  rw [htrim] at htoken
  have hlookup : lookup? channels = some (channels, .integer) := by decide +kernel
  simp only [Property.addTokens, htoken, Property.evaluate, hlookup]
  cases Evaluator.arithmetic.integer (value.trimBy isControlOrSpace) with
  | error reason => rfl
  | ok n => rfl

open PropertyKey in
/-- What is extracted from a description with a count of channels. -/
theorem ofDescription_withChannels (before value after : Text)
    (hbefore : ∀ c ∈ before, c ≠ '[' ∧ c ≠ ']') (hvalue : ∀ c ∈ value, c ∉ ['[', ']', ';'])
    (hafter : '[' ∉ after) :
    Extraction.ofDescription .arithmetic (Description.withChannels before value after)
      = match Evaluator.arithmetic.integer (value.trimBy isControlOrSpace) with
        | .error reason => .error ⟨channels, value.trimBy isControlOrSpace, reason⟩
        | .ok n => .ok (.ofChannels (before ++ (Description.splitAt 0 after).1) n) := by
  have hbody : ∀ c ∈ channels ++ '=' :: value, c ∉ ['[', ']', ';'] := by
    intro c hc
    rcases List.mem_append.1 hc with hc | hc
    · exact notMem_of_all channels _ (by decide) c hc
    · rcases List.mem_cons.1 hc with rfl | hc
      · decide
      · exact hvalue c hc
  have hplain := Description.ne_bracket_of_notMem _ hbody
  have hpieces := pieces_append_separator ';' (channels ++ '=' :: value)
    (Description.splitAt 0 after).2 (fun hmem => hbody _ hmem (by decide))
  have hbehind : ∀ map, Property.addTokens .arithmetic map
      (Text.pieces ';' (Description.splitAt 0 after).2) = .ok map := fun map =>
    Property.addTokens_separators .arithmetic map _
      (Description.eq_separator_of_mem_splitAt 0 after (by omega) hafter)
  rw [ofDescription_eq]
  unfold Description.tokens Description.withChannels
  rw [Description.split_group before _ after hbefore hplain]
  simp only
  -- The first piece is the property, and those behind it are empty.
  rw [hpieces, addTokens_channels]
  cases Evaluator.arithmetic.integer (value.trimBy isControlOrSpace) with
  | error reason => rfl
  | ok n =>
      simp only
      rw [hbehind]
      rfl

/-- A decimal has nothing in it that means something in a description. -/
theorem notMem_ofInt (n : Int) : ∀ c ∈ Text.ofInt n, c ∉ ['[', ']', ';'] := by
  intro c hc hspecial
  rcases mem_ofInt n c hc with rfl | hdigit
  · exact absurd hspecial (by decide)
  · simp only [List.mem_cons, List.not_mem_nil, or_false] at hspecial
    rcases hspecial with rfl | rfl | rfl <;> exact absurd hdigit (by decide)

/-- There is nothing around a decimal that would be trimmed. -/
theorem trimBy_ofInt (n : Int) :
    (Text.ofInt n).trimBy isControlOrSpace = Text.ofInt n := by
  refine trimBy_eq_self isControlOrSpace _ fun c hc => ?_
  rcases mem_ofInt n c hc with rfl | hdigit
  · decide
  · exact not_control_of_isDigit c hdigit

/-- A description from which a count of channels has been extracted gives the same once
    more with the reported count in its place, unless that is the least word. -/
theorem ofDescription_again (before value after : Text) (extraction : Extraction)
    (hbefore : ∀ c ∈ before, c ≠ '[' ∧ c ≠ ']') (hvalue : ∀ c ∈ value, c ∉ ['[', ']', ';'])
    (hafter : '[' ∉ after)
    (h : Extraction.ofDescription .arithmetic (Description.withChannels before value after)
      = .ok extraction) :
    ∃ n : Int64, extraction.properties.get? PropertyKey.channels = some (Text.ofInt n.toInt)
      ∧ (Extraction.ofDescription .arithmetic
          (Description.withChannels before (Text.ofInt n.toInt) after) = .ok extraction
        ↔ n ≠ Int64.minValue) := by
  rw [ofDescription_withChannels before value after hbefore hvalue hafter] at h
  cases hresult : Evaluator.arithmetic.integer (value.trimBy isControlOrSpace) with
  | error reason =>
      rw [hresult] at h
      exact absurd h (by simp only [reduceCtorEq, not_false_eq_true])
  | ok n =>
      rw [hresult] at h
      refine ⟨n, ?_, ?_⟩
      · rw [← Except.ok.inj h]
        exact Extraction.channels_ofChannels _ n
      · rw [ofDescription_withChannels before _ after hbefore (notMem_ofInt _) hafter,
          trimBy_ofInt]
        -- The least word is the one whose numeral is out of range without its sign.
        constructor
        · intro hagain hleast
          rw [hleast, Expression.evaluate_integer_least] at hagain
          exact absurd hagain (by simp only [reduceCtorEq, not_false_eq_true])
        · intro hne
          rw [Expression.evaluate_integer_ofInt n hne]
          exact h

/-- Values are evaluated again. Every word is the value of an expression, and in decimal
    it has that value again if and only if it is not the least word. A description with a
    single group, which gives a count of channels, is extracted with the same result from
    the reported count, again if and only if that is not the least word. -/
theorem evaluate_integer_again :
    (∀ n : Int64, ∃ e, Evaluator.arithmetic.integer e = .ok n)
      ∧ (∀ (e : Text) (n : Int64), Evaluator.arithmetic.integer e = .ok n →
          (Evaluator.arithmetic.integer (Text.ofInt n.toInt) = .ok n ↔ n ≠ Int64.minValue))
      ∧ ∀ (before e after : Text) (extraction : Extraction),
          (∀ c ∈ before, c ≠ '[' ∧ c ≠ ']') → (∀ c ∈ e, c ∉ ['[', ']', ';']) → '[' ∉ after →
          Extraction.ofDescription .arithmetic (Description.withChannels before e after)
            = .ok extraction →
          ∃ value, extraction.properties.get? PropertyKey.channels = some value
            ∧ (Extraction.ofDescription .arithmetic (Description.withChannels before value after)
                = .ok extraction ↔ value ≠ "-9223372036854775808".toList) := by
  refine ⟨Expression.exists_evaluate_integer, fun e n _ => ⟨fun hagain hleast => ?_,
    Expression.evaluate_integer_ofInt n⟩, ?_⟩
  · rw [hleast, Expression.evaluate_integer_least] at hagain
    exact absurd hagain (by simp only [reduceCtorEq, not_false_eq_true])
  · intro before e after extraction hbefore hvalue hafter h
    obtain ⟨n, hreported, hagain⟩ :=
      ofDescription_again before e after extraction hbefore hvalue hafter h
    have hleast : Text.ofInt Int64.minValue.toInt = "-9223372036854775808".toList := rfl
    refine ⟨Text.ofInt n.toInt, hreported, hagain.trans (not_congr ?_)⟩
    rw [← hleast]
    refine ⟨fun heq => by rw [heq], fun heq => by_contra fun hne => ?_⟩
    -- The same decimal cannot both have a value and have none.
    have hvalue := Expression.evaluate_integer_ofInt n hne
    rw [heq, Expression.evaluate_integer_least] at hvalue
    exact absurd hvalue (by simp only [reduceCtorEq, not_false_eq_true])

theorem evaluate_integer_again_samples :
    Evaluator.arithmetic.integer "2*(3-10)".toList = .ok (-14)
      ∧ Evaluator.arithmetic.integer "-14".toList = .ok (-14)
      ∧ Extraction.ofDescription .arithmetic "Tone [chn=2*(3+4)] 16 bit".toList
        = .ok (.ofChannels "Tone  16 bit".toList 14)
      ∧ Extraction.ofDescription .arithmetic "Tone [chn=14] 16 bit".toList
        = .ok (.ofChannels "Tone  16 bit".toList 14) := by
  have hvalue : Evaluator.arithmetic.integer "2*(3-10)".toList = .ok (-14) := rfl
  have hnumber := (evaluate_integer_again.2.1 "2*(3-10)".toList (-14) hvalue).2 (by decide)
  have hextracted : Extraction.ofDescription .arithmetic "Tone [chn=2*(3+4)] 16 bit".toList
      = .ok (.ofChannels "Tone  16 bit".toList 14) :=
    ofDescription_withChannels "Tone ".toList "2*(3+4)".toList " 16 bit".toList (by simp)
      (by simp) (by decide +kernel)
  obtain ⟨value, hreported, hagain⟩ := evaluate_integer_again.2.2 "Tone ".toList
    "2*(3+4)".toList " 16 bit".toList _ (by simp) (by simp) (by decide +kernel) hextracted
  -- The count that is reported is the one that is written in its place.
  have hfourteen : value = "14".toList :=
    Option.some.inj (hreported.symm.trans (Extraction.channels_ofChannels _ 14))
  rw [hfourteen] at hagain
  exact ⟨hvalue, hnumber, hextracted, hagain.2 (by decide)⟩

/-- The least word is the value of a difference, and its decimal has no value. -/
theorem least_not_evaluated_again :
    Evaluator.arithmetic.integer "-9223372036854775807-1".toList = .ok Int64.minValue
      ∧ Text.ofInt Int64.minValue.toInt = "-9223372036854775808".toList
      ∧ Evaluator.arithmetic.integer "-9223372036854775808".toList
        = .error (.invalidNumeral "9223372036854775808".toList)
      ∧ Extraction.ofDescription .arithmetic "Tone [chn=-9223372036854775807-1]".toList
        = .ok (.ofChannels "Tone ".toList Int64.minValue)
      ∧ Extraction.ofDescription .arithmetic "Tone [chn=-9223372036854775808]".toList
        = .error ⟨PropertyKey.channels, "-9223372036854775808".toList,
          .invalidNumeral "9223372036854775808".toList⟩ :=
  ⟨rfl, rfl, rfl,
    ofDescription_withChannels "Tone ".toList "-9223372036854775807-1".toList [] (by simp)
      (by simp) (by decide +kernel),
    ofDescription_withChannels "Tone ".toList "-9223372036854775808".toList [] (by simp)
      (by simp) (by decide +kernel)⟩

end FileSignatures
