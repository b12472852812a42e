import FileSignatures.Proofs.Matching.Evaluation
import Mathlib.Data.Nat.Digits.Defs

/-!
# When a rule holds

What it means for a rule to hold on some bytes, said without any reading: where
its offset leads, which bytes it compares, and how they compare. The relations
are written from the rules of the format. Of the functions that matching is
computed by they share none: numbers are digits to the base 256, and upper case
is that of characters. `valueIn?_eq_some_iff` says that the two agree on
well-formed rules.

A base is counted from either end and must lie in the data or at its end. An
indirect offset needs its whole pointer inside, and takes it as an unsigned
number; only the place that the pointer leads to, adjusted, has to lie in the
data again. What is compared has to fit in the data in full, and a capture fits
if its zero byte comes in time.

## Main definitions

* `StartIn`, `BaseAt`: The position that a signed base stands for.
* `ValueType.unsignedReading`: The unsigned number of some bytes, in the order of a type.
* `upperCase`: The byte of a character in upper case.
* `Offset.LeadsTo`: The position that an offset leads to.
* `UpToZero`: A capture, up to the first zero byte.
* `Rule.Reads`: The bytes that a rule compares.
* `Rule.valueOf`: The value that these bytes are.
* `Operator.Accepts`: A comparison that holds.
* `Rule.HoldsWith`: A rule holds with a value.

## Theorems

* `value_eq_unsignedReading`: The number that is read is the unsigned one.
* `upperByte_eq_upperCase`: What case folding comes to.
* `unsignedReading_lt`: The bytes of a number bound it.
* `leadsTo_unique`: An offset leads to one position.
* `target?_eq_some_iff`: Where an offset leads.
* `captureAt?_eq_some_iff`: What a capture takes.
* `exists_upToZero_iff`: When a capture ends.
* `holds?_eq_true_iff`: When a comparison holds.
* `valueIn?_eq_some_iff`: When a rule holds, and with which value.
-/

namespace FileSignatures

/-- The start that a base stands for: the base itself, or as far before the length as it is
    below zero. It lies within the length or at its end. -/
def StartIn (length : Nat) (base : Int64) (start : Nat) : Prop :=
  (start : Int) = (if 0 ≤ base.toInt then base.toInt else length - base.toInt.natAbs)
    ∧ start ≤ length

/-- The position that a signed base stands for: counted from the start, or from
    the end if it is negative. -/
def BaseAt (d : List UInt8) (base : Int64) (position : Nat) : Prop :=
  position ≤ d.length
    ∧ (position : Int) = if 0 ≤ base.toInt then base.toInt else d.length + base.toInt

/-- The unsigned number of some bytes, the most significant one first where the type says
    so. -/
def ValueType.unsignedReading (type : ValueType) (bytes : List UInt8) : Nat :=
  match type with
  | .beShort | .beLong => Nat.ofDigits 256 (bytes.reverse.map UInt8.toNat)
  | _ => Nat.ofDigits 256 (bytes.map UInt8.toNat)

/-- The byte of a character in upper case. Only ASCII letters have two cases. -/
def upperCase (b : UInt8) : UInt8 :=
  (Char.ofUInt8 b).toUpper.toUInt8

/-- The position that an offset leads to. The pointer of an indirect one is the
    unsigned number of its type at the base. -/
inductive Offset.LeadsTo (d : List UInt8) : Offset → Nat → Prop
  | direct (base : Int64) (start : Nat) (hbase : BaseAt d base start) :
      LeadsTo d (.direct base) start
  | indirect (pointer : Pointer) (start target : Nat) (hbase : BaseAt d pointer.base start)
      (hfits : start + pointer.width.width ≤ d.length)
      (htarget : (target : Int)
        = pointer.width.unsignedReading ((d.drop start).take pointer.width.width)
          + pointer.adjustment.toInt)
      (hle : target ≤ d.length) :
      LeadsTo d (.indirect pointer) target

/-- As many bytes as the limit allows without a zero byte among them, or fewer up
    to and including the first one. -/
def UpToZero (limit : Nat) (bytes : List UInt8) : Prop :=
  (0 ∉ bytes ∧ bytes.length = limit)
    ∨ ∃ before, bytes = before ++ [0] ∧ 0 ∉ before ∧ bytes.length ≤ limit

/-- The bytes that a rule compares, which have to fit in the data. -/
inductive Rule.Reads (d : List UInt8) (rule : Rule) (start : Nat) : List UInt8 → Prop
  | number (hnumeric : rule.type.isNumeric = true) (hfits : start + rule.type.width ≤ d.length) :
      Reads d rule start ((d.drop start).take rule.type.width)
  | exact (hstring : rule.type.isNumeric = false) (hoperator : rule.operator = .equal)
      (hfits : start + rule.operand.size ≤ d.length) :
      Reads d rule start ((d.drop start).take rule.operand.size)
  | capture (hstring : rule.type.isNumeric = false)
      (hoperator : rule.operator = .any ∨ rule.operator = .greater)
      (limit count : Nat) (hlimit : rule.capture = some limit)
      (hfits : start + count ≤ d.length) (hzero : UpToZero limit ((d.drop start).take count)) :
      Reads d rule start ((d.drop start).take count)

/-- The value that some bytes are for a rule: a masked unsigned number, or a
    string, in upper case where case does not count. -/
def Rule.valueOf (rule : Rule) (bytes : List UInt8) : Value :=
  if rule.type.isNumeric then
    .number (UInt64.ofNat (rule.type.unsignedReading bytes) &&& rule.mask).toInt64
  else if rule.type = .caselessString then .bytes (bytes.map upperCase)
  else .bytes bytes

/-- A comparison of the value read with the operand that holds. -/
inductive Operator.Accepts : Operator → Value → Value → Prop
  | any (read operand : Value) : Accepts .any read operand
  | equal (value : Value) : Accepts .equal value value
  | numbersDiffer (a b : Int64) (h : a ≠ b) : Accepts .notEqual (.number a) (.number b)
  | stringsDiffer (a b : List UInt8) (h : a ≠ b) : Accepts .notEqual (.bytes a) (.bytes b)
  | greaterNumber (a b : Int64) (h : b.toInt < a.toInt) : Accepts .greater (.number a) (.number b)
  | greaterByte (x y : UInt8) (a b : List UInt8) (h : y.toNat < x.toNat) :
      Accepts .greater (.bytes (x :: a)) (.bytes (y :: b))
  | less (a b : Int64) (h : a.toInt < b.toInt) : Accepts .less (.number a) (.number b)
  | sharesBits (a b : Int64) (h : a &&& b ≠ 0) : Accepts .sharesBits (.number a) (.number b)
  | differs (a b : Int64) (h : a ^^^ b ≠ 0) : Accepts .differs (.number a) (.number b)

/-- A rule holds with a value: its offset leads somewhere, what it compares fits
    there, and the value satisfies its operator. -/
def Rule.HoldsWith (d : List UInt8) (rule : Rule) (value : Value) : Prop :=
  ∃ start bytes, rule.offset.LeadsTo d start ∧ rule.Reads d start bytes
    ∧ value = rule.valueOf bytes ∧ rule.operator.Accepts value rule.operand

theorem leadsTo_le (d : List UInt8) (offset : Offset) (position : Nat)
    (h : offset.LeadsTo d position) : position ≤ d.length := by
  cases h with
  | direct base start hbase => exact hbase.1
  | indirect pointer start target hbase hfits htarget hle => exact hle

theorem leadsTo_unique (d : List UInt8) (offset : Offset) (first second : Nat)
    (h : offset.LeadsTo d first) (hsecond : offset.LeadsTo d second) : first = second := by
  cases h with
  | direct base start hbase =>
      cases hsecond with
      | direct _ other hother =>
          have hsame := hbase.2.trans hother.2.symm
          omega
  | indirect pointer start target hbase hfits htarget hle =>
      cases hsecond with
      | indirect _ other second hother hfits' htarget' hle' =>
          have hsame := hbase.2.trans hother.2.symm
          -- The pointers stand at the same place, so they are the same bytes.
          have hstart : other = start := by omega
          rw [hstart] at htarget'
          omega

/-- A comparison of numbers is computed to hold exactly if it does. -/
theorem holdsOnNumbers_iff (operator : Operator) (a b : Int64) :
    operator.holdsOnNumbers a b = true ↔ operator.Accepts (.number a) (.number b) := by
  -- Of two numbers every comparison has a meaning, and one constructor each states it.
  cases operator with
  | equal =>
      simp only [Operator.holdsOnNumbers, decide_eq_true_eq]
      exact ⟨fun h => h ▸ .equal (.number a), fun h => by cases h; rfl⟩
  | notEqual =>
      simp only [Operator.holdsOnNumbers, decide_eq_true_eq]
      exact ⟨fun h => .numbersDiffer a b h, fun h => by cases h; assumption⟩
  | greater =>
      simp only [Operator.holdsOnNumbers, decide_eq_true_eq, Int64.lt_iff_toInt_lt]
      exact ⟨fun h => .greaterNumber a b h, fun h => by cases h; assumption⟩
  | less =>
      simp only [Operator.holdsOnNumbers, decide_eq_true_eq, Int64.lt_iff_toInt_lt]
      exact ⟨fun h => .less a b h, fun h => by cases h; assumption⟩
  | sharesBits =>
      simp only [Operator.holdsOnNumbers, decide_eq_true_eq]
      exact ⟨fun h => .sharesBits a b h, fun h => by cases h; assumption⟩
  | differs =>
      simp only [Operator.holdsOnNumbers, decide_eq_true_eq]
      exact ⟨fun h => .differs a b h, fun h => by cases h; assumption⟩
  | any => exact ⟨fun _ => .any _ _, fun _ => rfl⟩

/-- A comparison of strings is computed to hold exactly if it does. Those without a
    meaning hold of none. -/
theorem holdsOnBytes?_iff (operator : Operator) (a b : List UInt8) :
    operator.holdsOnBytes? a b = some true ↔ operator.Accepts (.bytes a) (.bytes b) := by
  cases operator with
  | equal =>
      simp only [Operator.holdsOnBytes?, Option.some.injEq, decide_eq_true_eq]
      exact ⟨fun h => h ▸ .equal (.bytes a), fun h => by cases h; rfl⟩
  | notEqual =>
      simp only [Operator.holdsOnBytes?, Option.some.injEq, decide_eq_true_eq]
      exact ⟨fun h => .stringsDiffer a b h, fun h => by cases h; assumption⟩
  | greater =>
      -- Greater looks at the first byte of each, and an empty string has none.
      rcases a with _ | ⟨x, a⟩
      · exact ⟨fun h => absurd h (by simp only [Operator.holdsOnBytes?, Option.some.injEq,
          Bool.false_eq_true, not_false_eq_true]), fun h => by cases h⟩
      · rcases b with _ | ⟨y, b⟩
        · exact ⟨fun h => absurd h (by simp only [Operator.holdsOnBytes?, Option.some.injEq,
            Bool.false_eq_true, not_false_eq_true]), fun h => by cases h⟩
        · simp only [Operator.holdsOnBytes?, Option.some.injEq, decide_eq_true_eq,
            UInt8.lt_iff_toNat_lt]
          exact ⟨fun h => .greaterByte x y a b h, fun h => by cases h; assumption⟩
  | less => exact ⟨fun h => absurd h (by simp only [Operator.holdsOnBytes?, reduceCtorEq,
      not_false_eq_true]), fun h => by cases h⟩
  | sharesBits => exact ⟨fun h => absurd h (by simp only [Operator.holdsOnBytes?, reduceCtorEq,
      not_false_eq_true]), fun h => by cases h⟩
  | differs => exact ⟨fun h => absurd h (by simp only [Operator.holdsOnBytes?, reduceCtorEq,
      not_false_eq_true]), fun h => by cases h⟩
  | any => exact ⟨fun _ => .any _ _, fun _ => rfl⟩

/-- A comparison is computed to hold exactly if it does. -/
theorem holds?_eq_true_iff (operator : Operator) (read operand : Value) :
    operator.holds? read operand = some true ↔ operator.Accepts read operand := by
  by_cases hany : operator = .any
  · subst hany
    exact ⟨fun _ => .any read operand, fun _ => by cases read <;> cases operand <;> rfl⟩
  · rcases read with a | a <;> rcases operand with b | b
    · rw [← holdsOnNumbers_iff]
      cases operator <;> simp only [Operator.holds?, Option.some.injEq]
      exact absurd rfl hany
    -- A number and a string compare in no way, but every value will do for `any`.
    · refine ⟨fun h => ?_, fun h => ?_⟩
      · cases operator <;> simp only [Operator.holds?, reduceCtorEq] at h
        exact absurd rfl hany
      · cases h
        exact absurd rfl hany
    · refine ⟨fun h => ?_, fun h => ?_⟩
      · cases operator <;> simp only [Operator.holds?, reduceCtorEq] at h
        exact absurd rfl hany
      · cases h
        exact absurd rfl hany
    · rw [← holdsOnBytes?_iff]
      cases operator <;> simp only [Operator.holds?]
      exact absurd rfl hany

/-- The start of a base is the position that is computed for it. -/
theorem positionIn?_eq_some_iff_startIn (length : Nat) (base : Int64) (start : Nat) :
    positionIn? length base = some start ↔ StartIn length base start := by
  unfold positionIn? StartIn
  simp only
  split
  · split
    · rw [Option.some.injEq]
      omega
    · simp only [reduceCtorEq, false_iff]
      omega
  · split
    · rw [Option.some.injEq]
      omega
    · simp only [reduceCtorEq, false_iff]
      omega

/-- A base stands for the position that is computed for it. -/
theorem positionIn?_eq_some_iff (d : List UInt8) (base : Int64) (position : Nat) :
    positionIn? d.length base = some position ↔ BaseAt d base position := by
  rw [positionIn?_eq_some_iff_startIn, StartIn, BaseAt]
  split <;> omega

theorem littleValue_eq_ofDigits (bytes : List UInt8) :
    ByteOrder.littleValue bytes = Nat.ofDigits 256 (bytes.map UInt8.toNat) := by
  induction bytes with
  | nil => rfl
  | cons b rest ih => rw [ByteOrder.littleValue, List.map_cons, Nat.ofDigits_cons, ih]

/-- The number that is read is the unsigned one. -/
theorem value_eq_unsignedReading (type : ValueType) (bytes : List UInt8) :
    type.byteOrder.value bytes = type.unsignedReading bytes := by
  cases type <;> exact littleValue_eq_ofDigits _

/-- Case is folded to upper case. There are only so many bytes to compare. -/
theorem upperByte_eq_upperCase (b : UInt8) : upperByte b = upperCase b := by
  have hall : ∀ n < 256, upperByte (UInt8.ofNat n) = upperCase (UInt8.ofNat n) := by
    decide +kernel
  have h := hall b.toNat b.toNat_lt
  rwa [UInt8.ofNat_toNat] at h

/-- The number that some bytes are is bounded by their count. -/
theorem unsignedReading_lt (type : ValueType) (bytes : List UInt8) :
    type.unsignedReading bytes < 256 ^ bytes.length := by
  have hdigits : ∀ l : List UInt8, Nat.ofDigits 256 (l.map UInt8.toNat) < 256 ^ l.length := by
    intro l
    have hlt := Nat.ofDigits_lt_base_pow_length (b := 256) (l := l.map UInt8.toNat) (by omega)
      (fun digit hdigit => by
        obtain ⟨b, -, rfl⟩ := List.mem_map.1 hdigit
        exact b.toNat_lt)
    rwa [List.length_map] at hlt
  have hreverse := hdigits bytes.reverse
  rw [List.length_reverse] at hreverse
  cases type <;> first | exact hdigits bytes | exact hreverse

theorem and_fullMask (n : UInt64) : n &&& Value.fullMask = n := by
  change n &&& -1 = n
  exact UInt64.and_neg_one

/-- The number of a type needs at most 32 bits. -/
theorem unsignedReading_lt_of_width (type : ValueType) (bytes : List UInt8)
    (hlength : bytes.length = type.width) : type.unsignedReading bytes < 4294967296 := by
  have hlt := unsignedReading_lt type bytes
  have hwidth : type.width ≤ 4 := by cases type <;> simp only [ValueType.width] <;> omega
  have hpow : 256 ^ bytes.length ≤ 256 ^ 4 := Nat.pow_le_pow_right (by omega) (by omega)
  omega

/-- A number of at most 32 bits is not negative as a signed word. -/
theorem toInt_toInt64_ofNat (n : Nat) (h : n < 4294967296) :
    (UInt64.ofNat n).toInt64.toInt = n := by
  -- Bit patterns are shared, so the conversion is one of natural numbers.
  have hnat : (UInt64.ofNat n).toInt64 = Int64.ofNat n := rfl
  rw [hnat, Int64.toInt_ofNat_of_lt (by omega)]

/-- Nor is it after a mask, which only clears bits. -/
theorem toInt_masked (n : Nat) (mask : UInt64) (h : n < 4294967296) :
    (UInt64.ofNat n &&& mask).toInt64.toInt = (n &&& mask.toNat : Nat) := by
  have hle : n &&& mask.toNat ≤ n := Nat.and_le_left
  have hsize : UInt64.size = 2 ^ 64 := rfl
  have hmasked : UInt64.ofNat n &&& mask = UInt64.ofNat (n &&& mask.toNat) := by
    rw [← UInt64.toNat_inj, UInt64.toNat_and, UInt64.toNat_ofNat_of_lt' (by omega),
      UInt64.toNat_ofNat_of_lt' (by omega)]
  rw [hmasked, toInt_toInt64_ofNat _ (by omega)]

/-- The number of some bytes is the unsigned one that they spell, which fits in a signed
    word. -/
theorem toInt_of_decodeNumber? (type : ValueType) (content : List UInt8) (n : Int64)
    (h : Value.decodeNumber? type Value.fullMask content = some n) :
    n.toInt = type.unsignedReading content := by
  unfold Value.decodeNumber? at h
  rw [value_eq_unsignedReading] at h
  split at h
  · rename_i hfits
    rw [← Option.some.inj h, and_fullMask,
      toInt_toInt64_ofNat _ (unsignedReading_lt_of_width type content hfits.2)]
  · exact absurd h (by simp only [reduceCtorEq, not_false_eq_true])

/-- A number is read exactly if all of its bytes are there. -/
theorem numberAt?_eq_some_iff (d : List UInt8) (type : ValueType) (mask : UInt64)
    (start : Nat) (n : Int64) (hnumeric : type.isNumeric = true) (hstart : start ≤ d.length) :
    numberAt? d type mask start = some n ↔ start + type.width ≤ d.length
      ∧ n = (UInt64.ofNat (type.unsignedReading ((d.drop start).take type.width))
        &&& mask).toInt64 := by
  unfold numberAt? Value.decodeNumber? stretch?
  simp only [value_eq_unsignedReading]
  -- If the bytes are there they are decoded; if one is missing nothing is.
  by_cases hfits : type.width ≤ d.length - start
  · have hlength : ((d.drop start).take type.width).length = type.width := by
      rw [List.length_take, List.length_drop]
      omega
    rw [if_pos hfits, Option.bind_some, if_pos ⟨hnumeric, hlength⟩, Option.some.injEq]
    exact ⟨fun h => ⟨by omega, h.symm⟩, fun h => h.2.symm⟩
  · rw [if_neg hfits, Option.bind_none]
    simp only [reduceCtorEq, false_iff, not_and]
    omega

/-- A pointer is not masked, so it is read as the unsigned number that it is. -/
theorem toInt_of_numberAt? (d : List UInt8) (type : ValueType) (start : Nat) (n : Int64)
    (hnumeric : type.isNumeric = true) (hstart : start ≤ d.length)
    (h : numberAt? d type Value.fullMask start = some n) :
    start + type.width ≤ d.length
      ∧ n.toInt = type.unsignedReading ((d.drop start).take type.width) := by
  rcases (numberAt?_eq_some_iff d type _ start n hnumeric hstart).1 h with ⟨hfits, rfl⟩
  refine ⟨hfits, ?_⟩
  rw [and_fullMask, toInt_toInt64_ofNat]
  refine unsignedReading_lt_of_width type _ ?_
  rw [List.length_take, List.length_drop]
  omega

/-- A pointer leads to its number, adjusted, if that lies in the data. -/
theorem pointer_target?_eq_some_iff (pointer : Pointer) (size target : Nat) (read : Int64) :
    pointer.target? size read = some target ↔
      (target : Int) = read.toInt + pointer.adjustment.toInt ∧ target ≤ size := by
  unfold Pointer.target?
  simp only
  split
  · rw [Option.some.injEq]
    omega
  · simp only [reduceCtorEq, false_iff]
    omega

/-- An offset is computed to lead where it leads. -/
theorem target?_eq_some_iff (d : List UInt8) (offset : Offset) (position : Nat)
    (hpointer : ∀ pointer, offset = .indirect pointer → pointer.width.isNumeric = true) :
    offset.target? d.length d = some position ↔ offset.LeadsTo d position := by
  unfold Offset.target? Offset.start?
  rw [Option.bind_eq_some_iff]
  cases offset with
  | direct base =>
      simp only [Offset.base, positionIn?_eq_some_iff, Option.some.injEq]
      constructor
      · rintro ⟨start, hbase, rfl⟩
        exact .direct base start hbase
      · intro h
        cases h with
        | direct base start hbase => exact ⟨position, hbase, rfl⟩
  | indirect pointer =>
      have hnumeric := hpointer pointer rfl
      simp only [Offset.base, positionIn?_eq_some_iff, Option.bind_eq_some_iff,
        pointer_target?_eq_some_iff]
      constructor
      · -- The pointer fits because it has been read.
        rintro ⟨start, hbase, read, hread, htarget, hle⟩
        rcases toInt_of_numberAt? d pointer.width start read hnumeric hbase.1 hread with
          ⟨hfits, hvalue⟩
        exact .indirect pointer start position hbase hfits (hvalue ▸ htarget) hle
      · -- It can be read because it fits.
        intro h
        cases h with
        | indirect pointer start target hbase hfits htarget hle =>
            have hread := (numberAt?_eq_some_iff d pointer.width Value.fullMask start _ hnumeric
              hbase.1).2 ⟨hfits, rfl⟩
            have hvalue := (toInt_of_numberAt? d pointer.width start _ hnumeric hbase.1 hread).2
            exact ⟨start, hbase, _, hread, hvalue ▸ htarget, hle⟩

theorem not_upToZero_nil (limit : Nat) : ¬ UpToZero (limit + 1) [] := by
  rintro (⟨-, hlength⟩ | ⟨before, heq, -, -⟩)
  · exact absurd hlength (by simp only [List.length_nil, reduceCtorEq, not_false_eq_true])
  · exact absurd heq.symm (by simp only [List.append_eq_nil_iff, List.cons_ne_nil, and_false,
      not_false_eq_true])

/-- A zero byte ends a capture. -/
theorem upToZero_zero_cons_iff (limit : Nat) (tail : List UInt8) :
    UpToZero (limit + 1) (0 :: tail) ↔ tail = [] := by
  constructor
  · rintro (⟨hnot, -⟩ | ⟨_ | ⟨b, before⟩, heq, hnot, -⟩)
    · exact absurd List.mem_cons_self hnot
    · exact (List.cons.inj heq).2
    · exact absurd ((List.cons.inj heq).1 ▸ List.mem_cons_self) hnot
  · rintro rfl
    exact Or.inr ⟨[], rfl, List.not_mem_nil, by simp only [List.length_singleton]; omega⟩

/-- Any other byte leaves the rest of the capture to the rest of the limit. -/
theorem upToZero_cons_iff (limit : Nat) (b : UInt8) (tail : List UInt8) (hb : b ≠ 0) :
    UpToZero (limit + 1) (b :: tail) ↔ UpToZero limit tail := by
  -- The zero byte is another one, so it is counted from the next byte on.
  constructor
  · rintro (⟨hnot, hlength⟩ | ⟨_ | ⟨c, before⟩, heq, hnot, hle⟩)
    · exact Or.inl ⟨fun h => hnot (List.mem_cons_of_mem _ h), Nat.succ.inj hlength⟩
    · exact absurd (List.cons.inj heq).1 hb
    · exact Or.inr ⟨before, (List.cons.inj heq).2, fun h => hnot (List.mem_cons_of_mem _ h),
        Nat.succ_le_succ_iff.1 hle⟩
  · rintro (⟨hnot, hlength⟩ | ⟨before, rfl, hnot, hle⟩)
    · refine Or.inl ⟨fun h => ?_, by rw [List.length_cons, hlength]⟩
      rcases List.mem_cons.1 h with h | h
      · exact hb h.symm
      · exact hnot h
    · refine Or.inr ⟨b :: before, rfl, fun h => ?_, Nat.succ_le_succ hle⟩
      rcases List.mem_cons.1 h with h | h
      · exact hb h.symm
      · exact hnot h

theorem stretch?_one (content : List UInt8) (position : Nat) :
    stretch? content position 1 = (content.drop position).head?.map fun b => [b] := by
  unfold stretch?
  cases hrest : content.drop position with
  | nil =>
      have hlength := congrArg List.length hrest
      rw [List.length_drop, List.length_nil] at hlength
      rw [if_neg (by omega)]
      rfl
  | cons b rest =>
      have hlength := congrArg List.length hrest
      rw [List.length_drop, List.length_cons] at hlength
      rw [if_pos (by omega)]
      rfl

/-- A capture takes what stands at the position, up to the first zero byte. -/
theorem captureAt?_eq_some_iff (content : List UInt8) (limit position : Nat)
    (bytes : List UInt8) : captureAt? content limit position = some bytes ↔
      bytes <+: content.drop position ∧ UpToZero limit bytes := by
  -- A byte that is taken uses up one of the limit, and the rest of the capture
  -- starts behind it.
  induction limit generalizing position bytes with
  | zero =>
      rw [captureAt?, Option.some.injEq]
      constructor
      · rintro rfl
        exact ⟨List.nil_prefix, Or.inl ⟨List.not_mem_nil, rfl⟩⟩
      · rintro ⟨-, ⟨-, hlength⟩ | ⟨before, rfl, -, hle⟩⟩
        · exact (List.length_eq_zero_iff.1 hlength).symm
        · exact absurd hle (by simp only [List.length_append, List.length_singleton]; omega)
  | succ limit ih =>
      rw [captureAt?, stretch?_one]
      have hnext : content.drop (position + 1) = (content.drop position).tail := by
        rw [List.tail_drop]
      have ih' := ih (position + 1)
      rw [hnext] at ih'
      cases hrest : content.drop position with
      | nil =>
          simp only [List.head?_nil, Option.map_none, Option.bind_none, reduceCtorEq, false_iff,
            List.prefix_nil]
          rintro ⟨rfl, hzero⟩
          exact not_upToZero_nil limit hzero
      | cons b rest =>
          rw [hrest, List.tail_cons] at ih'
          simp only [List.head?_cons, Option.map_some, Option.bind_some, List.headD_cons]
          by_cases hb : b = 0
          · -- The capture ends with its zero byte.
            subst hb
            simp only [if_true, Option.some.injEq]
            constructor
            · rintro rfl
              exact ⟨List.prefix_cons_iff.2 (Or.inr ⟨[], rfl, List.nil_prefix⟩),
                (upToZero_zero_cons_iff limit []).2 rfl⟩
            · rintro ⟨hfront, hzero⟩
              rcases List.prefix_cons_iff.1 hfront with rfl | ⟨tail, rfl, -⟩
              · exact absurd hzero (not_upToZero_nil limit)
              · rw [(upToZero_zero_cons_iff limit tail).1 hzero]
          · -- The capture goes on.
            simp only [hb, if_false, Option.map_eq_some_iff]
            constructor
            · rintro ⟨tail, htail, rfl⟩
              rcases (ih' tail).1 htail with ⟨hfront, hzero⟩
              exact ⟨List.cons_prefix_cons.2 ⟨rfl, hfront⟩,
                (upToZero_cons_iff limit b tail hb).2 hzero⟩
            · rintro ⟨hfront, hzero⟩
              rcases List.prefix_cons_iff.1 hfront with rfl | ⟨tail, rfl, htail⟩
              · exact absurd hzero (not_upToZero_nil limit)
              · exact ⟨tail, (ih' tail).2 ⟨htail, (upToZero_cons_iff limit b tail hb).1 hzero⟩,
                  rfl⟩

/-- A capture ends if a zero byte comes in time or all of its bytes are there. -/
theorem exists_upToZero_iff (limit : Nat) (content : List UInt8) :
    (∃ bytes, bytes <+: content ∧ UpToZero limit bytes)
      ↔ 0 ∈ content.take limit ∨ limit ≤ content.length := by
  constructor
  · rintro ⟨bytes, hfront, ⟨-, hlength⟩ | ⟨before, rfl, -, hle⟩⟩
    · exact Or.inr (hlength ▸ hfront.length_le)
    · have hwithin : before ++ [0] <+: content.take limit :=
        List.prefix_take_iff.2 ⟨hfront, hle⟩
      exact Or.inl (hwithin.subset (List.mem_append_right _ List.mem_cons_self))
  · intro hends
    -- The capture stops at the first zero byte within the limit, or at the limit.
    by_cases hzero : (0 : UInt8) ∈ content.take limit
    · obtain ⟨before, rest, hsplit, hbefore⟩ := List.eq_append_cons_of_mem hzero
      have hfront : before ++ [0] <+: content.take limit :=
        ⟨rest, by rw [hsplit, List.append_assoc, List.singleton_append]⟩
      obtain ⟨hcontent, hle⟩ := List.prefix_take_iff.1 hfront
      exact ⟨before ++ [0], hcontent, Or.inr ⟨before, rfl, hbefore, hle⟩⟩
    · have hlength : (content.take limit).length = limit :=
        List.length_take_of_le (hends.resolve_left hzero)
      exact ⟨content.take limit, List.take_prefix limit content, Or.inl ⟨hzero, hlength⟩⟩

/-- Up to its zero byte a capture is what stands there. -/
theorem takeWhile_of_upToZero (limit : Nat) (content bytes : List UInt8)
    (hfront : bytes <+: content) (h : UpToZero limit bytes) :
    bytes.takeWhile (· ≠ 0) = (content.take limit).takeWhile (· ≠ 0) := by
  rcases h with ⟨-, hlength⟩ | ⟨before, rfl, hbefore, hle⟩
  · rw [← hlength, ← List.prefix_iff_eq_take.1 hfront]
  · obtain ⟨rest, hsplit⟩ := List.prefix_take_iff.2 ⟨hfront, hle⟩
    have hnonzero : ∀ b ∈ before, decide (b ≠ 0) = true := fun b hb =>
      decide_eq_true fun heq => hbefore (heq ▸ hb)
    rw [← hsplit, List.append_assoc, List.takeWhile_append_of_pos hnonzero,
      List.takeWhile_append_of_pos hnonzero]
    rfl

/-- A rule with a capture reads up to the first zero byte. -/
theorem reads_of_capture_iff (d : List UInt8) (rule : Rule) (start limit : Nat)
    (bytes : List UInt8) (hstart : start ≤ d.length) (hstring : rule.type.isNumeric = false)
    (hoperator : rule.operator = .any ∨ rule.operator = .greater)
    (hcapture : rule.capture = some limit) :
    rule.Reads d start bytes ↔ bytes <+: d.drop start ∧ UpToZero limit bytes := by
  constructor
  · intro h
    -- Numbers and comparisons for equality read in another way.
    cases h with
    | number hnumeric hfits =>
        exact absurd (hstring.symm.trans hnumeric) Bool.false_ne_true
    | exact _ hequal hfits =>
        rw [hequal] at hoperator
        exact absurd hoperator (by simp only [reduceCtorEq, or_self, not_false_eq_true])
    | capture _ _ other count hother hfits hzero =>
        rw [hcapture, Option.some.injEq] at hother
        exact ⟨List.take_prefix _ _, hother ▸ hzero⟩
  · rintro ⟨hfront, hzero⟩
    have hbytes : bytes = (d.drop start).take bytes.length := List.prefix_iff_eq_take.1 hfront
    have hle := hfront.length_le
    rw [List.length_drop] at hle
    rw [hbytes] at hzero ⊢
    exact .capture hstring hoperator limit bytes.length hcapture (by omega) hzero

/-- A string rule with an operand of its own length reads as many bytes. -/
theorem reads_of_equal_iff (d : List UInt8) (rule : Rule) (start : Nat) (bytes : List UInt8)
    (hstart : start ≤ d.length) (hstring : rule.type.isNumeric = false)
    (hoperator : rule.operator = .equal) :
    rule.Reads d start bytes ↔ stretch? d start rule.operand.size = some bytes := by
  rw [stretch?_eq_some_iff]
  constructor
  · intro h
    cases h with
    | number hnumeric hfits =>
        exact absurd (hstring.symm.trans hnumeric) Bool.false_ne_true
    | exact _ _ hfits => exact ⟨by omega, rfl⟩
    | capture _ hother limit count _ hfits hzero =>
        rw [hoperator] at hother
        exact absurd hother (by simp only [reduceCtorEq, or_self, not_false_eq_true])
  · rintro ⟨hfits, rfl⟩
    exact .exact hstring hoperator (by omega)

/-- What is read of a string, in upper case where case does not count. -/
theorem valueOf_of_string (rule : Rule) (bytes : List UInt8)
    (hstring : rule.type.isNumeric = false) :
    rule.valueOf bytes = .bytes (rule.type.foldCase bytes) := by
  unfold Rule.valueOf
  rw [if_neg (Bool.eq_false_iff.1 hstring)]
  have hfold : ∀ l : List UInt8, l.map upperByte = l.map upperCase := fun l =>
    List.map_congr_left fun b _ => upperByte_eq_upperCase b
  generalize rule.type = type at hstring
  cases type <;> first
    | exact absurd hstring.symm Bool.false_ne_true
    | rfl
    | exact congrArg Value.bytes (hfold bytes).symm

theorem readLength_of_capture (rule : Rule) (limit : Nat)
    (hoperator : rule.operator = .any ∨ rule.operator = .greater)
    (hcapture : rule.capture = some limit) : rule.readLength = limit := by
  unfold Rule.readLength
  rcases hoperator with hoperator | hoperator
  · rw [hoperator, hcapture]
  · rw [hoperator, hcapture]

/-- A rule is computed to read what it reads. -/
theorem valueAt?_eq_some_iff (d : List UInt8) (rule : Rule) (hrule : rule.WellFormed)
    (start : Nat) (hstart : start ≤ d.length) (value : Value) :
    rule.valueAt? d start = some value ↔
      ∃ bytes, rule.Reads d start bytes ∧ value = rule.valueOf bytes := by
  unfold Rule.valueAt? Rule.isNumeric
  by_cases hnumeric : rule.type.isNumeric = true
  · rw [if_pos hnumeric, Option.map_eq_some_iff]
    simp only [numberAt?_eq_some_iff d rule.type rule.mask start _ hnumeric hstart]
    constructor
    · rintro ⟨n, ⟨hfits, rfl⟩, rfl⟩
      exact ⟨_, .number hnumeric hfits, by rw [Rule.valueOf, if_pos hnumeric]⟩
    · rintro ⟨bytes, hreads, rfl⟩
      cases hreads with
      | number _ hfits => exact ⟨_, ⟨hfits, rfl⟩, by rw [Rule.valueOf, if_pos hnumeric]⟩
      | exact hstring => exact absurd (hstring.symm.trans hnumeric) Bool.false_ne_true
      | capture hstring => exact absurd (hstring.symm.trans hnumeric) Bool.false_ne_true
  · have hstring : rule.type.isNumeric = false := Bool.eq_false_iff.2 hnumeric
    -- The three comparisons of strings differ in what they read.
    have hbytes : ∀ bytes, (if (rule.operator = .any || rule.operator = .greater) = true then
          captureAt? d rule.readLength start else stretch? d start rule.operand.size) = some bytes
        ↔ rule.Reads d start bytes := by
      intro bytes
      have hcomparison := hrule.string_comparison hstring
      generalize hoperator : rule.operator = operator, hoperand : rule.operand = operand,
        hcapture : rule.capture = capture at hcomparison
      cases hcomparison with
      | equal content =>
          rw [reads_of_equal_iff d rule start bytes hstart hstring hoperator, hoperand,
            if_neg (by decide)]
      | greater first limit hlimit =>
          have hlength := readLength_of_capture rule limit (Or.inr hoperator) hcapture
          rw [reads_of_capture_iff d rule start limit bytes hstart hstring (Or.inr hoperator)
            hcapture, if_pos (by decide), hlength, captureAt?_eq_some_iff]
      | any limit hlimit =>
          have hlength := readLength_of_capture rule limit (Or.inl hoperator) hcapture
          rw [reads_of_capture_iff d rule start limit bytes hstart hstring (Or.inl hoperator)
            hcapture, if_pos (by decide), hlength, captureAt?_eq_some_iff]
    rw [if_neg hnumeric, Option.map_eq_some_iff]
    simp only [hbytes, valueOf_of_string rule _ hstring]
    exact ⟨fun ⟨bytes, hreads, heq⟩ => ⟨bytes, hreads, heq.symm⟩,
      fun ⟨bytes, hreads, heq⟩ => ⟨bytes, hreads, heq.symm⟩⟩

/-- A well-formed rule is computed to hold exactly if it does, with the same
    value. -/
theorem valueIn?_eq_some_iff (d : List UInt8) (rule : Rule) (hrule : rule.WellFormed)
    (value : Value) : rule.valueIn? d.length d = some value ↔ rule.HoldsWith d value := by
  unfold Rule.valueIn? Rule.HoldsWith
  simp only [Option.filter_eq_some_iff, Option.bind_eq_some_iff, decide_eq_true_eq,
    target?_eq_some_iff d rule.offset _ hrule.pointer_width, holds?_eq_true_iff]
  -- Computed and stated side by side: the place, the value there, and the comparison.
  constructor
  · rintro ⟨⟨start, hleads, hvalue⟩, haccepts⟩
    rcases (valueAt?_eq_some_iff d rule hrule start (leadsTo_le _ _ _ hleads) value).1 hvalue with
      ⟨bytes, hreads, heq⟩
    exact ⟨start, bytes, hleads, hreads, heq, haccepts⟩
  · rintro ⟨start, bytes, hleads, hreads, heq, haccepts⟩
    exact ⟨⟨start, hleads, (valueAt?_eq_some_iff d rule hrule start (leadsTo_le _ _ _ hleads)
      value).2 ⟨bytes, hreads, heq⟩⟩, haccepts⟩

end FileSignatures
