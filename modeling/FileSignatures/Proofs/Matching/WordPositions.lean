import FileSignatures.Proofs.Matching.Holding
import FileSignatures.Proofs.Resource.Seekable

/-!
# Positions in words

Offsets are computed with numbers, of which none is too large. A machine computes them with
words: bases and adjustments are signed ones of 64 bits, lengths and positions unsigned ones,
and the sum of a pointer and its adjustment has 128 bits. Here that computation is written
down operation by operation. Each of them gives the bits that the machine gives, next to the
number that it stands for, and if the bits are those of another number the computation ends
with an overflow (`exactly`).

It never does, whatever length a source claims to have: step by step, the computation in
words ends as the one in numbers (`computes_seekInWords`). So it is enough to know where
numbers lead (`target?_eq_some_iff_leadsIn`).

## Main definitions

* `WordSource`: A source that never fails, with a length and a position in words.
* `exactly`: A word that stands for a number.
* `Offset.seekInWords`: Goes to where an offset leads.
* `Computes`: A computation in words ends as one in numbers.
* `Offset.LeadsIn`: Where an offset leads in a resource that claims a length.

## Theorems

* `computes_bind`: Computations compose.
* `startWord?_eq`, `targetWord?_eq`: Starts and targets are computed exactly.
* `computes_seekInWords`: So is where an offset leads.
* `seekInWords_spec`: An offset is found if it leads somewhere, and then the source stands
  there.
-/

namespace FileSignatures

/-- Why a computation in words ends early. -/
inductive WordFault where
  /-- The bits of a result are those of another number. -/
  | overflow
  | fault (fault : Fault)

/-- A source that never fails. What can be read need not have the length that it claims, and
    its read head is its own. -/
structure WordSource where
  content : Array UInt8
  length : UInt64
  position : UInt64
  head : Nat

/-- A computation in words. -/
abbrev WordReading (α : Type) := EStateM WordFault WordSource α

/-- A word that an operation gives, which has to stand for a number. -/
def exactly {α : Type} (numberOf : α → Int) (word : α) (number : Int) : WordReading α :=
  if numberOf word = number then pure word else throw .overflow

/-- The number that an unsigned word stands for. -/
def unsigned (word : UInt64) : Int :=
  word.toNat

namespace WordSource

/-- Goes to a position, which may lie beyond the end. -/
def seek (position : UInt64) : WordReading Unit := fun source =>
  .ok () { source with position, head := position.toNat }

/-- Reads exactly `count` bytes. -/
def read (count : UInt64) : WordReading (List UInt8) := fun source =>
  let available :=
    if source.position ≤ source.length then source.length - source.position else 0
  let shortage := WordFault.fault (.endOfData count.toNat available.toNat)
  let size := source.content.size
  if available < count then .error shortage source
  else if count.toNat ≤ size - source.head then
    (do
      let position ← exactly unsigned (source.position + count)
        (source.position.toNat + count.toNat)
      set { source with position, head := source.head + count.toNat }
      return window source.content source.head count.toNat) source
  else .error shortage { source with head := max source.head size }

/-- Turns the end of data into the answer `none`. -/
def unlessShort {α : Type} (operation : WordReading α) : WordReading (Option α) := fun source =>
  match operation source with
  | .ok a source => .ok (some a) source
  | .error (.fault (.endOfData _ _)) source => .ok none source
  | .error fault source => .error fault source

/-- Reads a number of a type, as it is. -/
def readNumber (type : ValueType) : WordReading Int64 := do
  let content ← read (UInt64.ofNat type.width)
  match Value.decodeNumber? type Value.fullMask content with
  | some n => exactly Int64.toInt n (type.unsignedReading content)
  | none => throw (.fault (.endOfData type.width content.length))

end WordSource

/-- The start that a base stands for in a resource of a length. -/
def startWord? (length : UInt64) (base : Int64) : WordReading (Option UInt64) := do
  if 0 ≤ base then
    let start ← exactly unsigned base.toUInt64 base.toInt
    return if start ≤ length then some start else none
  else
    let back ← exactly unsigned base.abs.toUInt64 base.toInt.natAbs
    return if back ≤ length then some (length - back) else none

/-- Where a pointer leads in a resource of a length. The sum and the length are compared with
    128 bits. -/
def Pointer.targetWord? (pointer : Pointer) (length : UInt64) (read : Int64) :
    WordReading (Option UInt64) := do
  let target ← exactly BitVec.toInt
    (read.toBitVec.signExtend 128 + pointer.adjustment.toBitVec.signExtend 128)
    (read.toInt + pointer.adjustment.toInt)
  let limit ← exactly BitVec.toInt (length.toBitVec.setWidth 128) length.toNat
  if target.slt 0 || limit.slt target then return none
  return some (← exactly unsigned (UInt64.ofBitVec (target.setWidth 64))
    target.toInt)

/-- Goes to where an offset leads in a resource of a length, and says whether it leads
    anywhere. -/
def Offset.seekInWords (offset : Offset) (length : UInt64) : WordReading Bool := do
  match ← startWord? length offset.base with
  | none => return false
  | some start =>
    WordSource.seek start
    match offset with
    | .direct _ => return true
    | .indirect pointer =>
      match ← WordSource.unlessShort (WordSource.readNumber pointer.width) with
      | none => return false
      | some read =>
        match ← pointer.targetWord? length read with
        | none => return false
        | some target =>
          WordSource.seek target
          return true

section Computations

variable {α β : Type}

/-- The source with numbers for its words. -/
def WordSource.seekable (source : WordSource) : SeekableSource where
  medium := ⟨source.content, source.length.toNat, none⟩
  position := source.position.toNat
  head := source.head

/-- A computation in words ends as one in numbers, with the same answer or the same fault. It
    does not end with an overflow. -/
inductive EndsAlike : EStateM.Result WordFault WordSource α →
    EStateM.Result Fault SeekableSource α → Prop
  | answered (a : α) (s : WordSource) : EndsAlike (.ok a s) (.ok a s.seekable)
  | failed (fault : Fault) (s : WordSource) :
      EndsAlike (.error (.fault fault) s) (.error fault s.seekable)

/-- A computation in words computes what one in numbers does, from every source on. -/
def Computes (x : WordReading α) (y : Reading SeekableSource α) : Prop :=
  ∀ s : WordSource, EndsAlike (x s) (y s.seekable)

theorem computes_pure (a : α) : Computes (pure a) (pure a) :=
  fun s => .answered a s

theorem computes_bind (x : WordReading α) (y : Reading SeekableSource α) (k : α → WordReading β)
    (l : α → Reading SeekableSource β) (h : Computes x y) (hnext : ∀ a, Computes (k a) (l a)) :
    Computes (x >>= k) (y >>= l) := by
  intro s
  change EndsAlike (EStateM.bind x k s) (EStateM.bind y l s.seekable)
  unfold EStateM.bind
  have hs := h s
  generalize x s = first at hs ⊢
  generalize y s.seekable = second at hs ⊢
  cases hs with
  | answered a t => exact hnext a t
  | failed fault t => exact .failed fault t

/-- A word that stands for its number is given as it is. -/
theorem exactly_eq (numberOf : α → Int) (word : α) (number : Int) (h : numberOf word = number) :
    exactly numberOf word number = pure word :=
  if_pos h

theorem computes_seek (position : UInt64) :
    Computes (WordSource.seek position) (ByteSource.seek position.toNat) :=
  fun _ => .answered () _

/-- The bytes that a source expects after its position are counted exactly, down to none. -/
theorem toNat_available (source : WordSource) :
    (if source.position ≤ source.length then source.length - source.position else 0).toNat
      = source.seekable.available := by
  change _ = source.length.toNat - source.position.toNat
  by_cases hle : source.position ≤ source.length
  · rw [if_pos hle, UInt64.toNat_sub_of_le _ _ hle]
  · rw [if_neg hle, UInt64.toNat_zero]
    rw [UInt64.le_iff_toNat_le] at hle
    omega

/-- The position after a read that the length has room for. -/
theorem toNat_position_add (source : WordSource) (count : UInt64)
    (h : ¬ source.seekable.available < count.toNat) :
    (source.position + count).toNat = source.position.toNat + count.toNat := by
  have hlength := source.length.toNat_lt
  have hposition := source.position.toNat_lt
  change ¬ source.length.toNat - source.position.toNat < count.toNat at h
  rw [UInt64.toNat_add, Nat.mod_eq_of_lt (by omega)]

/-- A read computes its new position, which is one within the length. -/
theorem computes_read (count : UInt64) :
    Computes (WordSource.read count) (ByteSource.read count.toNat) := by
  intro s
  have havailable := toNat_available s
  change EndsAlike (WordSource.read count s) (SeekableSource.read count.toNat s.seekable)
  unfold WordSource.read SeekableSource.read
  simp only [UInt64.lt_iff_toNat_lt, havailable]
  by_cases hshort : s.seekable.available < count.toNat
  · rw [if_pos hshort, if_pos hshort]
    exact .failed _ s
  · have hgood : s.seekable.failure? count.toNat = none := rfl
    have hsize : s.seekable.medium.content.size - s.seekable.head = s.content.size - s.head := rfl
    rw [if_neg hshort, if_neg hshort, hgood, hsize]
    simp only
    by_cases hfits : count.toNat ≤ s.content.size - s.head
    · -- The new position is at most the length, so the sum of the words does not wrap.
      have hnext := toNat_position_add s count hshort
      have hafter : { s.seekable with
            position := s.seekable.position + count.toNat, head := s.seekable.head + count.toNat }
          = WordSource.seekable
            { s with position := s.position + count, head := s.head + count.toNat } := by
        unfold WordSource.seekable
        rw [hnext]
      rw [if_pos hfits, if_pos hfits, exactly_eq unsigned _ _ (by rw [unsigned, hnext]; rfl),
        pure_bind, hafter]
      exact .answered _ _
    · rw [if_neg hfits, if_neg hfits]
      exact .failed _ _

theorem computes_unlessShort (x : WordReading α) (y : Reading SeekableSource α)
    (h : Computes x y) : Computes (WordSource.unlessShort x) (ByteSource.unlessShort y) := by
  intro s
  unfold WordSource.unlessShort ByteSource.unlessShort
  have hs := h s
  generalize x s = first at hs ⊢
  generalize y s.seekable = second at hs ⊢
  cases hs with
  | answered a t => exact .answered (some a) t
  | failed fault t =>
      -- Running short is the one fault that becomes an answer.
      cases fault with
      | endOfData needed available => exact .answered none t
      | io reason => exact .failed _ t
      | operatorMismatch line operator type => exact .failed _ t
      | badNumber error => exact .failed _ t

/-- A number is read as the unsigned one that its bytes spell. -/
theorem computes_readNumber (type : ValueType) :
    Computes (WordSource.readNumber type) (readNumber type Value.fullMask) := by
  -- The width of a type is a small number and so is a word.
  have hwidth : (UInt64.ofNat type.width).toNat = type.width := by
    cases type <;> rfl
  unfold WordSource.readNumber readNumber
  refine computes_bind _ _ _ _ ?_ fun content => ?_
  · have hread := computes_read (UInt64.ofNat type.width)
    rw [hwidth] at hread
    exact hread
  · cases hn : Value.decodeNumber? type Value.fullMask content with
    | none => exact fun s => .failed _ s
    | some n =>
        simp only
        rw [exactly_eq Int64.toInt n _ (toInt_of_decodeNumber? type content n hn)]
        exact computes_pure n

end Computations

section Words

/-- A signed word that is not negative is the same unsigned one. -/
theorem toNat_toUInt64_of_nonneg (a : Int64) (h : 0 ≤ a.toInt) :
    (a.toUInt64.toNat : Int) = a.toInt := by
  have hlt := a.toBitVec.isLt
  rw [← Int64.toInt_toBitVec, BitVec.toInt_eq_toNat_cond] at h ⊢
  rw [← Int64.toNat_toBitVec]
  split at h
  · rename_i hlow
    rw [if_pos hlow]
  · omega

/-- The absolute value of a signed word is an unsigned one, that of the least word too. -/
theorem toNat_abs (a : Int64) : a.abs.toUInt64.toNat = a.toInt.natAbs := by
  have hlt := a.toBitVec.isLt
  rw [← Int64.toNat_toBitVec, Int64.toBitVec_abs, BitVec.toNat_abs, BitVec.msb_eq_toInt,
    ← Int64.toInt_toBitVec, BitVec.toInt_eq_toNat_cond]
  by_cases hlow : 2 * a.toBitVec.toNat < 2 ^ 64
  · rw [if_pos hlow, decide_eq_false (by omega), if_neg Bool.false_ne_true]
    omega
  · rw [if_neg hlow, decide_eq_true (by omega), if_pos rfl]
    omega

/-- The start of a base is computed exactly. -/
theorem startWord?_eq (length : UInt64) (base : Int64) :
    ∃ start, startWord? length base = pure start
      ∧ start.map UInt64.toNat = positionIn? length.toNat base := by
  unfold startWord? positionIn?
  simp only [Int64.le_iff_toInt_le, Int64.toInt_zero, UInt64.le_iff_toNat_le]
  by_cases hbase : 0 ≤ base.toInt
  · have hstart := toNat_toUInt64_of_nonneg base hbase
    rw [if_pos hbase, if_pos hbase, exactly_eq unsigned _ _ hstart]
    refine ⟨_, rfl, ?_⟩
    rw [← hstart, Int.toNat_natCast]
    split <;> rfl
  · -- The absolute value of the least base is no signed word, but it is read as an unsigned one.
    have hback := toNat_abs base
    rw [if_neg hbase, if_neg hbase, exactly_eq unsigned _ _ (congrArg Nat.cast hback)]
    refine ⟨_, rfl, ?_⟩
    rw [← hback]
    by_cases hle : base.abs.toUInt64.toNat ≤ length.toNat
    · rw [if_pos hle, if_pos hle, Option.map_some,
        UInt64.toNat_sub_of_le _ _ (UInt64.le_iff_toNat_le.2 hle)]
    · rw [if_neg hle, if_neg hle, Option.map_none]

/-- With 128 bits there is room for the sum of two signed words. -/
theorem toInt_wideSum (a b : Int64) :
    (a.toBitVec.signExtend 128 + b.toBitVec.signExtend 128).toInt = a.toInt + b.toInt := by
  have ha := a.le_toInt
  have ha' := a.toInt_lt
  have hb := b.le_toInt
  have hb' := b.toInt_lt
  rw [BitVec.toInt_add, BitVec.toInt_signExtend_of_le (by decide),
    BitVec.toInt_signExtend_of_le (by decide), Int64.toInt_toBitVec, Int64.toInt_toBitVec,
    Int.bmod_eq_of_le (by omega) (by omega)]

/-- And for an unsigned word, which stays the same number. -/
theorem toInt_wide (a : UInt64) : (a.toBitVec.setWidth 128).toInt = a.toNat := by
  have hlt := a.toNat_lt
  have hwide : (a.toBitVec.setWidth 128).toNat = a.toNat :=
    BitVec.toNat_setWidth_of_le (by decide)
  rw [BitVec.toInt_eq_toNat_of_lt, hwide]
  rw [hwide]
  omega

/-- What lies within a length has no bits above the 64 lowest. -/
theorem toNat_narrow (length : UInt64) (target : BitVec 128)
    (h : 0 ≤ target.toInt ∧ target.toInt ≤ length.toNat) :
    (target.setWidth 64).toNat = target.toInt.toNat := by
  have hlt := length.toNat_lt
  have hwide := target.isLt
  obtain ⟨hlow, hhigh⟩ := h
  rw [BitVec.toInt_eq_toNat_cond] at hlow hhigh ⊢
  rw [BitVec.toNat_setWidth]
  split at hlow <;> omega

/-- The target of a pointer is computed exactly, too. -/
theorem targetWord?_eq (pointer : Pointer) (length : UInt64) (read : Int64) :
    ∃ target, pointer.targetWord? length read = pure target
      ∧ target.map UInt64.toNat = pointer.target? length.toNat read := by
  have hsum := toInt_wideSum read pointer.adjustment
  have hlimit := toInt_wide length
  unfold Pointer.targetWord? Pointer.target?
  rw [exactly_eq BitVec.toInt _ _ hsum, exactly_eq BitVec.toInt _ _ hlimit, pure_bind, pure_bind]
  -- In 128 bits the sum of two words is exact, and so is its comparison with the length.
  generalize read.toBitVec.signExtend 128 + pointer.adjustment.toBitVec.signExtend 128 = target
    at hsum ⊢
  simp only [Bool.or_eq_true, BitVec.slt_iff_toInt_lt, hlimit]
  rw [← hsum]
  by_cases hrange : 0 ≤ target.toInt ∧ target.toInt ≤ length.toNat
  · have hbits := toNat_narrow length target hrange
    rw [if_neg (by rw [not_or, Int.not_lt, Int.not_lt]; exact hrange), if_pos hrange,
      exactly_eq unsigned _ _ (by rw [unsigned, UInt64.toNat_ofBitVec, hbits]; omega)]
    exact ⟨_, rfl, congrArg some hbits⟩
  · rw [if_pos (by rw [← Int.not_le, ← Int.not_le, ← not_and_or]; exact hrange), if_neg hrange]
    exact ⟨none, rfl, rfl⟩

/-- Where an offset leads is computed exactly. -/
theorem computes_seekInWords (offset : Offset) (length : UInt64) :
    Computes (offset.seekInWords length) (offset.seekIn length.toNat) := by
  obtain ⟨start, hstart, hbase⟩ := startWord?_eq length offset.base
  unfold Offset.seekInWords Offset.seekIn Offset.start?
  rw [hstart, ← hbase, pure_bind]
  cases start with
  | none => exact computes_pure false
  | some start =>
      simp only [Option.map_some]
      -- Both stand at the start now, and only a pointer reads on from there.
      refine computes_bind _ _ _ _ (computes_seek start) fun _ => ?_
      cases offset with
      | direct position => exact computes_pure true
      | indirect pointer =>
          refine computes_bind _ _ _ _
            (computes_unlessShort _ _ (computes_readNumber pointer.width)) fun answer => ?_
          cases answer with
          | none => exact computes_pure false
          | some read =>
              obtain ⟨target, htarget, hvalue⟩ := targetWord?_eq pointer length read
              simp only
              rw [htarget, ← hvalue, pure_bind]
              cases target with
              | none => exact computes_pure false
              | some target =>
                  exact computes_bind _ _ _ _ (computes_seek target) fun _ => computes_pure true

end Words

section Leading

variable (length : Nat) (content : List UInt8)

/-- The position that an offset leads to in a resource that claims a length, given what can be
    read of it. -/
inductive Offset.LeadsIn : Offset → Nat → Prop
  | direct (base : Int64) (start : Nat) (hstart : StartIn length base start) :
      LeadsIn (.direct base) start
  | indirect (pointer : Pointer) (start target : Nat) (hstart : StartIn length pointer.base start)
      (hnumeric : pointer.width.isNumeric = true)
      (hclaimed : start + pointer.width.width ≤ length)
      (hfits : start + pointer.width.width ≤ content.length)
      (htarget : (target : Int)
        = pointer.width.unsignedReading ((content.drop start).take pointer.width.width)
          + pointer.adjustment.toInt)
      (hle : target ≤ length) :
      LeadsIn (.indirect pointer) target

/-- What is read of a resource as long as it claims is what is there. -/
theorem take_drop_take (start count : Nat) (h : start + count ≤ length) :
    ((content.take length).drop start).take count = (content.drop start).take count := by
  rw [List.drop_take, List.take_take, Nat.min_eq_left (by omega)]

/-- A pointer is read only if it is a number all of whose bytes are there, within the length. -/
theorem fits_of_numberAt?_take (type : ValueType) (start : Nat) (n : Int64)
    (h : numberAt? (content.take length) type Value.fullMask start = some n) :
    type.isNumeric = true ∧ start + type.width ≤ length ∧ start + type.width ≤ content.length
      ∧ n.toInt = type.unsignedReading ((content.drop start).take type.width) := by
  have hshort : (content.take length).length = min length content.length := List.length_take
  obtain ⟨bytes, hstretch, hdecode⟩ := Option.bind_eq_some_iff.1 h
  obtain ⟨hfits, rfl⟩ := (stretch?_eq_some_iff _ _ _ _).1 hstretch
  have hvalue := toInt_of_decodeNumber? type _ n hdecode
  have hnumeric : type.isNumeric = true := by
    unfold Value.decodeNumber? at hdecode
    split at hdecode
    · rename_i hboth
      exact hboth.1
    · exact absurd hdecode (by simp only [reduceCtorEq, not_false_eq_true])
  -- A number takes up a byte at least, so it cannot start behind what is there.
  have hwidth : 1 ≤ type.width := by
    cases type <;> first | decide | exact absurd hnumeric (by decide)
  rw [take_drop_take length content start _ (by omega)] at hvalue
  exact ⟨hnumeric, by omega, by omega, hvalue⟩

theorem exists_numberAt?_take (type : ValueType) (start : Nat) (hnumeric : type.isNumeric = true)
    (hclaimed : start + type.width ≤ length) (hfits : start + type.width ≤ content.length) :
    ∃ n, numberAt? (content.take length) type Value.fullMask start = some n
      ∧ n.toInt = type.unsignedReading ((content.drop start).take type.width) := by
  have hshort : (content.take length).length = min length content.length := List.length_take
  have hlength : ((content.drop start).take type.width).length = type.width := by
    rw [List.length_take, List.length_drop]
    omega
  have hdecode : Value.decodeNumber? type Value.fullMask ((content.drop start).take type.width)
      = some _ := if_pos ⟨hnumeric, hlength⟩
  refine ⟨_, Option.bind_eq_some_iff.2 ⟨_, (stretch?_eq_some_iff _ _ _ _).2 ⟨by omega, rfl⟩, ?_⟩,
    toInt_of_decodeNumber? type _ _ hdecode⟩
  rw [take_drop_take length content start _ hclaimed]
  exact hdecode

/-- The place that is computed for an offset is where it leads. -/
theorem target?_eq_some_iff_leadsIn (offset : Offset) (position : Nat) :
    offset.target? length (content.take length) = some position
      ↔ offset.LeadsIn length content position := by
  unfold Offset.target? Offset.start?
  rw [Option.bind_eq_some_iff]
  cases offset with
  | direct base =>
      simp only [Offset.base, positionIn?_eq_some_iff_startIn, Option.some.injEq]
      constructor
      · rintro ⟨start, hstart, rfl⟩
        exact .direct base start hstart
      · intro h
        cases h with
        | direct _ start hstart => exact ⟨position, hstart, rfl⟩
  | indirect pointer =>
      simp only [Offset.base, positionIn?_eq_some_iff_startIn, Option.bind_eq_some_iff,
        pointer_target?_eq_some_iff]
      constructor
      · rintro ⟨start, hstart, read, hread, htarget, hle⟩
        -- The number that is read is the unsigned one of its bytes, in the order of the type.
        obtain ⟨hnumeric, hclaimed, hfits, hvalue⟩ :=
          fits_of_numberAt?_take length content pointer.width start read hread
        rw [hvalue] at htarget
        exact .indirect pointer start position hstart hnumeric hclaimed hfits htarget hle
      · intro h
        cases h with
        | indirect _ start target hstart hnumeric hclaimed hfits htarget hle =>
            obtain ⟨read, hread, hvalue⟩ :=
              exists_numberAt?_take length content pointer.width start hnumeric hclaimed hfits
            rw [← hvalue] at htarget
            exact ⟨start, hstart, read, hread, htarget, hle⟩

/-- With numbers the source stands where the offset leads, and it never fails. -/
theorem seekIn_seekable (offset : Offset) (source : WordSource) :
    ∃ found t, offset.seekIn source.length.toNat source.seekable = .ok found t
      ∧ (found = true
        ↔ ∃ position, offset.LeadsIn source.length.toNat source.content.toList position)
      ∧ (∀ position, offset.LeadsIn source.length.toNat source.content.toList position →
        t.position = position ∧ t.head = position)
      ∧ t.medium = source.seekable.medium := by
  have hleads := target?_eq_some_iff_leadsIn source.length.toNat source.content.toList offset
  -- A source in words has no bad spot, so the run cannot fail.
  rcases yields_some_cases _ _ (seekIn_yields (SeekableSource.service source.seekable.medium)
    offset source.seekable rfl) with ⟨t, hrun, hafter⟩ | ⟨reason, t, -, spot, hbad, -⟩
  · refine ⟨_, t, hrun, ?_, fun position hposition => ?_, ?_⟩
    · rw [Option.isSome_iff_exists]
      exact exists_congr hleads
    · have htarget : offset.target? (SeekableSource.service source.seekable.medium).size
          (SeekableSource.service source.seekable.medium).content = some position :=
        (hleads position).2 hposition
      rw [htarget] at hafter
      exact hafter.2
    · cases htarget : offset.target? (SeekableSource.service source.seekable.medium).size
        (SeekableSource.service source.seekable.medium).content with
      | none =>
          rw [htarget] at hafter
          exact hafter
      | some position =>
          rw [htarget] at hafter
          exact hafter.1
  · exact absurd hbad (by simp only [WordSource.seekable, reduceCtorEq, not_false_eq_true])

end Leading

/-- Seeking in words never ends with an overflow, whatever the length that the source claims
    and the words of the offset. It does what seeking with numbers does: an offset is found if
    it leads somewhere, and then the source and its read head stand exactly there. -/
theorem seekInWords_spec (offset : Offset) (source : WordSource) :
    ∃ found after, offset.seekInWords source.length source = .ok found after
      ∧ offset.seekIn source.length.toNat source.seekable = .ok found after.seekable
      ∧ (found = true
        ↔ ∃ position, offset.LeadsIn source.length.toNat source.content.toList position)
      ∧ (∀ position, offset.LeadsIn source.length.toNat source.content.toList position →
        after.position.toNat = position ∧ after.head = position)
      ∧ after.content = source.content ∧ after.length = source.length := by
  obtain ⟨found, t, hrun, hfound, hposition, hmedium⟩ := seekIn_seekable offset source
  have hwords := computes_seekInWords offset source.length source
  rw [hrun] at hwords ⊢
  generalize offset.seekInWords source.length source = result at hwords ⊢
  -- The run with numbers is answered, so the one in words is, with the same state.
  cases hwords with
  | answered _ after =>
      obtain ⟨hcontent, hlength, -⟩ := Medium.mk.inj hmedium
      exact ⟨found, after, rfl, rfl, hfound, hposition, hcontent, UInt64.toNat_inj.1 hlength⟩

/-- A source of four bytes that claims to have as many as there can be. -/
def sampleSource : WordSource := ⟨#[1, 2, 3, 4], 0xffffffffffffffff, 0, 0⟩

/-- Pointers of two and of four bytes in either order, each with its unsigned number. -/
def samplePointers : List (ValueType × Nat) :=
  [(.leShort, 0x201), (.beShort, 0x102), (.leLong, 0x4030201), (.beLong, 0x1020304)]

/-- Pointers are followed to their number, five bytes less. A pointer of which a byte is
    missing is not, although the source claims that it is there. -/
theorem seekInWords_of_pointers :
    (∀ pointer ∈ samplePointers, ∃ after,
      (Offset.indirect ⟨0, pointer.1, -5⟩).seekInWords sampleSource.length sampleSource
        = .ok true after
      ∧ after.position.toNat = pointer.2 - 5 ∧ after.head = pointer.2 - 5)
    ∧ ∃ after, (Offset.indirect ⟨1, .leLong, 0⟩).seekInWords sampleSource.length sampleSource
        = .ok false after := by
  constructor
  · intro pointer hmem
    have hleads : (Offset.indirect ⟨0, pointer.1, -5⟩).LeadsIn sampleSource.length.toNat
        sampleSource.content.toList (pointer.2 - 5) := by
      -- All of them start at the first byte, and differ in what they read there.
      simp only [samplePointers, List.mem_cons, List.not_mem_nil, or_false] at hmem
      rcases hmem with rfl | rfl | rfl | rfl <;>
        exact .indirect _ 0 _ ⟨rfl, by decide⟩ (by decide) (by decide) (by decide) (by decide)
          (by decide)
    obtain ⟨found, after, hrun, -, hfound, hposition, -⟩ :=
      seekInWords_spec (.indirect ⟨0, pointer.1, -5⟩) sampleSource
    obtain rfl : found = true := hfound.2 ⟨_, hleads⟩
    exact ⟨after, hrun, hposition _ hleads⟩
  · obtain ⟨found, after, hrun, -, hfound, -⟩ :=
      seekInWords_spec (.indirect ⟨1, .leLong, 0⟩) sampleSource
    have hnot : found ≠ true := by
      intro htrue
      obtain ⟨position, hleads⟩ := hfound.1 htrue
      cases hleads with
      | indirect _ start target hstart _ _ hfits _ _ =>
          have hone : start = 1 := Int.ofNat_inj.1 hstart.1
          rw [hone] at hfits
          exact absurd hfits (by decide)
    rw [Bool.eq_false_iff.2 hnot] at hrun
    exact ⟨after, hrun⟩

/-- The least base leads as far back as there are negative positions. -/
example : (Offset.direct Int64.minValue).seekInWords 0xffffffffffffffff
    ⟨#[], 0xffffffffffffffff, 0, 0⟩
      = .ok true ⟨#[], 0xffffffffffffffff, 0x7fffffffffffffff, 0x7fffffffffffffff⟩ := by
  rfl

end FileSignatures
