import FileSignatures.Escape
import FileSignatures.Proofs.Number.Digits

/-!
# Bytes that are written are read back

A file is read with one character per byte, so it can hold any text whose
characters are bytes. Inside an operand, which may hold any byte, some bytes cannot
be written like that: tabs and line ends would end the operand, and a backslash
begins an escape. Such a byte is written as an escape, as any other may be too.

An escape takes as many digits as it can. Those that are written here have all
digits that an escape can have, so whatever is written after them is left alone
(`decodeFrom_spelledByte`), and the bytes of an operand can be spelled one by one.

## Main definitions

* `Text.latin1Bytes`: The bytes of a text, one per character.
* `Text.IsLatin1`: A text whose characters are bytes.
* `SpelledByte`: The three ways to write a byte of an operand.
* `Spelled`: A text that spells some bytes.
* `IsClean`: A character that can stand in any field.

## Theorems

* `ofLatin1_latin1Bytes`: A text of byte characters is read back.
* `unescape_of_notMem`: Without a backslash every character stands for itself.
* `decodeFrom_spelledByte`: A byte that is written first is read first.
* `unescape_of_spelled`: Bytes that are spelled are read back.
* `isClean_of_spelled`: A spelling ends neither a field nor a line.
* `exists_spelled`: Any bytes can be spelled.
-/

namespace FileSignatures

/-- The bytes of a text, one per character. -/
def Text.latin1Bytes (t : Text) : List UInt8 :=
  t.map fun c => Text.latin1Byte c.toNat

/-- A text whose characters are bytes. -/
def Text.IsLatin1 (t : Text) : Prop :=
  ∀ c ∈ t, c.toNat < 256

theorem isLatin1_of_all (t : Text) (h : t.all (fun c => decide (c.toNat < 256)) = true) :
    t.IsLatin1 :=
  fun c hc => of_decide_eq_true (List.all_eq_true.1 h c hc)

theorem latin1Byte_toNat (b : UInt8) : Text.latin1Byte b.toNat = b := by
  unfold Text.latin1Byte
  rw [if_pos b.toNat_lt, UInt8.ofNat_toNat]

theorem toNat_ofUInt8 (b : UInt8) : (Char.ofUInt8 b).toNat = b.toNat := rfl

theorem latin1Byte_ofUInt8 (b : UInt8) : Text.latin1Byte (Char.ofUInt8 b).toNat = b :=
  latin1Byte_toNat b

/-- A character that is no greater than a byte is the character of its byte. -/
theorem ofUInt8_latin1Byte (c : Char) (h : c.toNat < 256) :
    Char.ofUInt8 (Text.latin1Byte c.toNat) = c := by
  refine Char.toNat_inj.1 ?_
  rw [toNat_ofUInt8]
  unfold Text.latin1Byte
  rw [if_pos h, UInt8.toNat_ofNat_of_lt' h]

/-- A text of such characters is read back from its bytes. -/
theorem ofLatin1_latin1Bytes (t : Text) (h : t.IsLatin1) :
    Text.ofLatin1 t.latin1Bytes = t := by
  unfold Text.ofLatin1 Text.latin1Bytes
  rw [List.map_map]
  refine (List.map_congr_left fun c hc => ?_).trans (List.map_id t)
  exact ofUInt8_latin1Byte c (h c hc)

namespace Escape

/-- A character other than a backslash stands for itself. -/
theorem decodeFrom_cons (c : Char) (rest : Text) (h : c ≠ '\\') :
    decodeFrom .nothing (c :: rest) = Text.latin1Byte c.toNat :: decodeFrom .nothing rest := by
  rw [decodeFrom, step, begin, if_neg h]
  rfl

end Escape

/-- Without a backslash every character stands for itself. -/
theorem unescape_of_notMem (t : Text) (h : '\\' ∉ t) : unescape t = t.latin1Bytes := by
  unfold unescape
  induction t with
  | nil => rfl
  | cons c rest ih =>
      have hc : c ≠ '\\' := fun heq => h (heq ▸ List.mem_cons_self)
      rw [Escape.decodeFrom_cons c rest hc, ih (fun hmem => h (List.mem_cons_of_mem _ hmem))]
      rfl

/-- The ways to write a byte of an operand: as the character that it is, unless that
    is a tab, a part of a line end or a backslash, or as an escape with two
    hexadecimal or three octal digits. -/
inductive SpelledByte (b : UInt8) : Text → Prop
  | plain (h : Char.ofUInt8 b ∉ ['\t', '\n', '\r', '\\']) : SpelledByte b [Char.ofUInt8 b]
  | hexadecimal (high low : Char) (hhigh : SameDigit (Nat.digitChar (b.toNat / 16)) high)
      (hlow : SameDigit (Nat.digitChar (b.toNat % 16)) low) :
      SpelledByte b ['\\', 'x', high, low]
  | octal : SpelledByte b ['\\', Nat.digitChar (b.toNat / 64),
      Nat.digitChar (b.toNat / 8 % 8), Nat.digitChar (b.toNat % 8)]

/-- The text spells the bytes, one after the other. -/
inductive Spelled : List UInt8 → Text → Prop
  | nil : Spelled [] []
  | cons (b : UInt8) (content : List UInt8) (t rest : Text) (h : SpelledByte b t)
      (hrest : Spelled content rest) : Spelled (b :: content) (t ++ rest)

/-- A hexadecimal digit has its value in either case. -/
theorem digitValue?_hexadecimal (d : Nat) (c : Char) (hd : d < 16)
    (h : SameDigit (Nat.digitChar d) c) : digitValue? 16 c = some d := by
  rw [digitValue?_of_sameDigit 16 _ c h]
  exact digitValue?_digitChar 16 d (by omega) hd

/-- A byte that is written first is read first, whatever comes after it. -/
theorem decodeFrom_spelledByte (b : UInt8) (t rest : Text) (h : SpelledByte b t) :
    Escape.decodeFrom .nothing (t ++ rest) = b :: Escape.decodeFrom .nothing rest := by
  have hbyte := b.toNat_lt
  cases h with
  | plain h =>
      have hc : Char.ofUInt8 b ≠ '\\' := fun heq => h (by rw [heq]; decide)
      rw [List.singleton_append, Escape.decodeFrom_cons _ rest hc, latin1Byte_ofUInt8]
  | hexadecimal high low hhigh hlow =>
      have hfirst := digitValue?_hexadecimal (b.toNat / 16) high (by omega) hhigh
      have hsecond := digitValue?_hexadecimal (b.toNat % 16) low (by omega) hlow
      have hvalue : b.toNat / 16 * 16 + b.toNat % 16 = b.toNat := by omega
      simp only [List.cons_append, List.nil_append, Escape.decodeFrom, Escape.step, Escape.begin,
        if_true, hfirst, hsecond, hvalue, latin1Byte_toNat]
  | octal =>
      have hdigit := fun d hd => digitValue?_digitChar 8 d (by omega) hd
      have hfirst := hdigit (b.toNat / 64) (by omega)
      have hsecond := hdigit (b.toNat / 8 % 8) (by omega)
      have hthird := hdigit (b.toNat % 8) (by omega)
      -- An octal digit does not begin a hexadecimal escape.
      have hnotHex : Nat.digitChar (b.toNat / 64) ≠ 'x' := by
        intro heq
        have hnone : digitValue? 8 'x' = none := by decide
        rw [heq, hnone] at hfirst
        exact absurd hfirst (by simp only [reduceCtorEq, not_false_eq_true])
      have hvalue : (b.toNat / 64 * 8 + b.toNat / 8 % 8) * 8 + b.toNat % 8 = b.toNat := by omega
      simp only [List.cons_append, List.nil_append, Escape.decodeFrom, Escape.step, Escape.begin,
        if_true, hnotHex, if_false, hfirst, hsecond, hthird, hvalue, latin1Byte_toNat]
      rfl

/-- Bytes that are spelled are read back. -/
theorem unescape_of_spelled (content : List UInt8) (t : Text) (h : Spelled content t) :
    unescape t = content := by
  unfold unescape
  induction h with
  | nil => rfl
  | cons b content t rest hbyte _ ih => rw [decodeFrom_spelledByte b t rest hbyte, ih]

/-- A character that is a byte and ends neither a field nor a line. -/
def IsClean (c : Char) : Prop :=
  c ∉ ['\t', '\n', '\r'] ∧ c.toNat < 256

instance (c : Char) : Decidable (IsClean c) :=
  inferInstanceAs (Decidable (_ ∧ _))

theorem isClean_of_isGraphic (c : Char) (h : IsGraphic c) : IsClean c := by
  rcases h with ⟨hlow, hhigh⟩
  refine ⟨fun hmem => ?_, by omega⟩
  simp only [List.mem_cons, List.not_mem_nil, or_false] at hmem
  rcases hmem with rfl | rfl | rfl <;> exact absurd hlow (by decide)

/-- Clean characters make up a part of a field and of a line. -/
theorem tab_notMem_of_isClean (t : Text) (h : ∀ c ∈ t, IsClean c) : '\t' ∉ t :=
  fun hmem => (h _ hmem).1 List.mem_cons_self

theorem isLine_of_isClean (t : Text) (h : ∀ c ∈ t, IsClean c) : t.IsLine :=
  isLine_of_notMem t (fun hmem => (h _ hmem).1 (by decide)) fun hmem => (h _ hmem).1 (by decide)

theorem isClean_of_spelledByte (b : UInt8) (t : Text) (c : Char) (h : SpelledByte b t)
    (hc : c ∈ t) : IsClean c := by
  have hbyte := b.toNat_lt
  -- Digits and the backslash are graphic, so only a plain byte needs its own argument.
  cases h with
  | plain h =>
      rw [List.mem_singleton.1 hc]
      have hspecial : ['\t', '\n', '\r'] ⊆ ['\t', '\n', '\r', '\\'] := by decide
      exact ⟨fun hmem => h (hspecial hmem), hbyte⟩
  | hexadecimal high low hhigh hlow =>
      have hfirst := digitValue?_hexadecimal (b.toNat / 16) high (by omega) hhigh
      have hsecond := digitValue?_hexadecimal (b.toNat % 16) low (by omega) hlow
      refine isClean_of_isGraphic c ?_
      simp only [List.mem_cons, List.not_mem_nil, or_false] at hc
      rcases hc with rfl | rfl | rfl | rfl
      · decide
      · decide
      · exact isGraphic_of_digitValue? 16 _ _ hfirst
      · exact isGraphic_of_digitValue? 16 _ _ hsecond
  | octal =>
      have hdigit := fun d hd => isGraphic_of_digitValue? 8 d _
        (digitValue?_digitChar 8 d (by omega) hd)
      refine isClean_of_isGraphic c ?_
      simp only [List.mem_cons, List.not_mem_nil, or_false] at hc
      rcases hc with rfl | rfl | rfl | rfl
      · decide
      · exact hdigit (b.toNat / 64) (by omega)
      · exact hdigit (b.toNat / 8 % 8) (by omega)
      · exact hdigit (b.toNat % 8) (by omega)

/-- A spelling ends neither a field nor a line. -/
theorem isClean_of_spelled (content : List UInt8) (t : Text) (c : Char) (h : Spelled content t)
    (hc : c ∈ t) : IsClean c := by
  induction h with
  | nil => exact absurd hc List.not_mem_nil
  | cons b content t rest hbyte _ ih =>
      rcases List.mem_append.1 hc with hc | hc
      · exact isClean_of_spelledByte b t c hbyte hc
      · exact ih hc

/-- Any bytes can be spelled. -/
theorem exists_spelled (content : List UInt8) : ∃ t, Spelled content t := by
  induction content with
  | nil => exact ⟨[], .nil⟩
  | cons b content ih =>
      rcases ih with ⟨rest, hrest⟩
      exact ⟨_, .cons b content _ rest .octal hrest⟩

end FileSignatures
