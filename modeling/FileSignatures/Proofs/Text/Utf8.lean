import FileSignatures.Text.Utf8

/-!
# What bytes show

The bytes of a text show that text, character by character (`shown_character`), and no other
bytes are those of a text. So bytes are a text exactly if they are its UTF-8
(`ofUtf8?_eq_some_iff`).

A character takes up one to four bytes. Behind the first one each adds six bits. The bounds
of the second byte are the only ones that depend on the first: they hold for the
characters that need so many bytes and are no surrogates.

## Theorems

* `begin?_two`, `begin?_three`, `begin?_four`: How characters of several bytes begin.
* `shown_begun`, `shown_continued`, `shown_completed`: What one byte shows.
* `shown_character`: The bytes of a character show it.
* `ofUtf8?_eq_some_iff`: Which bytes are a text.
-/

namespace FileSignatures

namespace PartialCharacter

/-- A character of two bytes has at least two of the five bits of its first byte. -/
theorem begin?_two (bits : Nat) (hleast : 2 ≤ bits) (hgreatest : bits < 32) :
    begin? (bits + 0xc0) = some ⟨bits, 0, 0x80, 0xbf⟩ := by
  unfold begin?
  rw [if_pos (by omega), Nat.add_sub_cancel]

/-- A character of three bytes has a bit that two bytes have no room for, and is no
    surrogate. -/
theorem begin?_three (bits more : Nat) (hbits : bits < 16) (hmore : more < 64)
    (hleast : bits = 0 → 32 ≤ more) (hsurrogate : bits = 13 → more < 32) :
    ∃ least greatest, begin? (bits + 0xe0) = some ⟨bits, 1, least, greatest⟩
      ∧ least ≤ more + 0x80 ∧ more + 0x80 ≤ greatest := by
  unfold begin?
  rw [if_neg (by omega)]
  -- Only for two of the first bytes is the range of the second one smaller.
  by_cases hzero : bits = 0
  · subst hzero
    exact ⟨0xa0, 0xbf, rfl, by omega, by omega⟩
  · rw [if_neg (by omega)]
    by_cases hthirteen : bits = 13
    · subst hthirteen
      exact ⟨0x80, 0x9f, rfl, by omega, by omega⟩
    · rw [if_neg (by omega), if_pos (by omega), Nat.add_sub_cancel]
      exact ⟨0x80, 0xbf, rfl, by omega, by omega⟩

/-- A character of four bytes has a bit that three bytes have no room for, and lies below
    the end of the characters. -/
theorem begin?_four (bits more : Nat) (hbits : bits ≤ 4) (hmore : more < 64)
    (hleast : bits = 0 → 16 ≤ more) (hgreatest : bits = 4 → more < 16) :
    ∃ least greatest, begin? (bits + 0xf0) = some ⟨bits, 2, least, greatest⟩
      ∧ least ≤ more + 0x80 ∧ more + 0x80 ≤ greatest := by
  unfold begin?
  rw [if_neg (by omega), if_neg (by omega), if_neg (by omega), if_neg (by omega)]
  by_cases hzero : bits = 0
  · subst hzero
    exact ⟨0x90, 0xbf, rfl, by omega, by omega⟩
  · rw [if_neg (by omega)]
    -- Behind the last of the first bytes most codes are beyond the end of the characters.
    by_cases hfour : bits = 4
    · subst hfour
      exact ⟨0x80, 0x8f, rfl, by omega, by omega⟩
    · rw [if_neg (by omega), if_pos (by omega), Nat.add_sub_cancel]
      exact ⟨0x80, 0xbf, rfl, by omega, by omega⟩

theorem shown_single (code : Nat) (rest : List UInt8) (h : code < 0x80) :
    shown none (UInt8.ofNat code :: rest) = Char.ofNat code :: shown none rest := by
  have hstep : step none (UInt8.ofNat code) = ([Char.ofNat code], none) := by
    unfold step start
    rw [UInt8.toNat_ofNat_of_lt' (Nat.lt_trans h (by decide)), if_pos h]
  rw [shown, hstep, List.singleton_append]

/-- The first byte of several shows nothing yet. -/
theorem shown_begun (first : Nat) (character : PartialCharacter) (rest : List UInt8)
    (hfirst : 0x80 ≤ first) (hbyte : first < 256) (h : begin? first = some character) :
    shown none (UInt8.ofNat first :: rest) = shown (some character) rest := by
  have hstep : step none (UInt8.ofNat first) = ([], some character) := by
    unfold step start
    rw [UInt8.toNat_ofNat_of_lt' hbyte, if_neg (by omega), h]
  rw [shown, hstep, List.nil_append]

/-- A byte behind the first one holds six bits. -/
theorem toNat_continuation (more : Nat) (hmore : more < 64) :
    (UInt8.ofNat (more + 0x80)).toNat = more + 0x80 := by
  refine UInt8.toNat_ofNat_of_lt' ?_
  unfold UInt8.size
  omega

section Continuing

variable (bits others least greatest more : Nat) (rest : List UInt8)

/-- A byte in the middle adds six bits. -/
theorem shown_continued (hmore : more < 64) (hleast : least ≤ more + 0x80)
    (hgreatest : more + 0x80 ≤ greatest) :
    shown (some ⟨bits, others + 1, least, greatest⟩) (UInt8.ofNat (more + 0x80) :: rest)
      = shown (some ⟨64 * bits + more, others, 0x80, 0xbf⟩) rest := by
  have hstep : step (some ⟨bits, others + 1, least, greatest⟩) (UInt8.ofNat (more + 0x80))
      = ([], some ⟨64 * bits + more, others, 0x80, 0xbf⟩) := by
    unfold step
    simp only
    rw [toNat_continuation more hmore, if_pos ⟨hleast, hgreatest⟩, Nat.add_sub_cancel]
  rw [shown, hstep, List.nil_append]

/-- The last byte adds six bits and shows the character. -/
theorem shown_completed (hmore : more < 64) (hleast : least ≤ more + 0x80)
    (hgreatest : more + 0x80 ≤ greatest) :
    shown (some ⟨bits, 0, least, greatest⟩) (UInt8.ofNat (more + 0x80) :: rest)
      = Char.ofNat (64 * bits + more) :: shown none rest := by
  have hstep : step (some ⟨bits, 0, least, greatest⟩) (UInt8.ofNat (more + 0x80))
      = ([Char.ofNat (64 * bits + more)], none) := by
    unfold step
    simp only
    rw [toNat_continuation more hmore, if_pos ⟨hleast, hgreatest⟩, Nat.add_sub_cancel]
  rw [shown, hstep, List.singleton_append]

end Continuing

/-- The bytes of a character show it, whatever follows. -/
theorem shown_character (c : Char) (rest : List UInt8) :
    shown none (String.utf8EncodeChar c ++ rest) = c :: shown none rest := by
  have hcode : c.val.toNat < 0xd800 ∨ 0xdfff < c.val.toNat ∧ c.val.toNat < 0x110000 := c.valid
  have hchar : Char.ofNat c.val.toNat = c := Char.ofNat_toNat c
  unfold String.utf8EncodeChar
  -- One to four bytes, as the code is large; surrogates are no characters.
  generalize c.val.toNat = code at hcode hchar
  simp only
  by_cases hone : code ≤ 0x7f
  · rw [if_pos hone, List.singleton_append, shown_single code rest (by omega), hchar]
  rw [if_neg hone]
  by_cases htwo : code ≤ 0x7ff
  · rw [if_pos htwo, List.cons_append, List.singleton_append,
      shown_begun _ _ _ (by omega) (by omega) (begin?_two (code / 64 % 32) (by omega) (by omega)),
      shown_completed _ _ _ _ _ (by omega) (by omega) (by omega)]
    have hbits : 64 * (code / 64 % 32) + code % 64 = code := by omega
    rw [hbits, hchar]
  rw [if_neg htwo]
  by_cases hthree : code ≤ 0xffff
  · obtain ⟨least, greatest, hbegin, hleast, hgreatest⟩ :=
      begin?_three (code / 4096 % 16) (code / 64 % 64) (by omega) (by omega) (by omega) (by omega)
    rw [if_pos hthree, List.cons_append, List.cons_append, List.singleton_append,
      shown_begun _ _ _ (by omega) (by omega) hbegin,
      shown_continued _ _ _ _ _ _ (by omega) hleast hgreatest,
      shown_completed _ _ _ _ _ (by omega) (by omega) (by omega)]
    have hbits : 64 * (64 * (code / 4096 % 16) + code / 64 % 64) + code % 64 = code := by omega
    rw [hbits, hchar]
  · obtain ⟨least, greatest, hbegin, hleast, hgreatest⟩ :=
      begin?_four (code / 262144 % 8) (code / 4096 % 64) (by omega) (by omega) (by omega)
        (by omega)
    rw [if_neg hthree, List.cons_append, List.cons_append, List.cons_append,
      List.singleton_append, shown_begun _ _ _ (by omega) (by omega) hbegin,
      shown_continued _ _ _ _ _ _ (by omega) hleast hgreatest,
      shown_continued _ _ _ _ _ _ (by omega) (by omega) (by omega),
      shown_completed _ _ _ _ _ (by omega) (by omega) (by omega)]
    have hbits : 64 * (64 * (64 * (code / 262144 % 8) + code / 4096 % 64) + code / 64 % 64)
        + code % 64 = code := by omega
    rw [hbits, hchar]

end PartialCharacter

namespace Text

/-- The bytes of a text show it, by induction on the text. -/
theorem ofUtf8Lossy_utf8 (t : Text) : ofUtf8Lossy t.utf8 = t := by
  unfold ofUtf8Lossy utf8
  induction t with
  | nil => rfl
  | cons c t ih => rw [List.flatMap_cons, PartialCharacter.shown_character, ih]

/-- Bytes are a text if they are its UTF-8. -/
theorem ofUtf8?_eq_some_iff (bytes : List UInt8) (t : Text) :
    ofUtf8? bytes = some t ↔ bytes = t.utf8 := by
  unfold ofUtf8?
  simp only
  constructor
  · intro h
    -- Anything that is no UTF-8 has been replaced, which the comparison shows.
    by_cases hsame : (ofUtf8Lossy bytes).utf8 = bytes
    · rw [if_pos hsame, Option.some.injEq] at h
      rw [← h, hsame]
    · rw [if_neg hsame] at h
      exact absurd h (by simp only [reduceCtorEq, not_false_eq_true])
  · rintro rfl
    rw [ofUtf8Lossy_utf8, if_pos rfl]

theorem ofUtf8?_utf8 (t : Text) : ofUtf8? t.utf8 = some t :=
  (ofUtf8?_eq_some_iff t.utf8 t).2 rfl

end Text

end FileSignatures
