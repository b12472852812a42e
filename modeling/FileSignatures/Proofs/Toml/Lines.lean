import FileSignatures.Proofs.Toml.Strings
import FileSignatures.Toml.Reader

/-!
# Lines that are written

A header is read back as the table that it begins, and a line with a key and a value as the
two of them, whatever the rest of the document. What comes after a value on its line is the
line break, so nothing that could continue the value, and a key is a bare one, which nothing
else on a line can be taken for. Of a value it only matters that its text is one that the
reader reads as it: `Writes` says so of the kinds of values that settings have.

## Main definitions

* `Toml.Writes`: A text writes a value.
* `Toml.IsBareKey`: A key that is written without quotes.

## Theorems

* `integerOf?_ofNat`: A count is read back, if it fits in a signed word.
* `readValue?_of_writes`: A value is read back, up to the end of its line.
* `readKey?_bare`: So is a bare key, up to what does not continue it.
* `readLine?_header`, `readLine?_entry`: The two kinds of lines are read back.
-/

namespace FileSignatures

namespace Toml

section Scalars

/-- Digits without underscores are not grouped. -/
theorem ungroup?_of_digits (isDigitChar : Char → Bool) (t : Text) (hne : t ≠ [])
    (h : ∀ c ∈ t, isDigitChar c = true ∧ c ≠ '_') : ungroup? isDigitChar t = some t := by
  induction t with
  | nil => exact absurd rfl hne
  | cons c t ih =>
      obtain ⟨⟨hc, -⟩, ht⟩ := List.forall_mem_cons.1 h
      -- Only an underscore between two digits is dropped.
      cases t with
      | nil => rw [ungroup?, if_pos hc]
      | cons d more =>
          rw [ungroup?, if_pos hc, ih (List.cons_ne_nil d more) ht]
          · rfl
          · exact List.cons_ne_nil d more
          · exact fun tail heq => absurd (List.cons.inj heq).1 (ht d List.mem_cons_self).2

theorem decimalValue?_ofNat (n : Nat) : decimalValue? (Text.ofNat n) = some n := by
  have hungroup : ungroup? isDigit (Text.ofNat n) = some (Text.ofNat n) := by
    refine ungroup?_of_digits isDigit _ (ofNat_ne_nil n) fun c hc => ?_
    have hdigit := isDigit_of_mem_ofNat n c hc
    exact ⟨hdigit, fun heq => absurd hdigit (by rw [heq]; decide)⟩
  -- A zero in front would have to be the only digit.
  have hwhole : wholeDigits? (Text.ofNat n) = some (Text.ofNat n) := by
    unfold wholeDigits?
    split
    · rename_i heq
      rcases ofNat_zero_or_head n with hzero | ⟨c, rest, hcons, -, hc⟩
      · rw [hzero] at heq
        exact absurd (List.cons.inj heq).2 (List.cons_ne_nil _ _).symm
      · rw [hcons] at heq
        exact absurd (List.cons.inj heq).1 hc
    · exact hungroup
  rw [decimalValue?, hwhole, Option.bind_some, digitsValue?_ofNat]

/-- A count is read as an integer, if it fits in a signed word. -/
theorem integerOf?_ofNat (n : Nat) (h : (n : Int) < Literal.signedBound) :
    integerOf? (Text.ofNat n) = some (n : Int) := by
  have hvalue := decimalValue?_ofNat n
  have hrange : (decide (-Literal.signedBound ≤ (n : Int))
      && decide ((n : Int) < Literal.signedBound)) = true := by
    rw [Bool.and_eq_true, decide_eq_true_eq, decide_eq_true_eq]
    exact ⟨by unfold Literal.signedBound; omega, h⟩
  unfold integerOf?
  simp only
  refine Option.filter_eq_some_iff.2 ⟨?_, hrange⟩
  rcases ofNat_zero_or_head n with hzero | ⟨c, rest, hcons, hdigit, hc⟩
  · have hnone : decimalValue? ['0'] = some 0 := rfl
    rw [hzero, hnone, Option.some.injEq] at hvalue
    rw [hzero, ← hvalue]
    rfl
  · have hplus : c ≠ '+' := fun heq => absurd hdigit (by rw [heq]; decide)
    have hminus : c ≠ '-' := fun heq => absurd hdigit (by rw [heq]; decide)
    rw [hcons] at hvalue ⊢
    -- No prefix of a radix and no sign is left.
    split
    · rename_i heq
      exact absurd (List.cons.inj heq).1 hc
    · rename_i heq
      exact absurd (List.cons.inj heq).1 hc
    · rename_i heq
      exact absurd (List.cons.inj heq).1 hc
    · rename_i heq
      exact absurd (List.cons.inj heq).1 hplus
    · rename_i heq
      exact absurd (List.cons.inj heq).1 hminus
    · rw [hvalue]
      rfl

/-- A word without a minus sign is no date. -/
theorem isDate_of_notMem (word : Text) (h : '-' ∉ word) : isDate word = false := by
  rw [isDate, pieces_eq_singleton '-' word h]

/-- A word is read up to its end. -/
theorem readValue?_word (word rest : Text) (value : Toml) (hne : word ≠ [])
    (hword : ∀ c ∈ word, isWordChar c = true) (hrest : rest.Stops isWordChar)
    (hvalue : scalarOf? word = some value) (hdate : '-' ∉ word) :
    readValue? (word ++ rest) = some (value, rest) := by
  have hscalar : readScalar? (word ++ rest) = some (value, rest) := by
    unfold readScalar?
    simp only
    rw [takeWhile_append_of_stops isWordChar word rest hword hrest,
      dropWhile_append_of_stops isWordChar word rest hword hrest, hvalue,
      isDate_of_notMem word hdate, Option.map_some, if_neg Bool.false_ne_true]
  obtain ⟨c, more, rfl⟩ := List.exists_cons_of_ne_nil hne
  have hc := hword c List.mem_cons_self
  -- No character of a word opens a string, a list or a table.
  have hother := ne_of_kind isWordChar ['"', '\'', '[', '{'] (by decide) c hc
  rw [readValue?, List.cons_append, readValueTo?]
  · exact hscalar
  · exact fun _ heq => hother '"' (by decide) (List.cons.inj heq).1
  · exact fun _ heq => hother '\'' (by decide) (List.cons.inj heq).1
  · exact fun _ _ _ heq => hother '[' (by decide) (List.cons.inj heq).1
  · exact fun _ _ _ heq => hother '{' (by decide) (List.cons.inj heq).1

theorem readValue?_boolText (b : Bool) (rest : Text) (hrest : rest.Stops isWordChar) :
    readValue? (boolText b ++ rest) = some (.boolean b, rest) := by
  cases b with
  | true =>
      exact readValue?_word "true".toList rest _ (by decide) (List.all_eq_true.1 (by decide)) hrest
        rfl (by decide)
  | false =>
      exact readValue?_word "false".toList rest _ (by decide) (List.all_eq_true.1 (by decide)) hrest
        rfl (by decide)

theorem readValue?_ofNat (n : Nat) (rest : Text) (h : (n : Int) < Literal.signedBound)
    (hrest : rest.Stops isWordChar) :
    readValue? (Text.ofNat n ++ rest) = some (.integer n, rest) := by
  have hdigit := isDigit_of_mem_ofNat n
  refine readValue?_word (Text.ofNat n) rest _ (ofNat_ne_nil n) (fun c hc => ?_) hrest ?_
    fun hminus => absurd (hdigit '-' hminus) (by decide)
  · simp only [isWordChar, hdigit c hc, Bool.true_or]
  · -- A text of digits is neither of the two truth values.
    have hnot : ∀ (c : Char) (more : Text), isDigit c = false → Text.ofNat n ≠ c :: more := by
      intro c more hc heq
      exact absurd (hdigit c (by rw [heq]; exact List.mem_cons_self)) (by rw [hc]; decide)
    have htrue : Text.ofNat n ≠ "true".toList := hnot 't' _ rfl
    have hfalse : Text.ofNat n ≠ "false".toList := hnot 'f' _ rfl
    rw [scalarOf?, if_neg htrue, if_neg hfalse, integerOf?_ofNat n h]

end Scalars

section Values

/-- A text writes a value of one of the kinds that settings have. -/
inductive Writes : Toml → Text → Prop
  | string (t : Text) (form : StringForm) (h : form.Holds t) : Writes (.string t) (formText form t)
  | boolean (b : Bool) : Writes (.boolean b) (boolText b)
  | count (n : Nat) (h : (n : Int) < Literal.signedBound) : Writes (.integer n) (Text.ofNat n)

/-- A string begins with a mark. -/
theorem exists_cons_of_formText (form : StringForm) (t : Text) :
    ∃ mark more, formText form t = mark :: more ∧ (mark = '"' ∨ mark = '\'') := by
  cases form with
  | basic => exact ⟨'"', _, rfl, Or.inl rfl⟩
  | literal => exact ⟨'\'', _, rfl, Or.inr rfl⟩
  | longBasic => exact ⟨'"', _, rfl, Or.inl rfl⟩
  | longLiteral => exact ⟨'\'', _, rfl, Or.inr rfl⟩

/-- What begins with a mark is read as a string. -/
theorem readValue?_string (mark : Char) (more t rest : Text) (hmark : mark = '"' ∨ mark = '\'')
    (h : readString? (mark :: more) = some (t, rest)) :
    readValue? (mark :: more) = some (.string t, rest) := by
  rcases hmark with rfl | rfl
  · rw [readValue?, readValueTo?, h, Option.map_some]
  · rw [readValue?, readValueTo?, h, Option.map_some]

/-- A value is read back, up to the end of its line. -/
theorem readValue?_of_writes (value : Toml) (own rest : Text) (h : Writes value own) :
    readValue? (own ++ '\n' :: rest) = some (value, '\n' :: rest) := by
  -- The end of the line ends every value: it continues no word and is no quote.
  have hstops : Text.Stops isWordChar ('\n' :: rest) := by
    intro c hc
    rw [← Option.some.inj hc]
    decide
  have hne : ∀ mark, mark ≠ '\n' → ('\n' :: rest).head? ≠ some mark := fun mark hmark heq =>
    hmark (Option.some.inj heq).symm
  cases h with
  | string t form h =>
      obtain ⟨mark, more, heq, hmark⟩ := exists_cons_of_formText form t
      have hread := readString?_formText form t ('\n' :: rest) h (hne '"' (by decide))
        (hne '\'' (by decide))
      rw [heq] at hread ⊢
      exact readValue?_string mark _ t _ hmark hread
  | boolean b => exact readValue?_boolText b _ hstops
  | count n h => exact readValue?_ofNat n _ h hstops

/-- A value does not begin with a blank. -/
theorem stops_of_writes (value : Toml) (own rest : Text) (h : Writes value own) :
    Text.Stops isSpace (own ++ rest) := by
  intro c hc
  -- The forms begin with a quote, with the letter of a truth value or with a digit.
  cases h with
  | string t form h =>
      obtain ⟨mark, more, heq, hmark⟩ := exists_cons_of_formText form t
      rw [heq] at hc
      rw [← Option.some.inj hc]
      rcases hmark with rfl | rfl <;> decide
  | boolean b =>
      cases b with
      | true =>
          rw [← Option.some.inj hc]
          decide
      | false =>
          rw [← Option.some.inj hc]
          decide
  | count n h =>
      obtain ⟨d, more, heq, hdigit⟩ := ofNat_eq_cons n
      rw [heq] at hc
      rw [← Option.some.inj hc, isSpace, Bool.or_eq_false_iff, decide_eq_false_iff_not,
        decide_eq_false_iff_not]
      refine ⟨?_, ?_⟩
      · rintro rfl
        exact absurd hdigit (by decide)
      · rintro rfl
        exact absurd hdigit (by decide)

end Values

section Keys

/-- A key that is written without quotes. -/
def IsBareKey (key : Text) : Prop :=
  key ≠ [] ∧ ∀ c ∈ key, isKeyChar c = true

theorem skipSpace_of_stops (t : Text) (h : t.Stops isSpace) : skipSpace t = t :=
  dropWhile_append_of_stops isSpace [] t (fun _ hc => absurd hc List.not_mem_nil) h

/-- What a bare key begins with begins nothing else. -/
theorem exists_cons_of_isBareKey (key : Text) (h : IsBareKey key) :
    ∃ c more, key = c :: more ∧ isSpace c = false ∧ c ∉ ['"', '\'', '[', '#', '\n', '\r'] := by
  obtain ⟨c, more, rfl⟩ := List.exists_cons_of_ne_nil h.1
  have hc := h.2 c List.mem_cons_self
  have hne := ne_of_kind isKeyChar [' ', '\t', '"', '\'', '[', '#', '\n', '\r'] (by decide) c hc
  refine ⟨c, more, rfl, ?_, fun hmem => hne c (List.mem_append_right [' ', '\t'] hmem) rfl⟩
  rw [isSpace, decide_eq_false (hne ' ' (by decide)), decide_eq_false (hne '\t' (by decide)),
    Bool.or_self]

/-- A bare key is read back, up to what does not continue it. -/
theorem readKey?_bare (key rest after : Text) (h : IsBareKey key) (hstop : rest.Stops isKeyChar)
    (hafter : skipSpace rest = after) (hpoint : after.head? ≠ some '.') :
    readKey? (key ++ rest) = some (([], key), after) := by
  obtain ⟨c, more, heq, hspace, hother⟩ := exists_cons_of_isBareKey key h
  have hskip : skipSpace (key ++ rest) = key ++ rest := by
    refine skipSpace_of_stops _ fun d hd => ?_
    rw [heq] at hd
    rw [← Option.some.inj hd, hspace]
  -- A bare key begins with no quote, so it is read up to the first other character.
  have hpart : readKeyPart? (key ++ rest) = some (key, rest) := by
    unfold readKeyPart?
    split
    · rename_i tail hquote
      rw [heq] at hquote
      exact (hother (by rw [(List.cons.inj hquote).1]; decide)).elim
    · rename_i tail hquote
      rw [heq] at hquote
      exact (hother (by rw [(List.cons.inj hquote).1]; decide)).elim
    · simp only
      rw [takeWhile_append_of_stops isKeyChar key rest h.2 hstop,
        dropWhile_append_of_stops isKeyChar key rest h.2 hstop, if_neg]
      rw [List.isEmpty_iff]
      exact h.1
  have hparts : readKeyParts? ((key ++ rest).length + 1) (key ++ rest)
      = some ([key], after) := by
    rw [readKeyParts?, hskip, hpart]
    simp only [Option.bind_eq_bind, Option.bind_some, hafter]
    split
    · exact absurd rfl hpoint
    · rfl
  rw [readKey?, hparts]
  rfl

end Keys

section Lines

variable (state : ReadState) (rest : Text) (document : Entries)

theorem readLine?_header (name : Text) (hname : IsBareKey name)
    (h : addTable? [] name state.document = some document) :
    readLine? state (headerLine name ++ rest) = some (⟨document, [name]⟩, rest) := by
  have hstop : Text.Stops isKeyChar (']' :: '\n' :: rest) := by
    intro c hc
    rw [← Option.some.inj hc]
    decide
  have hheader : readHeader? [']'] (name ++ ']' :: '\n' :: rest)
      = some (([], name), '\n' :: rest) := by
    rw [readHeader?, readKey?_bare name _ (']' :: '\n' :: rest) hname hstop rfl
      fun hpoint => absurd (Option.some.inj hpoint) (by decide)]
    rfl
  have hend : endLine? ('\n' :: rest) = some rest := rfl
  have htext : headerLine name ++ rest = '[' :: (name ++ ']' :: '\n' :: rest) := by
    rw [headerLine, List.cons_append, List.append_assoc]
    rfl
  obtain ⟨c, more, heq, -, hother⟩ := exists_cons_of_isBareKey name hname
  rw [htext, readLine?]
  · simp only [hheader, h, hend, Option.bind_eq_bind, Option.bind_some, List.nil_append]
    rfl
  · -- A name is no second bracket.
    intro tail htail
    rw [heq] at htail
    exact hother (by rw [(List.cons.inj htail).1]; decide)

theorem readLine?_entry (key own : Text) (value : Toml) (hkey : IsBareKey key)
    (hvalue : Writes value own)
    (h : addKey? state.current [] key value state.document = some document) :
    readLine? state (entryLine key own ++ rest) = some (⟨document, state.current⟩, rest) := by
  have hstop : Text.Stops isKeyChar (' ' :: '=' :: ' ' :: (own ++ '\n' :: rest)) := by
    intro c hc
    rw [← Option.some.inj hc]
    decide
  have hread := readKey?_bare key _ ('=' :: ' ' :: (own ++ '\n' :: rest)) hkey hstop rfl
    fun hpoint => absurd (Option.some.inj hpoint) (by decide)
  have hequals : skipSpace ('=' :: ' ' :: (own ++ '\n' :: rest))
      = '=' :: ' ' :: (own ++ '\n' :: rest) := rfl
  have hown : skipSpace (' ' :: (own ++ '\n' :: rest)) = own ++ '\n' :: rest :=
    skipSpace_of_stops _ (stops_of_writes value own _ hvalue)
  have hend : endLine? ('\n' :: rest) = some rest := rfl
  have htext : entryLine key own ++ rest = key ++ ' ' :: '=' :: ' ' :: (own ++ '\n' :: rest) := by
    unfold entryLine
    simp only [List.append_assoc]
    rfl
  obtain ⟨c, more, heq, -, hother⟩ := exists_cons_of_isBareKey key hkey
  -- The line begins with the key and so opens no table.
  have hbracket : ∀ tail, key ++ ' ' :: '=' :: ' ' :: (own ++ '\n' :: rest) ≠ '[' :: tail := by
    intro tail htail
    rw [heq] at htail
    exact hother (by rw [(List.cons.inj htail).1]; decide)
  rw [htext, readLine?]
  · simp only [hread, hequals, hown, readValue?_of_writes value own rest hvalue, h, hend,
      Option.bind_eq_bind, Option.bind_some]
    rfl
  · exact fun tail => hbracket ('[' :: tail)
  · exact hbracket

end Lines

end Toml

end FileSignatures
