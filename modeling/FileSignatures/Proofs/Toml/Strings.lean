import FileSignatures.Proofs.Number.Digits
import FileSignatures.Toml.Printer

/-!
# Strings that are written

A string is read back from every form that can hold it, so in particular from the one that
is chosen for it. With escapes every text can be held, on one line or on several; as it is,
only one without controls and without the mark that would close it.

Between triple marks a run of two marks belongs to the string, and so do up to two right in
front of the closing ones. The reader decides at the first mark of a run, by looking at the
two characters behind it. What it sees there is the end of the string, unless three marks
stand in a row; this is what the writer prevents by escaping every third quote, and what a
text between apostrophes must not have (`cases_of_beginsWithTwo`, `cases_of_longestRun`).

The two readers of escapes go through the same states. What they have in common is stated
once (`ReadsEscapes`), and the escape of a character is read back from it alone.

## Main definitions

* `Toml.ReadsEscapes`: A reader of strings with escapes.
* `Toml.StringForm.Holds`: A form that can hold a text.

## Theorems

* `ReadsEscapes.read_escapeChar`: An escaped character is read back.
* `readString?_formText`: A string is read back from a form that can hold it.
* `holds_formOf`: The form that is chosen for a text can hold it.
-/

namespace FileSignatures

namespace Toml

section Escapes

/-- A reader of strings with escapes. Line breaks and quotes are left open. -/
structure ReadsEscapes (read : StringState → Text → Option (Text × Text)) : Prop where
  plain : ∀ (c : Char) (rest : Text), isPlainChar c = true → c ≠ '"' → c ≠ '\\' →
    read .plain (c :: rest) = (read .plain rest).map (consRead (some c))
  backslash : ∀ rest : Text, read .plain ('\\' :: rest) = read .backslash rest
  letter : ∀ (c : Char) (e : Option Char) (state : StringState) (rest : Text),
    afterEscape? c = some (e, state) →
    read .backslash (c :: rest) = (read state rest).map (consRead e)
  digit : ∀ (more value : Nat) (c : Char) (e : Option Char) (state : StringState) (rest : Text),
    afterDigit? more value c = some (e, state) →
    read (.code more value) (c :: rest) = (read state rest).map (consRead e)

theorem map_consRead_none (read : Option (Text × Text)) : read.map (consRead none) = read := by
  cases read <;> rfl

theorem readsEscapes_readBasic? : ReadsEscapes readBasic? where
  plain c rest hplain hquote hbackslash := by
    rw [readBasic?, if_neg hquote, if_neg hbackslash, if_pos hplain]
    · exact fun h => absurd h (by simp only [reduceCtorEq, not_false_eq_true])
    · exact fun _ _ h => absurd h (by simp only [reduceCtorEq, not_false_eq_true])
  backslash rest := rfl
  letter c e state rest h := by rw [readBasic?, h]
  digit more value c e state rest h := by rw [readBasic?, h]

/-- A character of a kind differs from those that are not of the kind. -/
theorem ne_of_kind (isKind : Char → Bool) (others : List Char)
    (hothers : others.all (fun d => !isKind d) = true) (c : Char) (hc : isKind c = true) :
    ∀ d ∈ others, c ≠ d := by
  rintro d hd rfl
  have hnot := List.all_eq_true.1 hothers c hd
  rw [hc] at hnot
  exact absurd hnot (by decide)

/-- No escape begins with a blank or a line break. -/
theorem ne_blank_of_afterEscape? (c : Char) (after : Option Char × StringState)
    (h : afterEscape? c = some after) : c ≠ ' ' ∧ c ≠ '\t' ∧ c ≠ '\n' ∧ c ≠ '\r' := by
  have hne := ne_of_kind (fun c => (afterEscape? c).isSome) [' ', '\t', '\n', '\r'] (by decide) c
    (Option.isSome_of_eq_some h)
  exact ⟨hne ' ' (by decide), hne '\t' (by decide), hne '\n' (by decide), hne '\r' (by decide)⟩

/-- A character that stands for itself is no line break. -/
theorem ne_break_of_isPlainChar (c : Char) (h : isPlainChar c = true) : c ≠ '\n' ∧ c ≠ '\r' := by
  have hne := ne_of_kind isPlainChar ['\n', '\r'] (by decide) c h
  exact ⟨hne '\n' (by decide), hne '\r' (by decide)⟩

/-- What stands for itself on several lines is kept, and it is no carriage return. -/
theorem keeps_of_content (c : Char) (h : c = '\n' ∨ isPlainChar c = true) :
    c ≠ '\r' ∧ (c = '\n' || isPlainChar c) = true := by
  refine ⟨?_, by rw [Bool.or_eq_true, decide_eq_true_eq]; exact h⟩
  rcases h with rfl | hplain
  · decide
  · exact (ne_break_of_isPlainChar c hplain).2

/-- A character of a string on several lines that is neither a quote nor a backslash. -/
theorem readLongBasic?_content (c : Char) (rest : Text) (hquote : c ≠ '"')
    (hbackslash : c ≠ '\\') (hcontent : c = '\n' ∨ isPlainChar c = true) :
    readLongBasic? .plain (c :: rest)
      = (readLongBasic? .plain rest).map (consRead (some c)) := by
  obtain ⟨hreturn, hkeeps⟩ := keeps_of_content c hcontent
  rw [readLongBasic?]
  · simp only [reduceCtorEq, decide_false, Bool.false_and, Bool.false_eq_true, if_false, hquote,
      hbackslash, hreturn, hkeeps, if_true]
  · exact fun _ _ h => absurd h (by simp only [reduceCtorEq, not_false_eq_true])
  · exact fun h => absurd h (by simp only [reduceCtorEq, not_false_eq_true])
  · exact fun h => absurd h (by simp only [reduceCtorEq, not_false_eq_true])

theorem readsEscapes_readLongBasic? : ReadsEscapes readLongBasic? where
  plain c rest hplain hquote hbackslash :=
    readLongBasic?_content c rest hquote hbackslash (Or.inr hplain)
  backslash rest := rfl
  letter c e state rest h := by
    obtain ⟨hspace, htab, hnewline, hreturn⟩ := ne_blank_of_afterEscape? c (e, state) h
    rw [readLongBasic?, h]
    simp only [hspace, htab, hnewline, hreturn, decide_false, Bool.or_self, Bool.false_and,
      Bool.false_eq_true, if_false]
  digit more value c e state rest h := by rw [readLongBasic?, h]

/-- A control is escaped by the four digits of its code. -/
theorem codeDigits_of_control (code : Nat) (h : code < 128) :
    codeDigits code
        = ['0', '0', (Nat.digitChar (code / 16)).toUpper, (Nat.digitChar (code % 16)).toUpper]
      ∧ digitValue? 16 (Nat.digitChar (code / 16)).toUpper = some (code / 16)
      ∧ digitValue? 16 (Nat.digitChar (code % 16)).toUpper = some (code % 16)
      ∧ code.isValidChar := by
  have hall : ∀ n < 128, codeDigits n
        = ['0', '0', (Nat.digitChar (n / 16)).toUpper, (Nat.digitChar (n % 16)).toUpper]
      ∧ digitValue? 16 (Nat.digitChar (n / 16)).toUpper = some (n / 16)
      ∧ digitValue? 16 (Nat.digitChar (n % 16)).toUpper = some (n % 16)
      ∧ n.isValidChar := by decide
  exact hall code h

/-- What needs no escape stands for itself, a line feed aside. -/
theorem isPlainChar_iff (c : Char) : isPlainChar c = true ↔ needsEscape c = false ∧ c ≠ '\n' := by
  have hbreak : isPlainChar '\n' = false := rfl
  by_cases hnewline : c = '\n'
  · rw [hnewline, hbreak]
    simp only [Bool.false_eq_true, ne_eq, not_true_eq_false, and_false]
  · unfold isPlainChar needsEscape
    simp only [hnewline, Bool.or_eq_true, Bool.and_eq_true, decide_eq_true_eq,
      Bool.and_eq_false_iff, Bool.or_eq_false_iff, decide_eq_false_iff_not, not_not, Char.not_lt,
      ne_eq, not_true_eq_false, or_false, not_false_eq_true, and_true]

theorem toNat_lt_of_needsEscape (c : Char) (h : needsEscape c = true) : c.toNat < 128 := by
  have hcontrol : c < ' ' → c.toNat < 32 := fun hlt => hlt
  unfold needsEscape at h
  simp only [Bool.and_eq_true, Bool.or_eq_true, decide_eq_true_eq] at h
  rcases h.2 with hlt | rfl
  · have := hcontrol hlt
    omega
  · decide

variable {read : StringState → Text → Option (Text × Text)} (hread : ReadsEscapes read)
include hread

theorem ReadsEscapes.read_letter (letter c : Char) (rest : Text)
    (h : afterEscape? letter = some (some c, .plain)) :
    read .plain ('\\' :: letter :: rest) = (read .plain rest).map (consRead (some c)) := by
  rw [hread.backslash, hread.letter letter (some c) .plain rest h]

theorem ReadsEscapes.read_code (c : Char) (rest : Text) (h : c.toNat < 128) :
    read .plain ('\\' :: 'u' :: (codeDigits c.toNat ++ rest))
      = (read .plain rest).map (consRead (some c)) := by
  -- The code of a control character has four digits, and the first two are zeros.
  have hzero : ∀ more, afterDigit? (more + 1) 0 '0' = some (none, .code more 0) := fun _ => rfl
  obtain ⟨hdigits, hhigh, hlow, hvalid⟩ := codeDigits_of_control c.toNat h
  have hsecond : afterDigit? 1 0 (Nat.digitChar (c.toNat / 16)).toUpper
      = some (none, .code 0 (c.toNat / 16)) := by
    unfold afterDigit?
    rw [hhigh, Nat.zero_mul]
    simp only [Nat.zero_add]
  have hlast : afterDigit? 0 (c.toNat / 16) (Nat.digitChar (c.toNat % 16)).toUpper
      = some (some c, .plain) := by
    have hcode : c.toNat / 16 * 16 + c.toNat % 16 = c.toNat := Nat.div_add_mod' c.toNat 16
    unfold afterDigit?
    rw [hlow]
    simp only [hcode, charOf?, hvalid, if_true, Option.map_some, Char.ofNat_toNat]
  rw [hdigits, hread.backslash, hread.letter 'u' none (.code 3 0) _ rfl]
  simp only [List.cons_append, List.nil_append, map_consRead_none,
    hread.digit _ _ _ _ _ _ (hzero _), hread.digit _ _ _ _ _ _ hsecond,
    hread.digit _ _ _ _ _ _ hlast]

/-- A character that is no quote is read back, however it stands in a string. -/
theorem ReadsEscapes.read_escapeChar (long : Bool) (c : Char) (rest : Text) (hquote : c ≠ '"')
    (hbreak : c = '\n' → long = false) :
    read .plain (escapeChar long c ++ rest) = (read .plain rest).map (consRead (some c)) := by
  unfold escapeChar
  by_cases hbackslash : c = '\\'
  · rw [if_pos hbackslash, hbackslash]
    exact hread.read_letter '\\' _ rest rfl
  rw [if_neg hbackslash]
  -- The letters of the controls that have one.
  by_cases hbackspace : c = '\x08'
  · rw [if_pos hbackspace, hbackspace]
    exact hread.read_letter 'b' _ rest rfl
  rw [if_neg hbackspace]
  by_cases htab : c = '\t'
  · rw [if_pos htab, htab]
    exact hread.read_letter 't' _ rest rfl
  rw [if_neg htab]
  by_cases hnewline : c = '\n'
  · rw [if_pos hnewline, hbreak hnewline, hnewline, if_neg Bool.false_ne_true]
    exact hread.read_letter 'n' _ rest rfl
  rw [if_neg hnewline]
  by_cases hfeed : c = '\x0c'
  · rw [if_pos hfeed, hfeed]
    exact hread.read_letter 'f' _ rest rfl
  rw [if_neg hfeed]
  by_cases hreturn : c = '\r'
  · rw [if_pos hreturn, hreturn]
    exact hread.read_letter 'r' _ rest rfl
  rw [if_neg hreturn]
  by_cases hescape : needsEscape c = true
  · rw [if_pos hescape]
    exact hread.read_code c rest (toNat_lt_of_needsEscape c hescape)
  · rw [if_neg hescape]
    exact hread.plain c rest
      ((isPlainChar_iff c).2 ⟨Bool.eq_false_iff.2 hescape, hnewline⟩) hquote hbackslash

end Escapes

section Heads

/-- A character is escaped, or it stands for itself and is no carriage return. -/
theorem escapeChar_cases (long : Bool) (c : Char) :
    (∃ more, escapeChar long c = '\\' :: more) ∨ (escapeChar long c = [c] ∧ c ≠ '\r') := by
  unfold escapeChar
  split_ifs with _ _ _ hnewline _ _ hreturn _
  all_goals first
    | exact Or.inl ⟨_, rfl⟩
    | exact Or.inr ⟨by rw [hnewline], by rw [hnewline]; decide⟩
    | exact Or.inr ⟨rfl, hreturn⟩

/-- Where a quote would be escaped, what is written does not begin with one. -/
theorem exists_cons_of_escapeFrom (long : Bool) (run : Nat) (c : Char) (t : Text)
    (h : c = '"' → (long && decide (run < 2)) = false) :
    ∃ d more, escapeFrom long run (c :: t) = d :: more ∧ d ≠ '"' := by
  rw [escapeFrom]
  by_cases hquote : c = '"'
  · rw [if_pos hquote, h hquote, if_neg Bool.false_ne_true]
    exact ⟨'\\', '"' :: escapeFrom long 0 t, rfl, by decide⟩
  · rw [if_neg hquote]
    rcases escapeChar_cases long c with ⟨more, heq⟩ | ⟨heq, -⟩
    · exact ⟨'\\', more ++ escapeFrom long 0 t, by rw [heq, List.cons_append], by decide⟩
    · exact ⟨c, escapeFrom long 0 t, by rw [heq, List.singleton_append], hquote⟩

theorem beginsWithTwo_cons_iff (mark c : Char) (t : Text) :
    beginsWithTwo mark (c :: t) = true ↔ c = mark ∧ t.head? = some mark := by
  unfold beginsWithTwo
  cases t with
  | nil => simp only [List.take_succ_cons, List.take_nil, List.cons.injEq, reduceCtorEq, and_false,
      decide_false, Bool.false_eq_true, List.head?_nil]
  | cons d more => simp only [List.take_succ_cons, List.take_zero, List.cons.injEq, and_true,
      decide_eq_true_eq, List.head?_cons, Option.some.injEq]

end Heads

section OneLine

/-- A string with escapes on one line is read back, up to its closing quote. -/
theorem readBasic?_escapeFrom (run : Nat) (t rest : Text) :
    readBasic? .plain (escapeFrom false run t ++ '"' :: rest) = some (t, rest) := by
  induction t generalizing run with
  | nil => rfl
  | cons c t ih =>
      by_cases hquote : c = '"'
      · -- On one line every quote is escaped, so the first bare one is the closing one.
        have hletter := readsEscapes_readBasic?.read_letter '"' '"'
          (escapeFrom false 0 t ++ '"' :: rest) rfl
        rw [escapeFrom, if_pos hquote, hquote, Bool.false_and, if_neg Bool.false_ne_true,
          List.cons_append, List.cons_append, hletter, ih]
        rfl
      · rw [escapeFrom, if_neg hquote, List.append_assoc,
          readsEscapes_readBasic?.read_escapeChar false c _ hquote fun _ => rfl, ih]
        rfl

/-- A string between apostrophes on one line is read back, up to the closing one. -/
theorem readLiteral?_append (t rest : Text)
    (h : ∀ c ∈ t, isPlainChar c = true ∧ c ≠ '\'') :
    readLiteral? (t ++ '\'' :: rest) = some (t, rest) := by
  induction t with
  | nil => rfl
  | cons c t ih =>
      obtain ⟨⟨hplain, hapostrophe⟩, ht⟩ := List.forall_mem_cons.1 h
      rw [List.cons_append, readLiteral?, if_neg hapostrophe, if_pos hplain, ih ht]
      rfl

end OneLine

section SeveralLines

variable (rest : Text)

/-- What the reader sees behind a quote of a run: two more of them end the string, with
    what belongs to it. -/
theorem cases_of_beginsWithTwo (run : Nat) (t : Text) (hrun : 1 ≤ run)
    (h : beginsWithTwo '"' (escapeFrom true run t ++ '"' :: '"' :: '"' :: rest) = true) :
    t = [] ∨ (t = ['"'] ∧ run = 1) := by
  -- A quote that would be the third of a run is escaped.
  have hescaped : ∀ n, 2 ≤ n → (true && decide (n < 2)) = false := fun n hn =>
    decide_eq_false (by omega)
  cases t with
  | nil => exact Or.inl rfl
  | cons c t =>
      by_cases hraw : c = '"' ∧ run < 2
      · obtain ⟨rfl, hlt⟩ := hraw
        rw [escapeFrom, if_pos rfl, if_pos (by rw [decide_eq_true hlt]; rfl), List.cons_append,
          beginsWithTwo_cons_iff] at h
        cases t with
        | nil => exact Or.inr ⟨rfl, by omega⟩
        | cons d more =>
            obtain ⟨e, others, heq, hne⟩ := exists_cons_of_escapeFrom true (run + 1) d more
              fun _ => hescaped (run + 1) (by omega)
            rw [heq, List.cons_append, List.head?_cons, Option.some.injEq] at h
            exact absurd h.2 hne
      · obtain ⟨e, others, heq, hne⟩ := exists_cons_of_escapeFrom true run c t
          fun hquote => hescaped run (Nat.le_of_not_lt fun hlt => hraw ⟨hquote, hlt⟩)
        rw [heq, List.cons_append, beginsWithTwo_cons_iff] at h
        exact absurd h.1 hne

/-- A quote in a string on several lines that does not end it. -/
theorem readLongBasic?_quote (t : Text) (h : beginsWithTwo '"' t = false) :
    readLongBasic? .plain ('"' :: t) = (readLongBasic? .plain t).map (consRead (some '"')) := by
  rw [readLongBasic?]
  · simp only [reduceCtorEq, decide_false, Bool.false_and, Bool.false_eq_true, if_false, if_true, h]
  · exact fun _ _ h => absurd h (by simp only [reduceCtorEq, not_false_eq_true])
  · exact fun h => absurd h (by simp only [reduceCtorEq, not_false_eq_true])
  · exact fun h => absurd h (by simp only [reduceCtorEq, not_false_eq_true])

/-- A quote before two others ends the string. -/
theorem readLongBasic?_close (t : Text) :
    readLongBasic? .plain ('"' :: '"' :: '"' :: t) = some (closeLong '"' t) := by
  rfl

/-- What is behind a string is no mark of it. -/
theorem closeLong_of_stops (mark : Char) (more : Text)
    (hmore : more = [] ∨ more = [mark] ∨ more = [mark, mark]) (hrest : rest.head? ≠ some mark) :
    closeLong mark (more ++ rest) = (more, rest) := by
  have hne : ∀ (c : Char) (tail : Text), rest = c :: tail → c ≠ mark := by
    rintro c tail rfl rfl
    exact hrest rfl
  -- Up to two marks behind the closing ones belong to the text.
  rcases hmore with rfl | rfl | rfl
  · rw [List.nil_append]
    unfold closeLong
    split
    · rename_i a b tail
      rw [if_neg (hne a _ rfl)]
    · rename_i a
      rw [if_neg (hne a _ rfl)]
    · rfl
  · cases rest with
    | nil => exact if_pos rfl
    | cons a tail =>
        rw [List.singleton_append, closeLong, if_pos rfl, if_neg (hne a tail rfl)]
  · rw [List.cons_append, List.singleton_append, closeLong, if_pos rfl, if_pos rfl]

/-- A string with escapes on several lines is read back, up to the closing quotes. -/
theorem readLongBasic?_escapeFrom (run : Nat) (t : Text) (hrest : rest.head? ≠ some '"') :
    readLongBasic? .plain (escapeFrom true run t ++ '"' :: '"' :: '"' :: rest)
      = some (t, rest) := by
  have hclose := fun more hmore =>
    (readLongBasic?_close (more ++ rest)).trans
      (congrArg some (closeLong_of_stops rest '"' more hmore hrest))
  induction t generalizing run with
  | nil => exact hclose [] (Or.inl rfl)
  | cons c t ih =>
      by_cases hquote : c = '"'
      · -- A quote is bare only while fewer than two stand before it, so three in a row can only
        -- be the closing ones.
        rw [hquote, escapeFrom, if_pos rfl]
        by_cases hraw : run < 2
        · rw [decide_eq_true hraw, Bool.and_self, if_pos rfl, List.cons_append]
          by_cases htwo : beginsWithTwo '"'
              (escapeFrom true (run + 1) t ++ '"' :: '"' :: '"' :: rest) = true
          · rcases cases_of_beginsWithTwo rest (run + 1) t (by omega) htwo with rfl | ⟨rfl, hone⟩
            · exact hclose ['"'] (Or.inr (Or.inl rfl))
            · rw [hone]
              exact hclose ['"', '"'] (Or.inr (Or.inr rfl))
          · rw [readLongBasic?_quote _ (Bool.eq_false_iff.2 htwo), ih]
            rfl
        · rw [decide_eq_false hraw, Bool.and_false, if_neg Bool.false_ne_true, List.cons_append,
            List.cons_append, readsEscapes_readLongBasic?.read_letter '"' '"' _ rfl, ih]
          rfl
      · rw [escapeFrom, if_neg hquote, List.append_assoc]
        by_cases hbreak : c = '\n'
        · have hfeed : escapeChar true '\n' = ['\n'] := rfl
          rw [hbreak, hfeed, List.singleton_append,
            readLongBasic?_content '\n' _ (by decide) (by decide) (Or.inl rfl), ih]
          rfl
        · rw [readsEscapes_readLongBasic?.read_escapeChar true c _ hquote
            fun h => absurd h hbreak, ih]
          rfl

theorem le_longestRunFrom (mark : Char) (run : Nat) (t : Text) :
    run ≤ longestRunFrom mark run t := by
  induction t generalizing run with
  | nil => exact Nat.le_refl run
  | cons c t ih =>
      rw [longestRunFrom]
      by_cases hmark : c = mark
      · rw [if_pos hmark]
        exact Nat.le_of_succ_le (ih (run + 1))
      · rw [if_neg hmark]
        exact Nat.le_max_left _ _

/-- A text without a run does not hold the mark at all. -/
theorem notMem_of_longestRun (mark : Char) (t : Text) (h : longestRun mark t = 0) : mark ∉ t := by
  induction t with
  | nil => exact List.not_mem_nil
  | cons c t ih =>
      rw [longestRun, longestRunFrom] at h
      by_cases hmark : c = mark
      · rw [if_pos hmark] at h
        have hle := le_longestRunFrom mark (0 + 1) t
        omega
      · rw [if_neg hmark, Nat.zero_max] at h
        exact fun hmem => (List.mem_cons.1 hmem).elim (fun heq => hmark heq.symm) (ih h)

/-- The same for apostrophes, of which no three stand in a row. -/
theorem cases_of_longestRun (run : Nat) (t : Text) (hrun : 1 ≤ run)
    (hlongest : longestRunFrom '\'' run t ≤ 2)
    (h : beginsWithTwo '\'' (t ++ '\'' :: '\'' :: '\'' :: rest) = true) :
    t = [] ∨ t = ['\''] := by
  cases t with
  | nil => exact Or.inl rfl
  | cons c t =>
      rw [List.cons_append, beginsWithTwo_cons_iff] at h
      obtain ⟨rfl, hsecond⟩ := h
      cases t with
      | nil => exact Or.inr rfl
      | cons d more =>
          rw [List.cons_append, List.head?_cons, Option.some.injEq] at hsecond
          -- With a third character the run would be longer than two.
          have hle := le_longestRunFrom '\'' (run + 1 + 1) more
          rw [longestRunFrom, if_pos rfl, longestRunFrom, if_pos hsecond] at hlongest
          omega

/-- A string between triple apostrophes is read back, up to the closing ones. -/
theorem readLongLiteral?_append (run : Nat) (t : Text)
    (hcontent : ∀ c ∈ t, c = '\n' ∨ isPlainChar c = true)
    (hlongest : longestRunFrom '\'' run t ≤ 2) (hrest : rest.head? ≠ some '\'') :
    readLongLiteral? (t ++ '\'' :: '\'' :: '\'' :: rest) = some (t, rest) := by
  have hclose : ∀ more : Text, more = [] ∨ more = ['\''] ∨ more = ['\'', '\''] →
      readLongLiteral? ('\'' :: '\'' :: '\'' :: (more ++ rest)) = some (more, rest) :=
    fun more hmore => congrArg some (closeLong_of_stops rest '\'' more hmore hrest)
  induction t generalizing run with
  | nil => exact hclose [] (Or.inl rfl)
  | cons c t ih =>
      obtain ⟨hc, ht⟩ := List.forall_mem_cons.1 hcontent
      rw [longestRunFrom] at hlongest
      by_cases hapostrophe : c = '\''
      · -- Two apostrophes follow this one only at the end, because no run of the text has three.
        rw [if_pos hapostrophe] at hlongest
        by_cases htwo : beginsWithTwo '\'' (t ++ '\'' :: '\'' :: '\'' :: rest) = true
        · rw [hapostrophe]
          rcases cases_of_longestRun rest (run + 1) t (by omega) hlongest htwo with rfl | rfl
          · exact hclose ['\''] (Or.inr (Or.inl rfl))
          · exact hclose ['\'', '\''] (Or.inr (Or.inr rfl))
        · rw [List.cons_append, readLongLiteral?, if_pos hapostrophe, if_neg htwo,
            ih (run + 1) ht hlongest]
          rfl
      · rw [if_neg hapostrophe] at hlongest
        obtain ⟨hreturn, hkeeps⟩ := keeps_of_content c hc
        rw [List.cons_append, readLongLiteral?, if_neg hapostrophe, if_neg (by simp only [hreturn,
          decide_false, Bool.false_and, Bool.false_eq_true, not_false_eq_true]), if_pos hkeeps,
          ih 0 ht (Nat.le_trans (Nat.le_max_right _ _) hlongest)]
        rfl

end SeveralLines

section Forms

/-- A form that can hold a text. With escapes every text can be held; as it is, one without
    controls and without what would close the string. -/
def StringForm.Holds (t : Text) : StringForm → Prop
  | .basic => True
  | .literal => ∀ c ∈ t, isPlainChar c = true ∧ c ≠ '\''
  | .longBasic => True
  | .longLiteral => (∀ c ∈ t, c = '\n' ∨ isPlainChar c = true) ∧ longestRun '\'' t ≤ 2

/-- The form that is chosen for a text can hold it. -/
theorem holds_formOf (t : Text) : (formOf t).Holds t := by
  have hkept : t.any needsEscape = false → ∀ c ∈ t, c = '\n' ∨ isPlainChar c = true := by
    intro hescapes c hc
    by_cases hbreak : c = '\n'
    · exact Or.inl hbreak
    · exact Or.inr ((isPlainChar_iff c).2
        ⟨Bool.eq_false_iff.2 (List.any_eq_false.1 hescapes c hc), hbreak⟩)
  unfold formOf
  simp only
  -- The forms without escapes are chosen only for texts that need none.
  split_ifs with _ hliteral _ hlong _
  · trivial
  · simp only [Bool.and_eq_true, Bool.not_eq_true', decide_eq_true_eq] at hliteral
    obtain ⟨⟨hescapes, hapostrophes⟩, hbroken⟩ := hliteral
    intro c hc
    have hbreak : c ≠ '\n' := by
      rintro rfl
      exact absurd (List.contains_iff_mem.2 hc) (by rw [hbroken]; exact Bool.false_ne_true)
    refine ⟨(hkept hescapes c hc).resolve_left hbreak, ?_⟩
    rintro rfl
    exact notMem_of_longestRun '\'' t hapostrophes hc
  · trivial
  · simp only [Bool.and_eq_true, Bool.not_eq_true', decide_eq_true_eq] at hlong
    exact ⟨hkept hlong.1, hlong.2⟩
  · trivial
  · trivial

/-- Whether a character may begin a line break. -/
def isBreak (c : Char) : Bool :=
  c = '\n' || c = '\r'

/-- A line break in front of a string on several lines does not count, and there is one
    wherever the string begins with another. -/
theorem dropLineBreak_of_broken (broken : Bool) (t : Text)
    (h : broken = false → t.Stops isBreak) :
    dropLineBreak ((if broken then ['\n'] else []) ++ t) = t := by
  cases broken with
  | true => rfl
  | false =>
      have hstop := h rfl
      rw [if_neg Bool.false_ne_true, List.nil_append]
      unfold dropLineBreak
      split
      · exact absurd (hstop '\n' rfl) (by decide)
      · exact absurd (hstop '\r' rfl) (by decide)
      · rfl

/-- A text with escapes begins with a line break only if it holds one. -/
theorem stops_escapeFrom (t rest : Text) (h : '\n' ∉ t) :
    Text.Stops isBreak (escapeFrom true 0 t ++ '"' :: rest) := by
  intro d hd
  cases t with
  | nil =>
      rw [← Option.some.inj hd]
      decide
  | cons c t =>
      have hnewline : c ≠ '\n' := fun heq => h (heq ▸ List.mem_cons_self)
      rw [escapeFrom] at hd
      by_cases hquote : c = '"'
      · rw [if_pos hquote] at hd
        rw [← Option.some.inj hd]
        decide
      · rw [if_neg hquote] at hd
        -- An escape begins with a backslash, and every other character stands for itself.
        rcases escapeChar_cases true c with ⟨more, heq⟩ | ⟨heq, hreturn⟩
        · rw [heq] at hd
          rw [← Option.some.inj hd]
          decide
        · rw [heq] at hd
          rw [← Option.some.inj hd, isBreak, decide_eq_false hnewline, decide_eq_false hreturn,
            Bool.or_self]

theorem stops_of_content (t rest : Text) (hcontent : ∀ c ∈ t, c = '\n' ∨ isPlainChar c = true)
    (h : '\n' ∉ t) : Text.Stops isBreak (t ++ '\'' :: rest) := by
  intro d hd
  cases t with
  | nil =>
      rw [← Option.some.inj hd]
      decide
  | cons c t =>
      have hnewline : c ≠ '\n' := fun heq => h (heq ▸ List.mem_cons_self)
      have hreturn : c ≠ '\r' := (ne_break_of_isPlainChar c
        ((hcontent c List.mem_cons_self).resolve_left hnewline)).2
      rw [← Option.some.inj hd, isBreak, decide_eq_false hnewline, decide_eq_false hreturn,
        Bool.or_self]

/-- A string on one line does not begin like one on several. -/
theorem readString?_basic (t : Text) (h : beginsWithTwo '"' t = false) :
    readString? ('"' :: t) = readBasic? .plain t := by
  unfold readString?
  -- Of the five forms of a string only this one begins with a single quote.
  split
  · rename_i heq
    rw [(List.cons.inj heq).2, (beginsWithTwo_cons_iff _ _ _).2 ⟨rfl, rfl⟩] at h
    exact absurd h Bool.noConfusion
  · rename_i heq
    rw [(List.cons.inj heq).2]
  · rename_i heq
    exact absurd (List.cons.inj heq).1 (by decide)
  · rename_i heq
    exact absurd (List.cons.inj heq).1 (by decide)
  · rename_i hnone _ _
    exact absurd rfl (hnone t)

theorem readString?_literal (t : Text) (h : beginsWithTwo '\'' t = false) :
    readString? ('\'' :: t) = readLiteral? t := by
  unfold readString?
  split
  · rename_i heq
    exact absurd (List.cons.inj heq).1 (by decide)
  · rename_i heq
    exact absurd (List.cons.inj heq).1 (by decide)
  · rename_i heq
    rw [(List.cons.inj heq).2, (beginsWithTwo_cons_iff _ _ _).2 ⟨rfl, rfl⟩] at h
    exact absurd h Bool.noConfusion
  · rename_i heq
    rw [(List.cons.inj heq).2]
  · rename_i hnone
    exact absurd rfl (hnone t)

/-- A string is read back from a form that can hold it. -/
theorem readString?_formText (form : StringForm) (t rest : Text) (h : form.Holds t)
    (hquote : rest.head? ≠ some '"') (hapostrophe : rest.head? ≠ some '\'') :
    readString? (formText form t ++ rest) = some (t, rest) := by
  have hunbroken : t.contains '\n' = false → '\n' ∉ t := fun hfalse hmem =>
    absurd (List.contains_iff_mem.2 hmem) (by rw [hfalse]; exact Bool.false_ne_true)
  cases form with
  | basic =>
      -- One quote opens the short form: a text that is not empty begins with no bare quote.
      have hone : beginsWithTwo '"' (escapeFrom false 0 t ++ '"' :: rest) = false := by
        rw [Bool.eq_false_iff]
        cases t with
        | nil => exact fun htwo => hquote ((beginsWithTwo_cons_iff _ _ _).1 htwo).2
        | cons c t =>
            obtain ⟨d, more, heq, hne⟩ := exists_cons_of_escapeFrom false 0 c t fun _ => rfl
            rw [heq, List.cons_append]
            exact fun htwo => hne ((beginsWithTwo_cons_iff _ _ _).1 htwo).1
      rw [formText, List.cons_append, List.append_assoc, List.singleton_append,
        readString?_basic _ hone, readBasic?_escapeFrom]
  | literal =>
      have hone : beginsWithTwo '\'' (t ++ '\'' :: rest) = false := by
        rw [Bool.eq_false_iff]
        cases t with
        | nil => exact fun htwo => hapostrophe ((beginsWithTwo_cons_iff _ _ _).1 htwo).2
        | cons c t => exact fun htwo =>
            (h c List.mem_cons_self).2 ((beginsWithTwo_cons_iff _ _ _).1 htwo).1
      rw [formText, List.cons_append, List.append_assoc, List.singleton_append,
        readString?_literal _ hone, readLiteral?_append t rest h]
  | longBasic =>
      have hdrop := dropLineBreak_of_broken (t.contains '\n')
        (escapeFrom true 0 t ++ '"' :: '"' :: '"' :: rest)
        fun hfalse => stops_escapeFrom t _ (hunbroken hfalse)
      have hread := readLongBasic?_escapeFrom rest 0 t hquote
      rw [← hdrop] at hread
      simp only [formText, betweenThree, List.append_assoc]
      exact hread
  | longLiteral =>
      have hdrop := dropLineBreak_of_broken (t.contains '\n')
        (t ++ '\'' :: '\'' :: '\'' :: rest)
        fun hfalse => stops_of_content t _ h.1 (hunbroken hfalse)
      have hread := readLongLiteral?_append rest 0 t h.1 h.2 hapostrophe
      rw [← hdrop] at hread
      simp only [formText, betweenThree, List.append_assoc]
      exact hread

end Forms

end Toml

end FileSignatures
