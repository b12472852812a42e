import FileSignatures.Proofs.Text.Escapes

/-!
# The items of a text with escapes

Decoding remembers at every character what has begun before. Seen from outside there is
a simpler picture: a text is cut into items, each of which stands for one byte. An escape
takes as many digits as it can, up to two hexadecimal or three octal ones, and this is
the only thing that what follows an item has a say in (`Item.EndsBefore`).

There is exactly one way to cut a text like that. Where two texts meet, their bytes are
those of the texts by themselves if the cut goes between them; otherwise an escape takes
digits across the border.

## Main definitions

* `Escape.Digits`: Digits of a radix, so many at most.
* `Escape.Digits.Complete`: What follows does not continue the digits.
* `Escape.Item`: A part of a text that stands for one byte.
* `Escape.Item.EndsBefore`: An item takes all that it can take.
* `Escape.Itemised`: A text is cut into items.
* `hexadecimalSpelling`, `octalSpelling`: Bytes written as escapes.

## Theorems

* `Digits.eq_of_append`: There is one way to take as many digits as possible.
* `Item.eq_of_append`: There is one first item.
* `exists_itemised`: Every text is cut into items.
* `decodeFrom_item`: The byte of the first item comes first.
* `unescape_of_itemised`: A text denotes the bytes of its items.
* `unescape_items`: The one way to cut a text decides what it denotes.
-/

namespace FileSignatures

namespace Escape

/-- Digits of a radix, `most` of them at most. -/
structure Digits (radix most : Nat) where
  chars : Text
  valid : ∀ c ∈ chars, digitValue? radix c ≠ none
  short : chars.length ≤ most

namespace Digits

variable {radix most : Nat}

/-- The number that the digits denote. -/
def value (digits : Digits radix most) : Nat :=
  digits.chars.foldl (fun high c => high * radix + (digitValue? radix c).getD 0) 0

/-- What follows does not continue the digits, or there is no place for more. -/
def Complete (digits : Digits radix most) (rest : Text) : Prop :=
  digits.chars.length = most ∨ ∀ c, rest.head? = some c → digitValue? radix c = none

/-- Every text begins with as many digits as possible, by induction on how many there
    may be. -/
theorem exists_complete (radix most : Nat) (t : Text) :
    ∃ (digits : Digits radix most) (rest : Text),
      t = digits.chars ++ rest ∧ digits.Complete rest := by
  have hnone : ∀ c ∈ ([] : Text), digitValue? radix c ≠ none :=
    fun c hc => absurd hc List.not_mem_nil
  induction most generalizing t with
  | zero => exact ⟨⟨[], hnone, Nat.le_refl 0⟩, t, rfl, Or.inl rfl⟩
  | succ most ih =>
      cases t with
      | nil =>
          exact ⟨⟨[], hnone, Nat.zero_le _⟩, [], rfl,
            Or.inr fun c hc => absurd hc (by simp only [List.head?_nil, reduceCtorEq,
              not_false_eq_true])⟩
      | cons c t =>
          -- The run ends here, or it goes on with one digit less to come.
          by_cases hc : digitValue? radix c = none
          · refine ⟨⟨[], hnone, Nat.zero_le _⟩, c :: t, rfl, Or.inr fun d hd => ?_⟩
            rw [← Option.some.inj hd]
            exact hc
          · obtain ⟨digits, rest, rfl, hcomplete⟩ := ih t
            have hvalid : ∀ d ∈ c :: digits.chars, digitValue? radix d ≠ none := by
              intro d hd
              rcases List.mem_cons.1 hd with rfl | hd
              · exact hc
              · exact digits.valid d hd
            refine ⟨⟨c :: digits.chars, hvalid, Nat.succ_le_succ digits.short⟩, rest, rfl, ?_⟩
            exact hcomplete.imp_left fun hlength => congrArg Nat.succ hlength

/-- Digits that nothing continues are the digits among the first characters. -/
theorem takeWhile_of_complete (digits : Digits radix most) (rest : Text)
    (h : digits.Complete rest) :
    ((digits.chars ++ rest).take most).takeWhile (fun c => (digitValue? radix c).isSome)
      = digits.chars := by
  have hdigits : ∀ c ∈ digits.chars, (digitValue? radix c).isSome = true := fun c hc =>
    Option.isSome_iff_ne_none.2 (digits.valid c hc)
  rw [List.take_append, List.take_of_length_le digits.short,
    List.takeWhile_append_of_pos hdigits]
  rcases h with hfull | hstop
  · rw [hfull, Nat.sub_self, List.take_zero, List.takeWhile_nil, List.append_nil]
  · -- The next character is no digit, whether or not there is place for one.
    cases rest with
    | nil => rw [List.take_nil, List.takeWhile_nil, List.append_nil]
    | cons c rest =>
        cases most - digits.chars.length with
        | zero => rw [List.take_zero, List.takeWhile_nil, List.append_nil]
        | succ n =>
            rw [List.take_succ_cons, List.takeWhile_cons, hstop c rfl, Option.isSome_none,
              if_neg Bool.false_ne_true, List.append_nil]

/-- There is one way to take as many digits as possible. -/
theorem eq_of_append (digits others : Digits radix most) (rest more : Text)
    (htext : digits.chars ++ rest = others.chars ++ more) (h : digits.Complete rest)
    (hothers : others.Complete more) : digits = others := by
  have hchars := takeWhile_of_complete digits rest h
  rw [htext, takeWhile_of_complete others more hothers] at hchars
  cases digits
  cases others
  simp only at hchars
  subst hchars
  rfl

/-- Digits are complete before the beginning of a text if they are before all of it. -/
theorem Complete.of_append {digits : Digits radix most} {s t : Text}
    (h : digits.Complete (s ++ t)) : digits.Complete s := by
  refine h.imp_right fun hstop c hc => hstop c ?_
  rw [List.head?_append, hc, Option.some_or]

end Digits

/-- What an escape with one of these letters stands for. -/
def controls : List (Char × Nat) :=
  [('a', 0x07), ('b', 0x08), ('f', 0x0c), ('n', 0x0a), ('r', 0x0d), ('t', 0x09), ('v', 0x0b)]

/-- A part of a text that stands for one byte. -/
inductive Item where
  /-- A character by itself. -/
  | character (c : Char) (plain : c ≠ '\\')
  /-- A backslash, an `x` and hexadecimal digits. -/
  | hexadecimal (digits : Digits 16 2)
  /-- A backslash and octal digits. -/
  | octal (digits : Digits 8 3) (nonempty : digits.chars ≠ [])
  /-- A backslash and a character that begins nothing else. -/
  | escaped (c : Char) (other : c ≠ 'x' ∧ digitValue? 8 c = none)
  /-- A backslash that nothing follows. -/
  | lone

namespace Item

/-- How an item is written. -/
def text : Item → Text
  | character c _ => [c]
  | hexadecimal digits => '\\' :: 'x' :: digits.chars
  | octal digits _ => '\\' :: digits.chars
  | escaped c _ => ['\\', c]
  | lone => ['\\']

/-- The code point that an item stands for. -/
def code : Item → Nat
  | character c _ => c.toNat
  | hexadecimal digits => if digits.chars = [] then 'x'.toNat else digits.value
  | octal digits _ => digits.value
  | escaped c _ => (controls.lookup c).getD c.toNat
  | lone => '\\'.toNat

/-- Its byte, or the question mark if there is none. -/
def byte (item : Item) : UInt8 :=
  if item.code ≤ 0xff then UInt8.ofNat item.code else UInt8.ofNat '?'.toNat

/-- Before this text an item takes all that it can take. -/
def EndsBefore (rest : Text) : Item → Prop
  | character _ _ => True
  | hexadecimal digits => digits.Complete rest
  | octal digits _ => digits.Complete rest
  | escaped _ _ => True
  | lone => rest = []

theorem byte_eq (item : Item) : item.byte = Text.latin1Byte item.code := by
  unfold byte Text.latin1Byte
  by_cases hcode : item.code ≤ 0xff
  · rw [if_pos hcode, if_pos (by omega)]
  · rw [if_neg hcode, if_neg (by omega)]

theorem EndsBefore.of_append {item : Item} {s t : Text} (h : item.EndsBefore (s ++ t)) :
    item.EndsBefore s := by
  cases item with
  | character => trivial
  | hexadecimal digits => exact Digits.Complete.of_append h
  | octal digits nonempty => exact Digits.Complete.of_append h
  | escaped => trivial
  | lone => exact (List.append_eq_nil_iff.1 h).1

/-- The kinds of items. -/
inductive Kind where
  | character | hexadecimal | octal | escaped | lone
  deriving DecidableEq

/-- The kind of an item. -/
def kind : Item → Kind
  | character _ _ => .character
  | hexadecimal _ => .hexadecimal
  | octal _ _ => .octal
  | escaped _ _ => .escaped
  | lone => .lone

/-- The kind of the item that a text begins with, which its first two characters show. -/
def kindAt : Text → Kind
  | [] => .character
  | [c] => if c = '\\' then .lone else .character
  | c :: d :: _ =>
    if c = '\\' then
      if d = 'x' then .hexadecimal else if digitValue? 8 d = none then .escaped else .octal
    else .character

theorem kindAt_text (item : Item) (rest : Text) (h : item.EndsBefore rest) :
    kindAt (item.text ++ rest) = item.kind := by
  cases item with
  | character c plain =>
      cases rest with
      | nil => exact if_neg plain
      | cons d rest => exact if_neg plain
  | hexadecimal digits => rfl
  | octal digits nonempty =>
      obtain ⟨c, chars, hchars⟩ := List.exists_cons_of_ne_nil nonempty
      have hdigit := digits.valid c (hchars ▸ List.mem_cons_self)
      -- An octal digit is no mark of a hexadecimal escape.
      have hmark : c ≠ 'x' := fun hx => hdigit (hx ▸ by decide)
      rw [text, hchars, List.cons_append, List.cons_append, kindAt, if_pos rfl, if_neg hmark,
        if_neg hdigit]
      rfl
  | escaped c other =>
      rw [text, List.cons_append, List.cons_append, kindAt, if_pos rfl, if_neg other.1,
        if_pos other.2]
      rfl
  | lone =>
      have hrest : rest = [] := h
      rw [hrest]
      rfl

/-- There is one first item. Its kind can be seen from the text, and the digits of an
    escape are as many as possible. -/
theorem eq_of_append (item other : Item) (rest more : Text)
    (htext : item.text ++ rest = other.text ++ more) (h : item.EndsBefore rest)
    (hother : other.EndsBefore more) : item = other := by
  have hkind : item.kind = other.kind := by
    rw [← kindAt_text item rest h, htext, kindAt_text other more hother]
  -- The kinds are the same, so five of the pairs are left.
  cases item with
  | character c plain =>
      cases other with
      | character d _ =>
          rw [text, text, List.singleton_append, List.singleton_append, List.cons.injEq] at htext
          simp only [htext.1]
      | _ => cases hkind
  | hexadecimal digits =>
      cases other with
      | hexadecimal others =>
          simp only [text, List.cons_append, List.cons.injEq, true_and] at htext
          rw [digits.eq_of_append others rest more htext h hother]
      | _ => cases hkind
  | octal digits _ =>
      cases other with
      | octal others _ =>
          simp only [text, List.cons_append, List.cons.injEq, true_and] at htext
          simp only [digits.eq_of_append others rest more htext h hother]
      | _ => cases hkind
  | escaped c _ =>
      cases other with
      | escaped d _ =>
          simp only [text, List.cons_append, List.cons.injEq, true_and] at htext
          simp only [htext.1]
      | _ => cases hkind
  | lone =>
      cases other with
      | lone => rfl
      | _ => cases hkind

/-- A text that is not empty begins with an item. -/
theorem exists_text_append (c : Char) (t : Text) :
    ∃ (item : Item) (rest : Text), c :: t = item.text ++ rest ∧ item.EndsBefore rest
      ∧ rest.length < (c :: t).length := by
  by_cases hplain : c = '\\'
  · subst hplain
    cases t with
    | nil => exact ⟨lone, [], rfl, rfl, Nat.zero_lt_one⟩
    | cons d t =>
        by_cases hmark : d = 'x'
        · obtain ⟨digits, rest, rfl, hcomplete⟩ := Digits.exists_complete 16 2 t
          refine ⟨hexadecimal digits, rest, by rw [hmark]; rfl, hcomplete, ?_⟩
          simp only [List.length_cons, List.length_append]
          omega
        · by_cases hdigit : digitValue? 8 d = none
          · exact ⟨escaped d ⟨hmark, hdigit⟩, t, rfl, trivial, by
              simp only [List.length_cons]; omega⟩
          · obtain ⟨digits, rest, htext, hcomplete⟩ := Digits.exists_complete 8 3 (d :: t)
            have hnonempty : digits.chars ≠ [] := by
              -- Otherwise the digits would end before a digit.
              intro hnil
              rw [hnil, List.nil_append] at htext
              rcases hcomplete with hfull | hstop
              · rw [hnil] at hfull
                exact absurd hfull (by decide)
              · exact hdigit (hstop d (by rw [← htext]; rfl))
            refine ⟨octal digits hnonempty, rest, by rw [htext]; rfl, hcomplete, ?_⟩
            rw [htext, List.length_cons, List.length_append]
            omega
  · exact ⟨character c hplain, t, rfl, trivial, Nat.lt_succ_self _⟩

end Item

/-- A text is cut into items, each of which takes all that it can take. -/
inductive Itemised : List Item → Text → Prop
  | nil : Itemised [] []
  | cons (item : Item) (items : List Item) (rest : Text) (ends : item.EndsBefore rest)
      (h : Itemised items rest) : Itemised (item :: items) (item.text ++ rest)

/-- Every text is cut into items, by induction on its length. -/
theorem exists_itemised (t : Text) : ∃ items, Itemised items t := by
  induction hlength : t.length using Nat.strongRecOn generalizing t with
  | _ n ih =>
      cases t with
      | nil => exact ⟨[], .nil⟩
      | cons c t =>
          obtain ⟨item, rest, htext, hends, hshorter⟩ := Item.exists_text_append c t
          obtain ⟨items, hitems⟩ := ih rest.length (hlength ▸ hshorter) rest rfl
          rw [htext]
          exact ⟨item :: items, .cons item items rest hends hitems⟩

/-- There is one way to do so, by induction on the items. -/
theorem eq_of_itemised (items others : List Item) (t : Text) (h : Itemised items t)
    (hothers : Itemised others t) : items = others := by
  induction h generalizing others with
  | nil =>
      -- No item is empty, so an empty text has no items.
      generalize hempty : ([] : Text) = t at hothers
      cases hothers with
      | nil => rfl
      | cons other others more =>
          have htext := (List.append_eq_nil_iff.1 hempty.symm).1
          cases other <;> exact absurd htext (List.cons_ne_nil _ _)
  | cons item items rest hends _ ih =>
      generalize htext : item.text ++ rest = t at hothers
      cases hothers with
      | nil =>
          have hempty := (List.append_eq_nil_iff.1 htext).1
          cases item <;> exact absurd hempty (List.cons_ne_nil _ _)
      | cons other others more hends' hmore =>
          have hitem := Item.eq_of_append item other rest more htext hends hends'
          subst hitem
          rw [ih others (List.append_cancel_left htext ▸ hmore)]

theorem text_of_itemised (items : List Item) (t : Text) (h : Itemised items t) :
    t = items.flatMap Item.text := by
  induction h with
  | nil => rfl
  | cons item items rest _ _ ih => rw [List.flatMap_cons, ← ih]

/-- A text that is cut at some place is cut there into two texts. -/
theorem itemised_append (items more : List Item) (t : Text) (h : Itemised (items ++ more) t) :
    ∃ s u, t = s ++ u ∧ Itemised items s ∧ Itemised more u := by
  induction items generalizing t with
  | nil => exact ⟨[], t, rfl, .nil, h⟩
  | cons item items ih =>
      cases h with
      | cons _ _ rest hends hrest =>
          obtain ⟨s, u, rfl, hs, hu⟩ := ih rest hrest
          exact ⟨item.text ++ s, u, (List.append_assoc _ _ _).symm,
            .cons item items s hends.of_append hs, hu⟩

/-- An escape that the next character does not continue is complete. -/
theorem decodeFrom_close (pending : Pending) (byte : UInt8) (rest : Text)
    (hfinish : finish pending = [byte])
    (hstep : ∀ c, rest.head? = some c → step pending c = close byte c) :
    decodeFrom pending rest = byte :: decodeFrom .nothing rest := by
  cases rest with
  | nil => exact hfinish
  | cons c rest =>
      rw [decodeFrom, hstep c rfl]
      rfl

/-- A letter that has a meaning stands for a control, any other for itself. -/
theorem namedByte_eq (c : Char) :
    namedByte c = Text.latin1Byte ((controls.lookup c).getD c.toNat) := by
  unfold namedByte
  split
  all_goals first
    | rfl
    | rename_i ha hb ht hn hv hf hr
      have hnone : controls.lookup c = none := by
        simp only [controls, List.lookup_cons, List.lookup_nil, beq_eq_false_iff_ne.2 ha,
          beq_eq_false_iff_ne.2 hb, beq_eq_false_iff_ne.2 hf, beq_eq_false_iff_ne.2 hn,
          beq_eq_false_iff_ne.2 hr, beq_eq_false_iff_ne.2 ht, beq_eq_false_iff_ne.2 hv]
      rw [hnone, Option.getD_none]

/-- Two hexadecimal digits are one byte, and fewer end where no digit follows. Without any
    the mark of the escape is left. -/
theorem decodeFrom_hexadecimal (digits : Digits 16 2) (rest : Text)
    (h : digits.Complete rest) :
    decodeFrom .hexMark (digits.chars ++ rest)
      = Text.latin1Byte (Item.hexadecimal digits).code :: decodeFrom .nothing rest := by
  rcases digits with ⟨chars, hvalid, hshort⟩
  have hvalue : ∀ c ∈ chars, ∃ d, digitValue? 16 c = some d := fun c hc =>
    Option.ne_none_iff_exists'.1 (hvalid c hc)
  -- The digits are none, one or two; fewer than two end only where no digit follows.
  match chars with
  | [] =>
      have hstop := h.resolve_left (by simp only [List.length_nil]; omega)
      exact decodeFrom_close _ _ rest rfl fun c hc => by rw [step, hstop c hc]; rfl
  | [c] =>
      have hstop := h.resolve_left (by simp only [List.length_singleton]; omega)
      obtain ⟨d, hd⟩ := hvalue c (by simp)
      have hcode : (Item.hexadecimal ⟨[c], hvalid, hshort⟩).code = d := by
        simp [Item.code, Digits.value, hd]
      rw [hcode, List.singleton_append, decodeFrom, step, hd]
      exact decodeFrom_close _ _ rest rfl fun c hc => by rw [step, hstop c hc]
  | [c, e] =>
      obtain ⟨d, hd⟩ := hvalue c (by simp)
      obtain ⟨f, hf⟩ := hvalue e (by simp)
      have hcode : (Item.hexadecimal ⟨[c, e], hvalid, hshort⟩).code = d * 16 + f := by
        simp [Item.code, Digits.value, hd, hf]
      rw [hcode]
      simp only [List.cons_append, List.nil_append, decodeFrom, step, hd, hf]
  | c :: e :: g :: more =>
      simp only [List.length_cons] at hshort
      omega

/-- Three octal digits are one byte, and fewer end where no digit follows. -/
theorem decodeFrom_octal (digits : Digits 8 3) (nonempty : digits.chars ≠ []) (rest : Text)
    (h : digits.Complete rest) :
    decodeFrom .backslash (digits.chars ++ rest)
      = Text.latin1Byte digits.value :: decodeFrom .nothing rest := by
  rcases digits with ⟨chars, hvalid, hshort⟩
  have hvalue : ∀ c ∈ chars, c ≠ 'x' ∧ ∃ d, digitValue? 8 c = some d := fun c hc =>
    ⟨fun hx => hvalid c hc (hx ▸ by decide), Option.ne_none_iff_exists'.1 (hvalid c hc)⟩
  -- The digits are one, two or three.
  match chars with
  | [] => exact absurd rfl nonempty
  | [c] =>
      have hstop := h.resolve_left (by simp only [List.length_singleton]; omega)
      obtain ⟨hmark, d, hd⟩ := hvalue c (by simp)
      have hcode : (⟨[c], hvalid, hshort⟩ : Digits 8 3).value = d := by
        simp [Digits.value, hd]
      rw [hcode, List.singleton_append, decodeFrom, step, if_neg hmark, hd]
      exact decodeFrom_close _ _ rest rfl fun c hc => by rw [step, hstop c hc]
  | [c, e] =>
      have hstop := h.resolve_left (by simp only [List.length_cons, List.length_nil]; omega)
      obtain ⟨hmark, d, hd⟩ := hvalue c (by simp)
      obtain ⟨-, f, hf⟩ := hvalue e (by simp)
      have hcode : (⟨[c, e], hvalid, hshort⟩ : Digits 8 3).value = d * 8 + f := by
        simp [Digits.value, hd, hf]
      rw [hcode]
      simp only [List.cons_append, List.nil_append, decodeFrom, step, if_neg hmark, hd, hf,
        if_true]
      exact decodeFrom_close _ _ rest rfl fun c hc => by rw [step, hstop c hc]
  | [c, e, g] =>
      obtain ⟨hmark, d, hd⟩ := hvalue c (by simp)
      obtain ⟨-, f, hf⟩ := hvalue e (by simp)
      obtain ⟨-, k, hk⟩ := hvalue g (by simp)
      have hcode : (⟨[c, e, g], hvalid, hshort⟩ : Digits 8 3).value = (d * 8 + f) * 8 + k := by
        simp [Digits.value, hd, hf, hk]
      rw [hcode]
      simp only [List.cons_append, List.nil_append, decodeFrom, step, if_neg hmark, hd, hf, hk,
        if_true]
      rfl
  | c :: e :: g :: i :: more =>
      simp only [List.length_cons] at hshort
      omega

/-- The byte of the first item comes first. -/
theorem decodeFrom_item (item : Item) (rest : Text) (h : item.EndsBefore rest) :
    decodeFrom .nothing (item.text ++ rest) = item.byte :: decodeFrom .nothing rest := by
  rw [Item.byte_eq]
  -- Escapes with digits end where no digit follows, or where there are enough of them.
  cases item with
  | character c plain => exact decodeFrom_cons c rest plain
  | hexadecimal digits => exact decodeFrom_hexadecimal digits rest h
  | octal digits nonempty => exact decodeFrom_octal digits nonempty rest h
  | escaped c other =>
      simp only [Item.text, List.cons_append, List.nil_append, decodeFrom, step, begin, if_true,
        if_neg other.1, other.2, namedByte_eq, Item.code]
  | lone =>
      have hrest : rest = [] := h
      rw [hrest]
      rfl

end Escape

open Escape

/-- A text denotes the bytes of its items, by induction on them. -/
theorem unescape_of_itemised (items : List Item) (t : Text) (h : Itemised items t) :
    unescape t = items.map Item.byte := by
  unfold unescape
  induction h with
  | nil => rfl
  | cons item items rest hends _ ih => rw [decodeFrom_item item rest hends, ih, List.map_cons]

/-- Bytes written as escapes with two hexadecimal digits. -/
def hexadecimalSpelling (content : List UInt8) : Text :=
  content.flatMap fun b =>
    ['\\', 'x', Nat.digitChar (b.toNat / 16), Nat.digitChar (b.toNat % 16)]

/-- Bytes written as escapes with three octal digits. -/
def octalSpelling (content : List UInt8) : Text :=
  content.flatMap fun b => ['\\', Nat.digitChar (b.toNat / 64),
    Nat.digitChar (b.toNat / 8 % 8), Nat.digitChar (b.toNat % 8)]

theorem spelled_hexadecimalSpelling (content : List UInt8) :
    Spelled content (hexadecimalSpelling content) := by
  induction content with
  | nil => exact .nil
  | cons b content ih =>
      exact .cons b content _ _ (.hexadecimal _ _ (Or.inl rfl) (Or.inl rfl)) ih

theorem spelled_octalSpelling (content : List UInt8) :
    Spelled content (octalSpelling content) := by
  induction content with
  | nil => exact .nil
  | cons b content ih => exact .cons b content _ _ .octal ih

/-- The one way to cut a text into items decides what it denotes: one byte for each item,
    in order. So a text that is cut at a border denotes what its two sides do, one after
    the other. Escapes with all of their digits are cut before whatever follows, and bytes
    that are written like that are read back. -/
theorem unescape_items :
    (∀ t : Text, ∃! items, Itemised items t)
      ∧ (∀ (items : List Item) (t : Text), Itemised items t →
          t = items.flatMap Item.text ∧ unescape t = items.map Item.byte)
      ∧ (∀ (items more : List Item) (s t : Text), Itemised (items ++ more) (s ++ t) →
          items.flatMap Item.text = s → unescape (s ++ t) = unescape s ++ unescape t)
      ∧ (∀ (content : List UInt8) (t : Text), Spelled content t → unescape t = content)
      ∧ ∀ content : List UInt8, unescape (hexadecimalSpelling content) = content
          ∧ unescape (octalSpelling content) = content := by
  refine ⟨fun t => ?_,
    fun items t h => ⟨text_of_itemised items t h, unescape_of_itemised items t h⟩,
    fun items more s t h hborder => ?_, unescape_of_spelled, fun content =>
      ⟨unescape_of_spelled content _ (spelled_hexadecimalSpelling content),
        unescape_of_spelled content _ (spelled_octalSpelling content)⟩⟩
  · obtain ⟨items, hitems⟩ := exists_itemised t
    exact ⟨items, hitems, fun others hothers => eq_of_itemised others items t hothers hitems⟩
  · obtain ⟨first, second, htext, hfirst, hsecond⟩ := itemised_append items more (s ++ t) h
    -- The border of the items is the border of the texts.
    have hs : s = first := hborder.symm.trans (text_of_itemised items first hfirst).symm
    rw [hs] at htext
    have ht : t = second := List.append_cancel_left htext
    rw [unescape_of_itemised _ _ h, List.map_append, hs, ht, unescape_of_itemised _ _ hfirst,
      unescape_of_itemised _ _ hsecond]

/-- Items of all kinds: a hexadecimal escape of one digit, which a letter ends, an octal one
    of three digits before a fourth, a control, and a backslash at the end. -/
def mixedItems : List Item :=
  [.character 'A' (by decide), .hexadecimal ⟨['4'], by simp [digitValue?], by decide⟩,
    .character 'g' (by decide),
    .octal ⟨['1', '0', '1'], by simp [digitValue?], by decide⟩ (by simp),
    .character '8' (by decide), .escaped 'n' (by decide), .hexadecimal ⟨[], by simp, by decide⟩,
    .lone]

theorem itemised_mixedItems : Itemised mixedItems "A\\x4g\\1018\\n\\x\\".toList := by
  have hletter : ∀ c, "g\\1018\\n\\x\\".toList.head? = some c → digitValue? 16 c = none :=
    fun c hc => Option.some.inj hc ▸ by decide
  have hmark : ∀ c, "\\".toList.head? = some c → digitValue? 16 c = none :=
    fun c hc => Option.some.inj hc ▸ by decide
  exact .cons _ _ _ trivial (.cons _ _ _ (Or.inr hletter) (.cons _ _ _ trivial
    (.cons _ _ _ (Or.inl rfl) (.cons _ _ _ trivial (.cons _ _ _ trivial
      (.cons _ _ _ (Or.inr hmark) (.cons _ _ _ rfl .nil)))))))

theorem unescape_items_mixed :
    Itemised mixedItems "A\\x4g\\1018\\n\\x\\".toList
      ∧ unescape "A\\x4g\\1018\\n\\x\\".toList = [0x41, 0x04, 0x67, 0x41, 0x38, 0x0a, 0x78, 0x5c]
      ∧ unescape ("A\\x4".toList ++ "g\\1018\\n\\x\\".toList)
        = unescape "A\\x4".toList ++ unescape "g\\1018\\n\\x\\".toList
      ∧ unescape "\\xFA\\372".toList = [0xfa, 0xfa] := by
  have hspelled : Spelled [0xfa, 0xfa] "\\xFA\\372".toList :=
    .cons 0xfa _ _ _ (.hexadecimal 'F' 'A' (Or.inr rfl) (Or.inr rfl))
      (.cons 0xfa _ _ _ .octal .nil)
  exact ⟨itemised_mixedItems, (unescape_items.2.1 _ _ itemised_mixedItems).2.trans (by decide),
    unescape_items.2.2.1 (mixedItems.take 2) (mixedItems.drop 2) _ _ itemised_mixedItems rfl,
    unescape_items.2.2.2.1 _ _ hspelled⟩

end FileSignatures
