import FileSignatures.Proofs.Template.Pieces
import FileSignatures.Template.Capture

/-!
# Filling templates

A template is filled piece by piece. What holds no percent sign stays as it is,
so a template with a single conversion becomes the text before it, the value, and
the text after it.

The templates that databases use to capture a string have its conversion in the first
bracketed section (`Encloses`), where the string is put in as it is or cut off after some
characters. The count of characters is also the count of bytes that the rule reads
(`captureLength_bounded`), so nothing is ever cut off: a template for one property
becomes its property with the whole string (`fill_of_fieldTemplate`).

## Main definitions

* `boundedConversion`: The conversion of a string that is cut off.
* `Template.Encloses`: What stands around a conversion in the first bracketed section.
* `FieldTemplate`: A template that puts a string into one property.

## Theorems

* `fill_of_segments`: A template with a single conversion, filled.
* `bracketed?_append`: Where the first bracketed section is.
* `captureLength_whole`, `captureLength_bounded`: How much a template captures.
* `fill_whole`, `fill_bounded`: How a string is put in.
* `fill_of_fieldTemplate`: A captured string is put in as a whole.
-/

namespace FileSignatures

/-- A template with a single conversion, filled. -/
theorem fill_of_segments (template before after raw : Text) (spec : Conversion) (letter : Char)
    (value : Value) (h : Template.segments template
      = before.map .literal ++ .conversion spec raw letter :: after.map .literal) :
    Template.fill template value
      = before ++ (Segment.fill value (.conversion spec raw letter) ++ after) := by
  -- Literals stay as they are, on both sides of the conversion.
  have hliteral : ∀ text : Text,
      (text.map Segment.literal).flatMap (Segment.fill value) = text := by
    intro text
    induction text with
    | nil => rfl
    | cons c rest ih => rw [List.map_cons, List.flatMap_cons, ih]; rfl
  unfold Template.fill
  rw [h, List.flatMap_append, List.flatMap_cons, hliteral, hliteral]

/-- The conversion of a string that is cut off after some characters. -/
def boundedConversion (limit : Nat) : Conversion :=
  ⟨false, false, false, false, false, none, some limit⟩

/-- It leaves at most as many of them. -/
theorem Conversion.convert?_boundedConversion (limit : Nat) (content : List UInt8) :
    (boundedConversion limit).convert? 's' (.bytes content)
      = some ((Value.display (.bytes content)).take limit) := by
  unfold Conversion.convert?
  simp only [boundedConversion]
  rw [Conversion.pad_without_width _ _ _ _ rfl, List.nil_append]

theorem fill_boundedConversion (raw : Text) (limit : Nat) (content : List UInt8) :
    Segment.fill (.bytes content) (.conversion (boundedConversion limit) raw 's')
      = (Value.display (.bytes content)).take limit := by
  simp only [Segment.fill, Conversion.convert?_boundedConversion, Option.getD_some]

namespace Template

/-- The conversion of a string amid other text. -/
theorem fill_stringForm_amid (before after : Text) (hbefore : '%' ∉ before) (hafter : '%' ∉ after)
    (precision : Option Text)
    (h : ∀ digits, precision = some digits → ∀ c ∈ digits, isDigit c = true) (v : Value) :
    fill (before ++ ((stringForm precision h).text ++ ['s'] ++ after)) v
      = before ++ (((stringForm precision h).spec.convert? 's' v).getD [] ++ after) := by
  have hletter : 's' ∈ conversionLetters := by decide
  have hwidth : (stringForm precision h).width.head? ≠ some '0' := by
    simp only [stringForm, List.head?_nil, ne_eq, reduceCtorEq, not_false_eq_true]
  rw [fill_amid before after _ 's' v hbefore hafter hletter hwidth,
    fill_conversion _ 's' v hletter hwidth]

/-- Without a precision it gives the string. -/
theorem convert?_stringForm_none (h) (content : List UInt8) :
    (stringForm none h).spec.convert? 's' (.bytes content)
      = some (Value.display (.bytes content)) := by
  show some (Conversion.pad _ false [] (Value.display (.bytes content))) = _
  rw [Conversion.pad_without_width _ _ _ _ rfl, List.nil_append]

/-- With a precision it gives as many of its characters. -/
theorem convert?_stringForm_some (digits : Text) (h) (limit : Nat)
    (hlimit : count? digits = some limit) (content : List UInt8) :
    (stringForm (some digits) h).spec.convert? 's' (.bytes content)
      = some ((Value.display (.bytes content)).take limit) := by
  have hspec : (stringForm (some digits) h).spec = boundedConversion limit := by
    have hwidth : count? [] = none := rfl
    simp only [Form.spec, stringForm, conversionOf, boundedConversion, hwidth, Option.map_some,
      hlimit, Option.getD_some, List.contains_nil]
  rw [hspec, Conversion.convert?_boundedConversion]

/-- A place where a pattern begins with a character of its own is not missed, and
    there is none before the first such character. -/
theorem after?_append (first : Char) (pattern t rest : Text) (h : first ∉ t) :
    Text.after? (first :: pattern) (t ++ rest) = Text.after? (first :: pattern) rest := by
  induction t with
  | nil => rfl
  | cons c t ih =>
      have hc : (first == c) = false := by
        rw [beq_eq_false_iff_ne]
        exact fun heq => h (heq ▸ List.mem_cons_self)
      rw [List.cons_append, Text.after?, List.isPrefixOf, hc, Bool.false_and,
        if_neg Bool.false_ne_true, ih (fun hmem => h (List.mem_cons_of_mem _ hmem))]

/-- What stands around a conversion in the first bracketed section of a template without
    other conversions: the section begins before it and ends behind it. -/
structure Encloses (before after : Text) : Prop where
  opened : '[' ∈ before
  unclosed : ']' ∉ before
  closed : ']' ∈ after
  plain_before : '%' ∉ before
  plain_after : '%' ∉ after

/-- The first bracketed section ends at the first closing bracket. -/
theorem bracketed?_append (front body rest : Text) (hopen : '[' ∉ front) (hclose : ']' ∉ front)
    (hbody : ']' ∉ body) :
    bracketed? (front ++ '[' :: (body ++ ']' :: rest)) = some ('[' :: (body ++ [']'])) := by
  have hfront : ∀ c ∈ front, decide (c ≠ '[') = true := fun c hc =>
    decide_eq_true fun heq => hopen (heq ▸ hc)
  have hinner : ∀ c ∈ '[' :: body, decide (c ≠ ']') = true := by
    intro c hc
    refine decide_eq_true fun heq => ?_
    rcases List.mem_cons.1 (heq ▸ hc) with hbracket | hmem
    · exact absurd hbracket (by decide)
    · exact hbody hmem
  have hend : List.contains ('[' :: (body ++ ']' :: rest)) ']' = true := by
    rw [List.contains_iff_mem]
    exact List.mem_cons_of_mem _ (List.mem_append_right _ List.mem_cons_self)
  -- A closing bracket before the first opening one would mean that there is no section.
  have hstart : front.contains ']' = false := by
    rw [Bool.eq_false_iff, ne_eq, List.contains_iff_mem]
    exact hclose
  have hstops : Text.Stops (fun c => decide (c ≠ '[')) ('[' :: (body ++ ']' :: rest)) :=
    fun c hc => Option.some.inj hc ▸ by decide
  have hsection := takeWhile_append_of_stops (fun c => decide (c ≠ ']')) ('[' :: body)
    (']' :: rest) hinner fun c hc => Option.some.inj hc ▸ by decide
  rw [List.cons_append] at hsection
  unfold bracketed?
  rw [takeWhile_append_of_stops _ front _ hfront hstops,
    dropWhile_append_of_stops _ front _ hfront hstops, hstart, if_neg Bool.false_ne_true]
  simp only [hend, if_true, hsection, List.cons_append]

section Enclosed

variable (before after : Text) (h : Encloses before after)

include h

/-- A conversion without brackets is in the section, and it has the only percent sign
    there. -/
theorem exists_section : ∃ inner outer : Text, '%' ∉ '[' :: inner ∧ '%' ∉ outer ++ [']']
    ∧ ∀ body : Text, ']' ∉ body → bracketed? (before ++ (body ++ after))
      = some (('[' :: inner) ++ (body ++ (outer ++ [']']))) := by
  obtain ⟨front, inner, rfl, hfront⟩ := List.eq_append_cons_of_mem h.opened
  obtain ⟨outer, rest, rfl, houter⟩ := List.eq_append_cons_of_mem h.closed
  refine ⟨inner, outer, fun hmem => h.plain_before (List.mem_append_right _ hmem), fun hmem => ?_,
    fun body hbody => ?_⟩
  · rcases List.mem_append.1 hmem with hmem | hmem
    · exact h.plain_after (List.mem_append_left _ hmem)
    · exact absurd (List.mem_singleton.1 hmem) (by decide)
  · -- The bracket that closes the section is the first one behind the conversion.
    have hinner : ']' ∉ inner ++ (body ++ outer) := by
      intro hmem
      rcases List.mem_append.1 hmem with hmem | hmem
      · exact h.unclosed (List.mem_append_right _ (List.mem_cons_of_mem _ hmem))
      · rcases List.mem_append.1 hmem with hmem | hmem
        · exact hbody hmem
        · exact houter hmem
    have hsection := bracketed?_append front _ rest hfront
      (fun hmem => h.unclosed (List.mem_append_left _ hmem)) hinner
    simp only [List.append_assoc, List.cons_append] at hsection ⊢
    exact hsection

/-- A string that is not cut off is captured by default. -/
theorem captureLength_whole :
    captureLength (before ++ (['%', 's'] ++ after)) = .ok defaultCapture := by
  obtain ⟨inner, outer, hinner, -, hsection⟩ := exists_section before after h
  have hfound : Text.after? ['%', 's'] (['%', 's'] ++ (outer ++ [']'])) = some (outer ++ [']']) :=
    rfl
  unfold captureLength
  rw [hsection _ (by decide)]
  simp only [after?_append '%' ['s'] _ _ hinner, hfound, Option.isSome_some, if_true]

/-- The digits of a precision say how much is captured. -/
theorem captureLength_bounded (digits : Text) (hdigits : ∀ c ∈ digits, isDigit c = true) :
    captureLength (before ++ ('%' :: '.' :: (digits ++ ['s']) ++ after))
      = let description := before ++ ('%' :: '.' :: (digits ++ ['s']) ++ after)
        if digits = [] then .error (.notString description)
        else match count? digits with
          | some limit => .ok limit
          | none => .error (.outOfRange description) := by
  obtain ⟨inner, outer, hinner, houter, hsection⟩ := exists_section before after h
  have hplain : ∀ c : Char, isDigit c = false → c ≠ '.' → c ≠ 's' →
      c ∉ '.' :: (digits ++ ['s']) := by
    intro c hdigit hpoint hletter hmem
    simp only [List.mem_cons, List.mem_append, List.not_mem_nil, or_false] at hmem
    rcases hmem with heq | hmem | heq
    · exact hpoint heq
    · exact absurd ((hdigits c hmem).symm.trans hdigit) (by decide)
    · exact hletter heq
  have hbracket : ']' ∉ '%' :: '.' :: (digits ++ ['s']) := by
    intro hmem
    rcases List.mem_cons.1 hmem with heq | hmem
    · exact absurd heq (by decide)
    · exact hplain ']' (by decide) (by decide) (by decide) hmem
  -- The letter does not follow the percent sign directly, and there is no other sign.
  have hwhole : Text.after? ['%', 's'] ('%' :: '.' :: (digits ++ ['s']) ++ (outer ++ [']']))
      = none := by
    have hskip : Text.after? ['%', 's'] ('%' :: '.' :: (digits ++ ['s']) ++ (outer ++ [']']))
        = Text.after? ['%', 's'] ('.' :: (digits ++ ['s']) ++ (outer ++ [']'])) := rfl
    have hrest : '%' ∉ '.' :: (digits ++ ['s']) ++ (outer ++ [']']) := by
      intro hmem
      rcases List.mem_append.1 hmem with hmem | hmem
      · exact hplain '%' (by decide) (by decide) (by decide) hmem
      · exact houter hmem
    have hend := after?_append '%' ['s'] _ [] hrest
    rw [List.append_nil] at hend
    rw [hskip, hend]
    rfl
  have hpoint : Text.after? ['%', '.'] ('%' :: '.' :: (digits ++ ['s']) ++ (outer ++ [']']))
      = some (digits ++ 's' :: (outer ++ [']'])) := by
    rw [List.append_cons digits 's' (outer ++ [']'])]
    rfl
  have hstops : Text.Stops isDigit ('s' :: (outer ++ [']'])) :=
    fun c hc => Option.some.inj hc ▸ by decide
  unfold captureLength
  rw [hsection _ hbracket]
  simp only [after?_append '%' ['s'] _ _ hinner, after?_append '%' ['.'] _ _ hinner, hwhole, hpoint,
    Option.isSome_none, Bool.false_eq_true, if_false,
    takeWhile_append_of_stops isDigit digits _ hdigits hstops,
    dropWhile_append_of_stops isDigit digits _ hdigits hstops, List.head?_cons, ne_eq,
    not_true_eq_false, decide_false, Bool.or_false, List.isEmpty_iff]
  rfl

/-- A capture is as long as its template says. -/
theorem count?_of_captureLength (digits : Text) (hdigits : ∀ c ∈ digits, isDigit c = true)
    (limit : Nat) (hcapture : captureLength
      (before ++ ('%' :: '.' :: (digits ++ ['s']) ++ after)) = .ok limit) :
    count? digits = some limit := by
  rw [captureLength_bounded before after h digits hdigits] at hcapture
  split at hcapture
  · exact absurd hcapture (by simp only [reduceCtorEq, not_false_eq_true])
  · split at hcapture
    · rename_i found hfound
      rw [Except.ok.injEq] at hcapture
      rw [hfound, hcapture]
    · exact absurd hcapture (by simp only [reduceCtorEq, not_false_eq_true])

omit h in
/-- A string is put in between what stands around its conversion. -/
theorem fill_whole (hbefore : '%' ∉ before) (hafter : '%' ∉ after) (content : List UInt8) :
    fill (before ++ (['%', 's'] ++ after)) (.bytes content)
      = before ++ (Value.display (.bytes content) ++ after) := by
  have hfill := fill_stringForm_amid before after hbefore hafter none
    (fun _ hnone => absurd hnone (by simp only [reduceCtorEq, not_false_eq_true])) (.bytes content)
  rw [convert?_stringForm_none, Option.getD_some] at hfill
  exact hfill

omit h in
/-- With a precision, so are as many of its characters. -/
theorem fill_bounded (hbefore : '%' ∉ before) (hafter : '%' ∉ after) (digits : Text)
    (hdigits : ∀ c ∈ digits, isDigit c = true) (limit : Nat) (hlimit : count? digits = some limit)
    (content : List UInt8) :
    fill (before ++ ('%' :: '.' :: (digits ++ ['s']) ++ after)) (.bytes content)
      = before ++ ((Value.display (.bytes content)).take limit ++ after) := by
  have hfill := fill_stringForm_amid before after hbefore hafter (some digits)
    (fun _ heq => Option.some.inj heq ▸ hdigits) (.bytes content)
  have htext : (stringForm (some digits) fun _ heq => Option.some.inj heq ▸ hdigits).text ++ ['s']
      = '%' :: '.' :: (digits ++ ['s']) := by
    simp only [Form.text, Form.stages, Form.point, stringForm, List.nil_append, List.append_nil,
      List.cons_append]
  rw [htext, convert?_stringForm_some digits _ limit hlimit, Option.getD_some] at hfill
  exact hfill

end Enclosed

end Template

/-- A template that puts a string into the property with a key, as it is or cut off
    after some characters. -/
inductive FieldTemplate (key : Text) : Text → Prop
  | whole : FieldTemplate key ('[' :: key ++ '=' :: ['%', 's', ']'])
  | bounded (digits : Text) (h : ∀ c ∈ digits, isDigit c = true) :
      FieldTemplate key ('[' :: key ++ '=' :: '%' :: '.' :: (digits ++ ['s', ']']))

/-- A plain key and brackets stand around the conversion. -/
theorem encloses_field (key : Text) (hkey : ∀ c ∈ key, c ∉ ['[', ']', '%']) :
    Template.Encloses ('[' :: (key ++ ['='])) [']'] := by
  -- The key holds neither, and the two characters around it are others.
  have hplain : ∀ c ∈ [']', '%'], c ∉ '[' :: (key ++ ['=']) := by
    intro c hc hmem
    simp only [List.mem_cons, List.mem_append, List.not_mem_nil, or_false] at hc hmem
    rcases hmem with rfl | hmem | rfl
    · exact absurd hc (by decide)
    · refine hkey c hmem ?_
      simp only [List.mem_cons, List.not_mem_nil, or_false]
      exact Or.inr hc
    · exact absurd hc (by decide)
  exact ⟨List.mem_cons_self, hplain ']' (by decide), List.mem_cons_self, hplain '%' (by decide),
    by decide⟩

/-- A captured string is put in as a whole: if it is cut off at all, then after as
    many characters as bytes have been read at most. -/
theorem fill_of_fieldTemplate (key template : Text) (content : List UInt8) (limit : Nat)
    (hkey : ∀ c ∈ key, c ∉ ['[', ']', '%']) (htemplate : FieldTemplate key template)
    (hcapture : Template.captureLength template = .ok limit)
    (hlength : (Value.display (.bytes content)).length ≤ limit) :
    Template.fill template (.bytes content)
      = '[' :: (key ++ '=' :: Value.display (.bytes content) ++ [']']) := by
  have henclosed := encloses_field key hkey
  have hfilled : ('[' :: (key ++ ['='])) ++ (Value.display (.bytes content) ++ [']'])
      = '[' :: (key ++ '=' :: Value.display (.bytes content) ++ [']']) := by
    simp only [List.cons_append, List.append_assoc, List.nil_append]
  -- With a limit of its own the template captures no more than it shows.
  cases htemplate with
  | whole =>
      have htext : '[' :: key ++ '=' :: ['%', 's', ']']
          = ('[' :: (key ++ ['='])) ++ (['%', 's'] ++ [']']) := by
        simp only [List.cons_append, List.append_assoc, List.nil_append]
      rw [htext, Template.fill_whole _ _ henclosed.plain_before henclosed.plain_after, hfilled]
  | bounded digits h =>
      have htext : '[' :: key ++ '=' :: '%' :: '.' :: (digits ++ ['s', ']'])
          = ('[' :: (key ++ ['='])) ++ ('%' :: '.' :: (digits ++ ['s']) ++ [']']) := by
        simp only [List.cons_append, List.append_assoc, List.nil_append]
      rw [htext] at hcapture ⊢
      have hlimit := Template.count?_of_captureLength _ _ henclosed digits h limit hcapture
      rw [Template.fill_bounded _ _ henclosed.plain_before henclosed.plain_after digits h limit
        hlimit, List.take_of_length_le hlength, hfilled]

end FileSignatures
