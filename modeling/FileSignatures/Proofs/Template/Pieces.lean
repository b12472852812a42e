import FileSignatures.Template.Basic
import FileSignatures.Proofs.Text.Splitting
import Mathlib.Data.List.Basic

/-!
# The pieces of a template

A template is scanned from left to right, and a conversion in it runs through five
stages: flags, width, point and precision, length letters, and the final character. This
module says what the scan amounts to. A template is cut into pieces, each stage of a
conversion takes all that it can take (`Form.Complete`), and this decides where a
conversion ends. Only a conversion that the end of the template cuts off depends on what
follows, namely nothing.

There is exactly one way to cut a template like that, and filling it in fills in each
piece by itself. A piece that is no conversion after all, because of its final character
or because it has none, stays as it is written.

## Main definitions

* `Template.Form`: What stands before the final character of a conversion.
* `Template.Form.Complete`: Each stage has taken all that it can take.
* `Template.Piece`, `Template.Cut`: The pieces of a template.
* `Template.Piece.output`: What a piece becomes.
* `Template.stringForm`: The conversion of a string.
* `Template.doubled`: A text with each percent sign written twice.

## Theorems

* `scanConversion_of_complete`: A conversion is read up to its final character.
* `exists_form_append`: Every text begins with the stages of a conversion.
* `segments_of_cut`: The segments of a template are its pieces.
* `Form.complete_of_letter`: Conversions with one of the known final characters.
* `exists_cut`, `eq_of_cut`: There is one way to cut a template.
* `convert?_isSome_iff`: The final characters of conversions.
* `fill_piece_append`, `fill_plain_append`: How a template begins decides how its text does.
* `fill_amid`: A conversion amid other text.
* `fill_doubled`: Percent signs that are written twice.
* `fill_of_pieces`: Templates are filled in piece by piece.
-/

namespace FileSignatures

/-- Without a width nothing is filled up. -/
theorem Conversion.pad_without_width (spec : Conversion) (numeric : Bool) (lead body : Text)
    (h : spec.width = none) : spec.pad numeric lead body = lead ++ body := by
  unfold pad
  rw [h, Option.getD_none, Nat.zero_sub]
  simp only [List.replicate_zero, List.append_nil, List.nil_append, ite_self]

namespace Template

theorem segmentsAfter_append (skipped rest : Text) :
    segmentsAfter skipped.length (skipped ++ rest) = segments rest := by
  induction skipped with
  | nil => rfl
  | cons c skipped ih => exact ih

/-- A segment is followed by the segments of what comes after its source. -/
theorem segments_cons (c : Char) (more rest : Text) (segment : Segment)
    (hfirst : firstSegment c (more ++ rest) = segment)
    (hsource : segment.source.length = more.length + 1) :
    segments (c :: (more ++ rest)) = segment :: segments rest := by
  unfold segments
  rw [segmentsAfter]
  simp only [hfirst, hsource, Nat.add_sub_cancel]
  rw [segmentsAfter_append]
  rfl

/-- What stands before the final character of a conversion, stage by stage. -/
structure Form where
  flags : Text
  width : Text
  precision : Option Text
  lengths : Text
  isFlag_of_mem : ∀ c ∈ flags, isFlag c = true
  isDigit_of_mem_width : ∀ c ∈ width, isDigit c = true
  isDigit_of_mem_precision : ∀ digits, precision = some digits → ∀ c ∈ digits, isDigit c = true
  isLengthLetter_of_mem : ∀ c ∈ lengths, isLengthLetter c = true

namespace Form

/-- The point and the digits after it, if there is a precision. -/
def point (form : Form) : Text :=
  match form.precision with
  | some digits => '.' :: digits
  | none => []

/-- All stages, without the percent sign before them. -/
def stages (form : Form) : Text :=
  form.flags ++ form.width ++ form.point ++ form.lengths

/-- A conversion up to its final character. -/
def text (form : Form) : Text :=
  '%' :: form.stages

/-- What the stages say. -/
def spec (form : Form) : Conversion :=
  conversionOf form.flags form.width form.precision

theorem stages_append (form : Form) (rest : Text) : form.stages ++ rest
    = form.flags ++ (form.width ++ (form.point ++ form.lengths ++ rest)) := by
  simp only [stages, List.append_assoc]

/-- Before this text each stage has taken all that it can take. -/
structure Complete (form : Form) (rest : Text) : Prop where
  flags : Text.Stops isFlag (form.width ++ (form.point ++ form.lengths ++ rest))
  width : Text.Stops isDigit (form.point ++ form.lengths ++ rest)
  precision : form.precision ≠ none → Text.Stops isDigit (form.lengths ++ rest)
  point : form.precision = none → (form.lengths ++ rest).head? ≠ some '.'
  lengths : Text.Stops isLengthLetter rest

/-- Only the next character matters. -/
theorem Complete.of_head? {form : Form} {rest more : Text} (h : form.Complete rest)
    (hhead : rest.head? = more.head?) : form.Complete more := by
  -- Every stage looks at the first character behind it, which is this one if all later stages are
  -- empty.
  have hsame : ∀ s : Text, (s ++ rest).head? = (s ++ more).head? := by
    intro s
    rw [List.head?_append, List.head?_append, hhead]
  have hwidth := hsame (form.width ++ (form.point ++ form.lengths))
  simp only [List.append_assoc] at hwidth
  refine ⟨fun c hc => h.flags c ?_, fun c hc => h.width c ?_, fun hsome c hc =>
    h.precision hsome c ?_, fun hnone => ?_, fun c hc => h.lengths c (hhead.trans hc)⟩
  · simp only [List.append_assoc] at hc ⊢
    rw [hwidth, hc]
  · rw [hsame, hc]
  · rw [hsame, hc]
  · rw [← hsame]
    exact h.point hnone

/-- The segment that the stages are read as, given what follows them. -/
def segmentBefore (form : Form) : Text → Segment
  | letter :: _ => .conversion form.spec form.text letter
  | [] => .unfinished form.text

/-- The precision is found after the width. -/
theorem scanPrecision_of_complete (form : Form) (rest : Text) (h : form.Complete rest) :
    scanPrecision (form.point ++ form.lengths ++ rest)
      = (form.precision, form.lengths ++ rest) := by
  rw [List.append_assoc]
  unfold point
  -- Without a precision no point follows; with one, its digits end before the rest.
  cases hprecision : form.precision with
  | none =>
      simp only [List.nil_append]
      unfold scanPrecision
      split
      · rename_i heq
        exact absurd (by rw [heq]; rfl) (h.point hprecision)
      · rfl
  | some digits =>
      have hdigits := form.isDigit_of_mem_precision digits hprecision
      have hstop := h.precision (by rw [hprecision]; simp only [ne_eq, reduceCtorEq,
        not_false_eq_true])
      rw [List.cons_append, scanPrecision, takeWhile_append_of_stops isDigit digits _ hdigits hstop,
        dropWhile_append_of_stops isDigit digits _ hdigits hstop]

/-- A conversion is read up to its final character, or to the end of the template. -/
theorem scanConversion_of_complete (form : Form) (rest : Text) (h : form.Complete rest) :
    scanConversion (form.stages ++ rest) = form.segmentBefore rest := by
  rw [stages_append]
  unfold scanConversion
  simp only [takeWhile_append_of_stops isFlag _ _ form.isFlag_of_mem h.flags,
    dropWhile_append_of_stops isFlag _ _ form.isFlag_of_mem h.flags,
    takeWhile_append_of_stops isDigit _ _ form.isDigit_of_mem_width h.width,
    dropWhile_append_of_stops isDigit _ _ form.isDigit_of_mem_width h.width,
    scanPrecision_of_complete form rest h,
    takeWhile_append_of_stops isLengthLetter _ _ form.isLengthLetter_of_mem h.lengths,
    dropWhile_append_of_stops isLengthLetter _ _ form.isLengthLetter_of_mem h.lengths]
  cases rest <;> rfl

/-- The stages of a conversion can be told from the text, one after the other. -/
theorem eq_of_append (form other : Form) (rest more : Text)
    (htext : form.stages ++ rest = other.stages ++ more) (h : form.Complete rest)
    (hother : other.Complete more) : form = other := by
  rw [stages_append, stages_append] at htext
  -- Each stage is the longest run of its characters, so the two begin with the same.
  have hflags : form.flags = other.flags := by
    rw [← takeWhile_append_of_stops isFlag _ _ form.isFlag_of_mem h.flags, htext,
      takeWhile_append_of_stops isFlag _ _ other.isFlag_of_mem hother.flags]
  rw [hflags, List.append_cancel_left_eq] at htext
  have hwidth : form.width = other.width := by
    rw [← takeWhile_append_of_stops isDigit _ _ form.isDigit_of_mem_width h.width, htext,
      takeWhile_append_of_stops isDigit _ _ other.isDigit_of_mem_width hother.width]
  rw [hwidth, List.append_cancel_left_eq] at htext
  have hscan := scanPrecision_of_complete form rest h
  rw [htext, scanPrecision_of_complete other more hother, Prod.mk.injEq] at hscan
  have hlengths : form.lengths = other.lengths := by
    rw [← takeWhile_append_of_stops isLengthLetter _ _ form.isLengthLetter_of_mem h.lengths,
      ← hscan.2,
      takeWhile_append_of_stops isLengthLetter _ _ other.isLengthLetter_of_mem hother.lengths]
  cases form
  cases other
  simp only at hflags hwidth hlengths hscan
  simp only [hflags, hwidth, hlengths, hscan.1]

/-- No stage takes a percent sign. -/
theorem percent_notMem_stages (form : Form) : '%' ∉ form.stages := by
  intro hmem
  simp only [stages, List.mem_append, or_assoc] at hmem
  rcases hmem with hmem | hmem | hmem | hmem
  · exact absurd (form.isFlag_of_mem _ hmem) (by decide)
  · exact absurd (form.isDigit_of_mem_width _ hmem) (by decide)
  · unfold point at hmem
    split at hmem
    · rename_i digits hprecision
      rcases List.mem_cons.1 hmem with heq | hmem
      · exact absurd heq (by decide)
      · exact absurd (form.isDigit_of_mem_precision digits hprecision _ hmem) (by decide)
    · exact absurd hmem List.not_mem_nil
  · exact absurd (form.isLengthLetter_of_mem _ hmem) (by decide)

theorem head?_stages_append (form : Form) (rest : Text)
    (h : form.stages = [] → rest.head? ≠ some '%') :
    (form.stages ++ rest).head? ≠ some '%' := by
  have hnone := form.percent_notMem_stages
  cases hstages : form.stages with
  | nil => exact h hstages
  | cons c more =>
      rw [hstages] at hnone
      intro hhead
      exact hnone (Option.some.inj hhead ▸ List.mem_cons_self)

end Form

/-- Digits after a point are a precision. -/
theorem exists_precision_append (t : Text) :
    ∃ (precision : Option Text) (rest : Text),
      t = (match precision with | some digits => '.' :: digits | none => []) ++ rest
        ∧ (∀ digits, precision = some digits →
          (∀ c ∈ digits, isDigit c = true) ∧ Text.Stops isDigit rest)
        ∧ (precision = none → rest.head? ≠ some '.') := by
  by_cases hpoint : t.head? = some '.'
  · obtain ⟨rest, rfl⟩ := List.head?_eq_some_iff.1 hpoint
    -- The digits behind the point are a precision, none of them if there are none.
    refine ⟨some (rest.takeWhile isDigit), rest.dropWhile isDigit, ?_, ?_, fun hnone =>
      absurd hnone (by simp only [reduceCtorEq, not_false_eq_true])⟩
    · simp only [List.cons_append, List.takeWhile_append_dropWhile]
    · rintro digits heq
      rw [← Option.some.inj heq]
      exact ⟨fun c hc => List.mem_takeWhile_imp hc, Text.stops_dropWhile isDigit rest⟩
  · exact ⟨none, t, rfl, fun digits heq => absurd heq (by simp only [reduceCtorEq,
      not_false_eq_true]), fun _ => hpoint⟩

/-- Every text begins with the stages of a conversion, some of which may be empty. -/
theorem exists_form_append (t : Text) :
    ∃ (form : Form) (rest : Text), t = form.stages ++ rest ∧ form.Complete rest := by
  obtain ⟨precision, afterPrecision, hprecision, hdigits, hpoint⟩ :=
    exists_precision_append ((t.dropWhile isFlag).dropWhile isDigit)
  -- Whatever stands between the precision and the final character are length letters.
  have hlengths : afterPrecision.takeWhile isLengthLetter ++ afterPrecision.dropWhile isLengthLetter
      = afterPrecision := List.takeWhile_append_dropWhile
  let form : Form := ⟨t.takeWhile isFlag, (t.dropWhile isFlag).takeWhile isDigit, precision,
    afterPrecision.takeWhile isLengthLetter, fun c hc => List.mem_takeWhile_imp hc,
    fun c hc => List.mem_takeWhile_imp hc, fun digits heq => (hdigits digits heq).1,
    fun c hc => List.mem_takeWhile_imp hc⟩
  have hrest : form.point ++ form.lengths ++ afterPrecision.dropWhile isLengthLetter
      = (t.dropWhile isFlag).dropWhile isDigit := by
    rw [List.append_assoc, hlengths, hprecision]
    rfl
  have hwidth : form.width ++ (t.dropWhile isFlag).dropWhile isDigit = t.dropWhile isFlag :=
    List.takeWhile_append_dropWhile
  refine ⟨form, afterPrecision.dropWhile isLengthLetter, ?_, ⟨?_, ?_, fun hsome => ?_,
    fun hnone => ?_, Text.stops_dropWhile _ _⟩⟩
  · rw [Form.stages_append, hrest, hwidth]
    exact List.takeWhile_append_dropWhile.symm
  · rw [hrest, hwidth]
    exact Text.stops_dropWhile isFlag t
  · rw [hrest]
    exact Text.stops_dropWhile isDigit _
  · obtain ⟨digits, heq⟩ := Option.ne_none_iff_exists'.1 hsome
    rw [hlengths]
    exact (hdigits digits heq).2
  · rw [hlengths]
    exact hpoint hnone

/-- The final characters of conversions. -/
def conversionLetters : List Char :=
  ['s', 'c', 'd', 'i', 'u', 'x', 'X', 'o', 'f', 'F']

theorem stops_of_mem_conversionLetters (letter : Char) (h : letter ∈ conversionLetters) :
    isFlag letter = false ∧ isDigit letter = false ∧ letter ≠ '.'
      ∧ isLengthLetter letter = false := by
  simp only [conversionLetters, List.mem_cons, List.not_mem_nil, or_false] at h
  rcases h with rfl | rfl | rfl | rfl | rfl | rfl | rfl | rfl | rfl | rfl <;> decide

/-- Length letters belong to no other stage. -/
theorem stops_of_isLengthLetter (c : Char) (h : isLengthLetter c = true) :
    isFlag c = false ∧ isDigit c = false ∧ c ≠ '.' := by
  simp only [isLengthLetter, Bool.or_eq_true, decide_eq_true_eq] at h
  rcases h with (((((rfl | rfl) | rfl) | rfl) | rfl) | rfl) | rfl <;> decide

/-- A zero is the one digit that is a flag. -/
theorem isFlag_of_isDigit (c : Char) (h : isDigit c = true) (hc : c ≠ '0') : isFlag c = false := by
  rw [Bool.eq_false_iff]
  intro hflag
  simp only [isFlag, Bool.or_eq_true, decide_eq_true_eq] at hflag
  rcases hflag with (((rfl | rfl) | rfl) | rfl) | rfl
  · exact absurd h (by decide)
  · exact absurd h (by decide)
  · exact absurd h (by decide)
  · exact absurd h (by decide)
  · exact hc rfl

/-- Before the final character of a conversion all stages are complete, unless the width
    begins with a zero, which is a flag. -/
theorem Form.complete_of_letter (form : Form) (letter : Char) (hletter : letter ∈ conversionLetters)
    (hwidth : form.width.head? ≠ some '0') : form.Complete [letter] := by
  obtain ⟨hflag, hdigit, hpoint, hlength⟩ := stops_of_mem_conversionLetters letter hletter
  have hlengths : ∀ c, (form.lengths ++ [letter]).head? = some c →
      isFlag c = false ∧ isDigit c = false ∧ c ≠ '.' := by
    intro c hc
    rw [List.head?_append] at hc
    cases hhead : form.lengths.head? with
    | none =>
        rw [hhead] at hc
        exact Option.some.inj hc ▸ ⟨hflag, hdigit, hpoint⟩
    | some d =>
        rw [hhead] at hc
        exact stops_of_isLengthLetter c
          (form.isLengthLetter_of_mem c (List.mem_of_head? (hhead.trans hc)))
  -- What follows the width begins with a point, a length letter or the final character.
  have hpoints : ∀ c, (form.point ++ form.lengths ++ [letter]).head? = some c →
      isFlag c = false ∧ isDigit c = false := by
    intro c hc
    rw [List.append_assoc] at hc
    unfold point at hc
    cases hprecision : form.precision with
    | none =>
        rw [hprecision] at hc
        exact ⟨(hlengths c hc).1, (hlengths c hc).2.1⟩
    | some digits =>
        rw [hprecision] at hc
        exact Option.some.inj hc ▸ by decide
  refine ⟨Text.stops_append isFlag _ _ (fun c hc => ?_) fun _ c hc => (hpoints c hc).1,
    fun c hc => (hpoints c hc).2, fun _ c hc => (hlengths c hc).2.1, fun _ hhead => ?_,
    fun c hc => Option.some.inj hc ▸ hlength⟩
  · have hc0 : c ≠ '0' := fun heq => hwidth (heq ▸ hc)
    exact isFlag_of_isDigit c (form.isDigit_of_mem_width c (List.mem_of_head? hc)) hc0
  · exact (hlengths '.' hhead).2.2 rfl

/-- Values of either kind have a text under each of these, and under no other. -/
theorem convert?_isSome_iff (spec : Conversion) (letter : Char) (v : Value) :
    (spec.convert? letter v).isSome = true ↔ letter ∈ conversionLetters := by
  constructor
  · intro h
    unfold Conversion.convert? at h
    split at h <;> first
      | decide
      | exact absurd h (by simp only [Option.isSome_none, Bool.false_eq_true, not_false_eq_true])
  · intro h
    simp only [conversionLetters, List.mem_cons, List.not_mem_nil, or_false] at h
    rcases h with rfl | rfl | rfl | rfl | rfl | rfl | rfl | rfl | rfl | rfl <;> cases v <;> rfl

/-- A piece of a template. -/
inductive Piece where
  /-- A character by itself. -/
  | character (c : Char) (plain : c ≠ '%')
  /-- Two percent signs. -/
  | percent
  /-- A conversion with its final character. -/
  | conversion (form : Form) (letter : Char) (complete : form.Complete [letter])
      (single : form.stages = [] → letter ≠ '%')
  /-- A conversion without a final character. -/
  | unfinished (form : Form) (complete : form.Complete [])

namespace Piece

/-- How a piece is written. -/
def text : Piece → Text
  | character c _ => [c]
  | percent => ['%', '%']
  | conversion form letter _ _ => form.text ++ [letter]
  | unfinished form _ => form.text

/-- What a piece becomes. What is no conversion after all stays as it is written. -/
def output (v : Value) : Piece → Text
  | character c _ => [c]
  | percent => ['%']
  | conversion form letter _ _ =>
    if letter ∈ conversionLetters then (form.spec.convert? letter v).getD []
    else form.text ++ [letter]
  | unfinished form _ => form.text

/-- Only a conversion without a final character cannot stand before any text. -/
def EndsBefore (rest : Text) : Piece → Prop
  | unfinished _ _ => rest = []
  | _ => True

/-- The segment that a piece is read as. -/
def segment : Piece → Segment
  | character c _ => .literal c
  | percent => .percent
  | conversion form letter _ _ => .conversion form.spec form.text letter
  | unfinished form _ => .unfinished form.text

theorem fill_segment (piece : Piece) (v : Value) : piece.segment.fill v = piece.output v := by
  cases piece with
  | conversion form letter =>
      have hletter := convert?_isSome_iff form.spec letter v
      -- A conversion without meaning is written as it stands, and its piece is too.
      cases hconvert : form.spec.convert? letter v with
      | none =>
          rw [hconvert] at hletter
          simp only [segment, Segment.fill, output, hconvert, Option.getD_none,
            if_neg fun hmem => absurd (hletter.2 hmem) Bool.false_ne_true]
      | some text =>
          rw [hconvert] at hletter
          simp only [segment, Segment.fill, output, hconvert, Option.getD_some,
            if_pos (hletter.1 rfl)]
  | _ => rfl

/-- A piece can be told from its segment. -/
theorem segment_injective : Function.Injective segment := by
  intro piece other h
  -- Pieces of different kinds have different segments, so four cases are left.
  cases piece <;> cases other <;>
    simp only [segment, reduceCtorEq, Segment.literal.injEq, Segment.conversion.injEq,
      Segment.unfinished.injEq] at h
  · simp only [h]
  · rfl
  · rename_i form letter complete _ otherForm otherLetter otherComplete _
    obtain ⟨-, htext, rfl⟩ := h
    have hform := Form.eq_of_append form otherForm [letter] [letter]
      (by rw [(List.cons.inj htext).2]) complete otherComplete
    subst hform
    rfl
  · rename_i form complete otherForm otherComplete
    have hform := Form.eq_of_append form otherForm [] [] (by rw [(List.cons.inj h).2]) complete
      otherComplete
    subst hform
    rfl

/-- A text that begins with a percent sign and does not go on with another one begins with
    a conversion. -/
theorem firstSegment_percent (rest : Text) (h : rest.head? ≠ some '%') :
    firstSegment '%' rest = scanConversion rest := by
  unfold firstSegment
  rw [if_neg (by simp only [ne_eq, not_true_eq_false, not_false_eq_true]), if_neg h]

/-- A piece is read as its segment. -/
theorem segments_append (piece : Piece) (rest : Text) (h : piece.EndsBefore rest) :
    segments (piece.text ++ rest) = piece.segment :: segments rest := by
  cases piece with
  | character c plain =>
      exact segments_cons c [] rest (.literal c) (if_pos plain) rfl
  | percent => exact segments_cons '%' ['%'] rest .percent rfl rfl
  | conversion form letter complete single =>
      -- What stands behind the percent sign is not a second one.
      have hhead := form.head?_stages_append (letter :: rest)
        fun hnil hletter => single hnil (Option.some.inj hletter)
      have hscan := form.scanConversion_of_complete (letter :: rest) (complete.of_head? rfl)
      rw [text, Form.text, List.cons_append, List.cons_append]
      refine segments_cons '%' (form.stages ++ [letter]) rest _ ?_ ?_
      · rw [List.append_assoc, List.singleton_append, firstSegment_percent _ hhead, hscan]
        rfl
      · simp only [segment, Segment.source, Form.text, List.length_append, List.length_cons,
          List.length_nil]
  | unfinished form complete =>
      have hrest : rest = [] := h
      have hhead := form.head?_stages_append [] fun _ hnone => absurd hnone (by
        simp only [List.head?_nil, reduceCtorEq, not_false_eq_true])
      have hscan := form.scanConversion_of_complete [] complete
      rw [hrest, text, Form.text, List.cons_append]
      exact segments_cons '%' form.stages [] _ ((firstSegment_percent _ hhead).trans hscan) rfl

end Piece

/-- A template is cut into pieces. -/
inductive Cut : List Piece → Text → Prop
  | nil : Cut [] []
  | cons (piece : Piece) (pieces : List Piece) (rest : Text) (ends : piece.EndsBefore rest)
      (h : Cut pieces rest) : Cut (piece :: pieces) (piece.text ++ rest)

theorem text_of_cut (pieces : List Piece) (t : Text) (h : Cut pieces t) :
    t = pieces.flatMap Piece.text := by
  induction h with
  | nil => rfl
  | cons piece pieces rest _ _ ih => rw [List.flatMap_cons, ← ih]

/-- The segments of a template are its pieces, by induction on them. -/
theorem segments_of_cut (pieces : List Piece) (t : Text) (h : Cut pieces t) :
    segments t = pieces.map Piece.segment := by
  induction h with
  | nil => rfl
  | cons piece pieces rest ends _ ih => rw [piece.segments_append rest ends, ih, List.map_cons]

/-- There is one way to cut a template, since there is one way to read it. -/
theorem eq_of_cut (pieces others : List Piece) (t : Text) (h : Cut pieces t)
    (hothers : Cut others t) : pieces = others := by
  have hsegments := segments_of_cut pieces t h
  rw [segments_of_cut others t hothers] at hsegments
  exact (Function.Injective.list_map Piece.segment_injective hsegments).symm

/-- A piece is filled in by itself, whatever follows it. -/
theorem fill_piece_append (piece : Piece) (rest : Text) (v : Value) (h : piece.EndsBefore rest) :
    fill (piece.text ++ rest) v = piece.output v ++ fill rest v := by
  unfold fill
  rw [piece.segments_append rest h, List.flatMap_cons, piece.fill_segment]

/-- A conversion by itself becomes the text of the value. -/
theorem fill_conversion (form : Form) (letter : Char) (v : Value)
    (hletter : letter ∈ conversionLetters) (hwidth : form.width.head? ≠ some '0') :
    fill (form.text ++ [letter]) v = (form.spec.convert? letter v).getD [] := by
  have hpercent : letter ≠ '%' := by
    rintro rfl
    exact absurd hletter (by decide)
  have hpiece := fill_piece_append (.conversion form letter
    (form.complete_of_letter letter hletter hwidth) fun _ => hpercent) [] v trivial
  rw [Piece.text, Piece.output, if_pos hletter, List.append_nil] at hpiece
  rw [hpiece]
  exact List.append_nil _

/-- Filling a template fills its pieces. -/
theorem fill_of_cut (pieces : List Piece) (t : Text) (v : Value) (h : Cut pieces t) :
    fill t v = pieces.flatMap (Piece.output v) := by
  induction h with
  | nil => rfl
  | cons piece pieces rest ends _ ih =>
      rw [fill_piece_append piece rest v ends, ih, List.flatMap_cons]

/-- Text without percent signs stays as it is. -/
theorem fill_plain_append (t rest : Text) (v : Value) (h : '%' ∉ t) :
    fill (t ++ rest) v = t ++ fill rest v := by
  induction t with
  | nil => rfl
  | cons c t ih =>
      have hc : c ≠ '%' := fun heq => h (heq ▸ List.mem_cons_self)
      have hpiece := fill_piece_append (.character c hc) (t ++ rest) v trivial
      rw [ih fun hmem => h (List.mem_cons_of_mem _ hmem)] at hpiece
      exact hpiece

theorem fill_plain (t : Text) (v : Value) (h : '%' ∉ t) : fill t v = t := by
  have hfill := fill_plain_append t [] v h
  rw [List.append_nil] at hfill
  exact hfill.trans (List.append_nil t)

/-- A conversion amid other text is filled in by itself. -/
theorem fill_amid (before after : Text) (form : Form) (letter : Char) (v : Value)
    (hbefore : '%' ∉ before) (hafter : '%' ∉ after) (hletter : letter ∈ conversionLetters)
    (hwidth : form.width.head? ≠ some '0') :
    fill (before ++ (form.text ++ [letter] ++ after)) v
      = before ++ (fill (form.text ++ [letter]) v ++ after) := by
  have hpercent : letter ≠ '%' := by
    rintro rfl
    exact absurd hletter (by decide)
  have hpiece := fill_piece_append (.conversion form letter
    (form.complete_of_letter letter hletter hwidth) fun _ => hpercent) after v trivial
  rw [Piece.text, Piece.output, if_pos hletter, fill_plain after v hafter] at hpiece
  rw [fill_plain_append before _ v hbefore, hpiece, fill_conversion form letter v hletter hwidth]

/-- Every template begins with a piece, and the rest is shorter. -/
theorem exists_piece_append (c : Char) (t : Text) :
    ∃ (piece : Piece) (rest : Text), c :: t = piece.text ++ rest ∧ piece.EndsBefore rest
      ∧ rest.length < (c :: t).length := by
  by_cases hplain : c = '%'
  · subst hplain
    by_cases hpercent : t.head? = some '%'
    · obtain ⟨rest, rfl⟩ := List.head?_eq_some_iff.1 hpercent
      exact ⟨.percent, rest, rfl, trivial, by simp only [List.length_cons]; omega⟩
    · -- The stages are read as far as they go; then a letter follows or the text ends.
      obtain ⟨form, rest, rfl, hcomplete⟩ := exists_form_append t
      cases rest with
      | nil =>
          exact ⟨.unfinished form hcomplete, [], rfl, rfl, by
            simp only [List.length_nil, List.length_cons]; omega⟩
      | cons letter rest =>
          have hsingle : form.stages = [] → letter ≠ '%' := by
            intro hnil hletter
            rw [hnil, hletter] at hpercent
            exact hpercent rfl
          refine ⟨.conversion form letter (hcomplete.of_head? rfl) hsingle, rest, ?_, trivial, ?_⟩
          · simp only [Piece.text, Form.text, List.cons_append, List.append_assoc,
              List.nil_append]
          · simp only [List.length_cons, List.length_append]
            omega
  · exact ⟨.character c hplain, t, rfl, trivial, Nat.lt_succ_self _⟩

/-- Every template is cut into pieces, by induction on its length. -/
theorem exists_cut (t : Text) : ∃ pieces, Cut pieces t := by
  induction hlength : t.length using Nat.strongRecOn generalizing t with
  | _ n ih =>
      cases t with
      | nil => exact ⟨[], .nil⟩
      | cons c t =>
          obtain ⟨piece, rest, htext, hends, hshorter⟩ := exists_piece_append c t
          obtain ⟨pieces, hpieces⟩ := ih rest.length (hlength ▸ hshorter) rest rfl
          rw [htext]
          exact ⟨piece :: pieces, .cons piece pieces rest hends hpieces⟩

/-- The conversion of a string of which nothing is written but, perhaps, a precision. -/
def stringForm (precision : Option Text)
    (h : ∀ digits, precision = some digits → ∀ c ∈ digits, isDigit c = true) : Form :=
  ⟨[], [], precision, [], List.all_eq_true.1 rfl, List.all_eq_true.1 rfl, h,
    List.all_eq_true.1 rfl⟩

/-- A text with each percent sign written twice. -/
def doubled (t : Text) : Text :=
  t.flatMap fun c => if c = '%' then ['%', '%'] else [c]

/-- It is a template for the text itself. -/
theorem fill_doubled (t : Text) (v : Value) : fill (doubled t) v = t := by
  induction t with
  | nil => rfl
  | cons c t ih =>
      unfold doubled at ih ⊢
      rw [List.flatMap_cons]
      by_cases hc : c = '%'
      · have hpiece := fill_piece_append .percent
          (t.flatMap fun c => if c = '%' then ['%', '%'] else [c]) v trivial
        rw [ih] at hpiece
        rw [if_pos hc, hc]
        exact hpiece
      · rw [if_neg hc, fill_plain_append [c] _ v fun hmem => hc (List.mem_singleton.1 hmem).symm,
          ih]
        rfl

/-- The one way to cut a template decides what it becomes: the pieces are filled in one
    after the other, each by itself, and only conversions with certain final characters
    change. So a template without percent signs stays as it is, and a text whose percent
    signs are written twice is a template for itself. -/
theorem fill_of_pieces :
    (∀ t : Text, ∃! pieces, Cut pieces t)
      ∧ (∀ (pieces : List Piece) (t : Text), Cut pieces t → t = pieces.flatMap Piece.text
          ∧ ∀ v : Value, fill t v = pieces.flatMap (Piece.output v))
      ∧ (∀ (spec : Conversion) (letter : Char) (v : Value),
          (∃ text, spec.convert? letter v = some text) ↔ letter ∈ conversionLetters)
      ∧ (∀ (t : Text) (v : Value), '%' ∉ t → fill t v = t)
      ∧ ∀ (t : Text) (v : Value), fill (doubled t) v = t := by
  refine ⟨fun t => ?_, fun pieces t h => ⟨text_of_cut pieces t h, fun v =>
    fill_of_cut pieces t v h⟩, fun spec letter v => ?_, fill_plain, fill_doubled⟩
  · -- Cutting takes the first piece that there is, and no text begins with two of them.
    obtain ⟨pieces, hcut⟩ := exists_cut t
    exact ⟨pieces, hcut, fun others hothers => eq_of_cut others pieces t hothers hcut⟩
  · rw [← convert?_isSome_iff spec letter v, Option.isSome_iff_exists]

/-- Two flags, of which one is a zero, a width, a precision and a length letter. -/
def fullForm : Form :=
  ⟨['-', '0'], ['8'], some ['3'], ['l'], List.all_eq_true.1 rfl, List.all_eq_true.1 rfl,
    fun _ heq => Option.some.inj heq ▸ List.all_eq_true.1 rfl, List.all_eq_true.1 rfl⟩

/-- A conversion of which nothing is written but, perhaps, a sign. -/
def shortForm (flags : Text) (h : ∀ c ∈ flags, isFlag c = true) : Form :=
  ⟨flags, [], none, [], h, List.all_eq_true.1 rfl, (fun _ hnone => nomatch hnone),
    List.all_eq_true.1 rfl⟩

theorem complete_fullForm : fullForm.Complete ['d'] :=
  fullForm.complete_of_letter 'd' (by decide) (by decide)

theorem complete_shortForm (flags rest : Text) (h : ∀ c ∈ flags, isFlag c = true)
    (hrest : ∀ c, rest.head? = some c →
      isFlag c = false ∧ isDigit c = false ∧ c ≠ '.' ∧ isLengthLetter c = false) :
    (shortForm flags h).Complete rest where
  flags c hc := (hrest c hc).1
  width c hc := (hrest c hc).2.1
  precision hsome := absurd rfl hsome
  point _ hpoint := (hrest '.' hpoint).2.2.1 rfl
  lengths c hc := (hrest c hc).2.2.2

/-- A character, an escaped percent sign, a conversion with all of its stages, one with an
    unknown final character, and one that is cut off. -/
def mixedPieces : List Piece :=
  [.character '5' (by decide), .percent,
    .conversion fullForm 'd' complete_fullForm (fun hnil => absurd hnil (by decide)),
    .conversion (shortForm [] (List.all_eq_true.1 rfl)) 'k'
      (complete_shortForm [] ['k'] _ fun c hc => Option.some.inj hc ▸ by decide)
      (fun _ => by decide),
    .unfinished (shortForm ['+'] (List.all_eq_true.1 rfl))
      (complete_shortForm ['+'] [] _ fun _ hc => nomatch hc)]

theorem cut_mixedPieces : Cut mixedPieces "5%%%-08.3ld%k%+".toList :=
  .cons _ _ _ trivial (.cons _ _ _ trivial (.cons _ _ _ trivial (.cons _ _ _ trivial
    (.cons _ _ _ rfl .nil))))

theorem fill_of_mixedPieces :
    Cut mixedPieces "5%%%-08.3ld%k%+".toList
      ∧ fill "5%%%-08.3ld%k%+".toList (.number 7) = "5%007     %k%+".toList
      ∧ '%' ∉ ", stereo".toList
      ∧ fill ", stereo".toList (.number 7) = ", stereo".toList := by
  have hplain : '%' ∉ ", stereo".toList := by decide
  exact ⟨cut_mixedPieces,
    ((fill_of_pieces.2.1 _ _ cut_mixedPieces).2 (.number 7)).trans (by decide), hplain,
    fill_of_pieces.2.2.2.1 _ (.number 7) hplain⟩

end Template

end FileSignatures
