import FileSignatures.Proofs.Property.Outline
import FileSignatures.Proofs.Property.Stated

/-!
# Descriptions that are written

Extraction undoes writing. A description is written as pieces of comment with groups of
fields between them, each group in brackets and its fields with one separator or more
between them. What is written states exactly the fields, in order
(`stated_of_rendered`): the bracket at the end of a group separates it from the next one,
and additional separators only make empty tokens. How the fields are distributed over
groups is therefore nowhere to be seen in the result.

A field is what can be written like that and be read as it is. Its key is clean, and
neither that of a numeric property nor that of the comment; its value may hold equals
signs, because only the first one ends the key.

## Main definitions

* `Field`: A key and a value that are read as they are written.
* `Field.Joined`: Fields with separators between them.
* `Rendered`: A description with groups of fields in a comment.

## Theorems

* `reported_of_isClean`: A clean key is reported as it is.
* `stated_of_joined`: The tokens of a group state its fields.
* `stated_of_rendered`: A description states the fields of its groups.
* `extraction_of_rendered`: What has been written is extracted.
-/

namespace FileSignatures

/-- A property that is read as it is written. -/
structure Field where
  key : Text
  value : Text
  clean : PropertyKey.IsClean key
  textual : ∀ entry ∈ PropertyKey.known, key = entry.1 → entry.2 = .text
  not_comment : key ≠ PropertyKey.comment
  trimmed : value.trimBy isControlOrSpace = value
  characters : ∀ c ∈ value, c ∉ ['[', ']', ';']

/-- A clean key is reported as it is. -/
theorem PropertyKey.reported_of_isClean (key : Text) (h : IsClean key) : reported key = key := by
  unfold reported
  rw [h.trimmed]
  cases hlookup : lookup? key with
  | none => rfl
  | some entry =>
      have hagrees := List.find?_some hlookup
      exact (h.spelling entry (List.mem_of_find?_eq_some hlookup) hagrees).symm

namespace Field

/-- How a field is written. -/
def text (field : Field) : Text :=
  field.key ++ '=' :: field.value

/-- What a field states. -/
def pair (field : Field) : Text × Text :=
  (field.key, field.value)

theorem equals_notMem_key (field : Field) : '=' ∉ field.key :=
  fun hmem => field.clean.characters _ hmem (by decide)

/-- A field has none of the characters that end a token. -/
theorem notMem_text (field : Field) : ∀ c ∈ field.text, c ∉ ['[', ']', ';'] := by
  intro c hc
  rcases List.mem_append.1 hc with hc | hc
  · have hfewer : ['[', ']', ';'] ⊆ ['[', ']', ';', '='] := by decide
    exact fun hspecial => field.clean.characters c hc (hfewer hspecial)
  · rcases List.mem_cons.1 hc with rfl | hc
    · decide
    · exact field.characters c hc

theorem stated?_text (field : Field) : Property.stated? field.text = some field.pair := by
  unfold text pair
  rw [Property.stated?_append field.key field.value field.equals_notMem_key, field.trimmed,
    PropertyKey.reported_of_isClean field.key field.clean, if_neg]
  rw [field.clean.trimmed]
  exact field.clean.nonempty

theorem reading_pair (evaluator : Evaluator) (field : Field) :
    Property.reading evaluator field.key field.value = .ok field.value := by
  have hchannels : field.key ≠ PropertyKey.channels := fun heq =>
    absurd (field.textual (PropertyKey.channels, .integer) (by decide) heq) (by decide)
  have hframeRate : field.key ≠ PropertyKey.frameRate := fun heq =>
    absurd (field.textual (PropertyKey.frameRate, .float) (by decide) heq) (by decide)
  unfold Property.reading
  rw [if_neg hchannels, if_neg hframeRate]

/-- Fields with one separator or more between them. -/
inductive Joined : List Field → Text → Prop
  | none : Joined [] []
  | one (field : Field) : Joined [field] field.text
  | more (field next : Field) (rest : List Field) (extra : Nat) (t : Text)
      (h : Joined (next :: rest) t) :
      Joined (field :: next :: rest) (field.text ++ ';' :: (List.replicate extra ';' ++ t))

theorem ne_bracket_of_joined (fields : List Field) (t : Text) (h : Joined fields t) :
    ∀ c ∈ t, c ≠ '[' ∧ c ≠ ']' := by
  have hfield := fun field : Field =>
    Description.ne_bracket_of_notMem field.text field.notMem_text
  induction h with
  | none => exact fun c hc => absurd hc List.not_mem_nil
  | one field => exact hfield field
  | more field next rest extra t _ ih =>
      intro c hc
      rcases List.mem_append.1 hc with hc | hc
      · exact hfield field c hc
      · rcases List.mem_cons.1 hc with rfl | hc
        · decide
        · rcases List.mem_append.1 hc with hc | hc
          · rw [List.eq_of_mem_replicate hc]
            decide
          · exact ih c hc

end Field

/-- Additional separators in front state nothing. -/
theorem stated_replicate (extra : Nat) (t : Text) :
    (Text.pieces ';' (List.replicate extra ';' ++ t)).filterMap Property.stated?
      = (Text.pieces ';' t).filterMap Property.stated? := by
  induction extra with
  | zero => rfl
  | succ extra ih =>
      rw [List.replicate_succ, List.cons_append, Text.pieces, if_pos rfl,
        List.filterMap_cons_none (Property.stated?_of_no_equals [] List.not_mem_nil), ih]

/-- The tokens of a group state its fields. -/
theorem stated_of_joined (fields : List Field) (t : Text) (h : Field.Joined fields t) :
    (Text.pieces ';' t).filterMap Property.stated? = fields.map Field.pair := by
  have hseparator : ∀ field : Field, ';' ∉ field.text := fun field hmem =>
    field.notMem_text _ hmem (by decide)
  -- The separators between two fields leave empty tokens, which state nothing.
  induction h with
  | none => rfl
  | one field =>
      rw [pieces_eq_singleton ';' field.text (hseparator field),
        List.filterMap_cons_some field.stated?_text]
      rfl
  | more field next rest extra t _ ih =>
      rw [pieces_append_separator ';' field.text _ (hseparator field),
        List.filterMap_cons_some field.stated?_text, stated_replicate, ih]
      rfl

/-- A description with groups of fields: pieces of comment without brackets, and a group in
    brackets after each but the last. -/
inductive Rendered : List (List Field) → Text → Text → Prop
  | comment (piece : Text) (plain : ∀ c ∈ piece, c ≠ '[' ∧ c ≠ ']') : Rendered [] piece piece
  | group (piece : Text) (plain : ∀ c ∈ piece, c ≠ '[' ∧ c ≠ ']') (fields : List Field)
      (body : Text) (joined : Field.Joined fields body) (groups : List (List Field))
      (comment rest : Text) (h : Rendered groups comment rest) :
      Rendered (fields :: groups) (piece ++ comment) (piece ++ '[' :: (body ++ ']' :: rest))

theorem balanced_of_rendered (groups : List (List Field)) (comment description : Text)
    (h : Rendered groups comment description) : Description.Balanced description := by
  unfold Description.Balanced
  -- Neither comment nor fields hold brackets, so each group closes the one it opens.
  induction h with
  | comment piece plain =>
      have hclosed := Description.closes_plain 0 piece [] plain
      rw [List.append_nil] at hclosed
      exact hclosed
  | group piece plain fields body joined groups comment rest _ ih =>
      rw [Description.closes_plain 0 piece _ plain, Description.closes, if_pos rfl,
        Description.closes_plain 1 body _ (Field.ne_bracket_of_joined fields body joined),
        Description.closes, if_neg (by decide), if_pos rfl, ih]
      rfl

/-- A description is split into its comment and a text that states its fields, by induction
    on the groups. -/
theorem splitAt_of_rendered (groups : List (List Field)) (comment description : Text)
    (h : Rendered groups comment description) :
    (Description.splitAt 0 description).1 = comment
      ∧ (Text.pieces ';' (Description.splitAt 0 description).2).filterMap Property.stated?
        = groups.flatten.map Field.pair := by
  induction h with
  | comment piece plain =>
      have hsplit := Description.splitAt_comment piece [] plain
      rw [List.append_nil] at hsplit
      rw [hsplit]
      exact ⟨List.append_nil piece, rfl⟩
  | group piece plain fields body joined groups comment rest _ ih =>
      -- The group ends at its bracket, which separates.
      rw [Description.splitAt_comment piece _ plain, Description.splitAt_open,
        Description.splitAt_plain _ body _ (by omega)
          (Field.ne_bracket_of_joined fields body joined),
        Description.splitAt_closing, Int.zero_add, if_pos (Description.separates_one rest),
        Int.sub_self]
      refine ⟨congrArg (piece ++ ·) ih.1, ?_⟩
      rw [pieces_join, List.filterMap_append, stated_of_joined fields body joined, ih.2,
        List.flatten_cons, List.map_append]

/-- A description states the fields of its groups. -/
theorem stated_of_rendered (groups : List (List Field)) (comment description : Text)
    (h : Rendered groups comment description) :
    (Description.split description).1 = comment
      ∧ Description.stated description = groups.flatten.map Field.pair := by
  unfold Description.stated Description.tokens
  rw [Description.split_eq_splitAt description (balanced_of_rendered groups comment description h)]
  exact splitAt_of_rendered groups comment description h

theorem exists_recordAll_fields (evaluator : Evaluator) (map : PropertyMap)
    (fields : List Field) :
    ∃ final, Property.recordAll evaluator map (fields.map Field.pair) = .ok final := by
  induction fields generalizing map with
  | nil => exact ⟨map, rfl⟩
  | cons field rest ih =>
      rw [List.map_cons, Field.pair, Property.recordAll, field.reading_pair evaluator]
      exact ih _

/-- What has been written is extracted, however the fields are distributed over groups.
    The comment is put together from its pieces; the keys are those of the fields and that
    of the comment, each with the value of the last field that has it. -/
theorem extraction_of_rendered (evaluator : Evaluator) (groups : List (List Field))
    (comment description : Text) (h : Rendered groups comment description) :
    (∃ extraction, Extraction.ofDescription evaluator description = .ok extraction
      ∧ extraction.comment = comment
      ∧ (∀ key, key ∈ extraction.properties.keys ↔
          key = PropertyKey.comment ∨ ∃ field ∈ groups.flatten, field.key = key)
      ∧ extraction.properties.get? PropertyKey.comment = some comment
      ∧ ∀ before field after, groups.flatten = before ++ field :: after →
          (∀ later ∈ after, later.key ≠ field.key) →
          extraction.properties.get? field.key = some field.value)
    ∧ ∀ others other, Rendered others comment other → others.flatten = groups.flatten →
        Extraction.ofDescription evaluator other
          = Extraction.ofDescription evaluator description := by
  -- What is stated are the fields in their order, wherever the groups begin and end.
  obtain ⟨hcomment, hstated⟩ := stated_of_rendered groups comment description h
  refine ⟨?_, fun others other hother hfields => ?_⟩
  · obtain ⟨map, hmap⟩ := exists_recordAll_fields evaluator .empty groups.flatten
    have hreports := reports_of_recordAll evaluator comment _ map hmap
    refine ⟨⟨comment, map.insert PropertyKey.comment comment⟩, ?_, rfl, fun key => ?_,
      hreports.comment, fun before field after hsplit hlast => ?_⟩
    · rw [ofDescription_eq_recordAll, hstated, hmap, hcomment]
      rfl
    · rw [hreports.keys key, List.map_map, List.mem_map]
      rfl
    · have hpairs : groups.flatten.map Field.pair
          = before.map Field.pair ++ (field.key, field.value) :: after.map Field.pair := by
        rw [hsplit, List.map_append, List.map_cons]
        rfl
      have hlater : ∀ later ∈ after.map Field.pair, later.1 ≠ field.key := by
        intro later hmem
        obtain ⟨last, hafter, rfl⟩ := List.mem_map.1 hmem
        exact hlast last hafter
      obtain ⟨result, hreading, hvalue⟩ :=
        hreports.last _ field.key field.value _ hpairs hlater field.not_comment
      rw [← Property.reading_eq_ok_iff, field.reading_pair evaluator, Except.ok.injEq]
        at hreading
      rw [hvalue, hreading]
  · obtain ⟨hcomment', hstated'⟩ := stated_of_rendered others comment other hother
    rw [ofDescription_eq_recordAll, ofDescription_eq_recordAll, hcomment, hcomment', hstated,
      hstated', hfields]

/-- A field with a recognised key and a value of one character. -/
def Field.suffix (c : Char) (visible : isControlOrSpace c = false)
    (plain : c ∉ ['[', ']', ';']) : Field where
  key := PropertyKey.suffix
  value := [c]
  clean := PropertyKey.isClean_known (PropertyKey.suffix, .text) (by decide)
  textual := by decide +kernel
  not_comment := by decide
  trimmed := trimBy_eq_self isControlOrSpace [c] fun _ h => List.mem_singleton.1 h ▸ visible
  characters := fun _ h => List.mem_singleton.1 h ▸ plain

/-- A field with a key that is not recognised, and an equals sign in its value. -/
def Field.sum : Field where
  key := "a b".toList
  value := "1+1=2".toList
  clean := ⟨by decide +kernel, by decide, by decide +kernel,
    PropertyKey.notMem_of_all _ _ (by decide)⟩
  textual := by decide +kernel
  not_comment := by decide
  trimmed := by decide +kernel
  characters := PropertyKey.notMem_of_all _ _ (by decide)

theorem extraction_of_rendered_sample :
    ∃ extraction,
      Extraction.ofDescription .arithmetic ";P[ext=d;;;a b=1+1=2;ext=e], [] Q".toList
        = .ok extraction
      ∧ Extraction.ofDescription .arithmetic ";P, [ext=d][a b=1+1=2;ext=e] Q".toList
        = .ok extraction
      ∧ extraction.comment = ";P,  Q".toList
      ∧ extraction.properties.get? "ext".toList = some "e".toList
      ∧ extraction.properties.get? "a b".toList = some "1+1=2".toList := by
  have hpieces : ∀ piece ∈ [";P".toList, ", ".toList, ";P, ".toList, [], " Q".toList],
      ∀ c ∈ piece, c ≠ '[' ∧ c ≠ ']' := by simp
  let d : Field := .suffix 'd' (by decide) (by decide)
  let e : Field := .suffix 'e' (by decide) (by decide)
  -- Three fields in one group with empty tokens between them, then two groups.
  have hone : Rendered [[d, .sum, e], []] ";P,  Q".toList
      ";P[ext=d;;;a b=1+1=2;ext=e], [] Q".toList :=
    .group ";P".toList (hpieces _ (by simp)) _ _ (.more d .sum [e] 2 _ (.more .sum e [] 0 _
      (.one e))) _ _ _ (.group ", ".toList (hpieces _ (by simp)) _ _ .none _ _ _
        (.comment " Q".toList (hpieces _ (by simp))))
  have htwo : Rendered [[d], [.sum, e]] ";P,  Q".toList
      ";P, [ext=d][a b=1+1=2;ext=e] Q".toList :=
    .group ";P, ".toList (hpieces _ (by simp)) _ _ (.one d) _ _ _
      (.group [] (hpieces _ (by simp)) _ _ (.more .sum e [] 0 _ (.one e)) _ _ _
        (.comment " Q".toList (hpieces _ (by simp))))
  obtain ⟨⟨extraction, hextracted, hcomment, -, -, hvalues⟩, hsame⟩ :=
    extraction_of_rendered .arithmetic _ _ _ hone
  refine ⟨extraction, hextracted, (hsame _ _ htwo rfl).trans hextracted, hcomment,
    hvalues [d, .sum] e [] rfl fun _ h => absurd h List.not_mem_nil,
    hvalues [d] .sum [e] rfl fun later h => ?_⟩
  rw [List.mem_singleton.1 h]
  decide

end FileSignatures
