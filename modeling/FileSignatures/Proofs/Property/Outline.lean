import FileSignatures.Proofs.Property.Groups

/-!
# The outline of a description

The brackets of a balanced description nest, which makes it a tree: characters, and
groups with an outline inside (`balanced_iff`). Its comment is what stands outside of
all groups, and the properties come from the groups at the top, each without the
brackets inside of it.

The text of the properties has separators of its own: one at the end of each group at
the top, and one before a separator that follows an inner group. Both leave the parts
between separators as they are, other than that some are empty. To go through a text
character by character, the first part has to be kept apart, because what is put in
front joins it (`Alike`).

## Main definitions

* `Text.Alike`: Texts with the same first part and the same parts after it.
* `Outline`: A text with nested brackets.
* `Outline.text`: The text itself.
* `Outline.comment`: What is outside of brackets.
* `Outline.groups`: What is inside, for each outermost pair of brackets.

## Theorems

* `balanced_iff`: A balanced description is the text of an outline.
* `alike_closing`: The bracket at the end of an inner group changes no part.
* `splitAt_inside`: What is inside of brackets belongs to the properties.
* `splitAt_text`: An outline is split into its comment and its groups.
* `split_balanced`: A balanced description is split into comment and groups.
-/

namespace FileSignatures

namespace Text

/-- Two texts have the same first part and, but for empty ones, the same parts after
    it. -/
structure Alike (separator : Char) (s t : Text) : Prop where
  first : (pieces separator s).head? = (pieces separator t).head?
  more : (pieces separator s).tail.filter (fun piece => !piece.isEmpty)
    = (pieces separator t).tail.filter (fun piece => !piece.isEmpty)

section Alike

variable {separator : Char} {s t u : Text}

theorem Alike.refl (separator : Char) (t : Text) : Alike separator t t :=
  ⟨rfl, rfl⟩

theorem Alike.trans (hst : Alike separator s t) (htu : Alike separator t u) :
    Alike separator s u :=
  ⟨hst.first.trans htu.first, hst.more.trans htu.more⟩

/-- What is put together from the same first piece is alike. -/
theorem alike_of_pieces (first : Text) (more more' : List Text)
    (hs : pieces separator s = first :: more) (ht : pieces separator t = first :: more')
    (hmore : more.filter (fun piece => !piece.isEmpty)
      = more'.filter (fun piece => !piece.isEmpty)) : Alike separator s t := by
  refine ⟨?_, ?_⟩
  · rw [hs, ht, List.head?_cons, List.head?_cons]
  · rw [hs, ht]
    exact hmore

/-- Texts that are alike have the same first piece, and the same parts behind it. -/
theorem Alike.exists_pieces (h : Alike separator s t) : ∃ first more more',
    pieces separator s = first :: more ∧ pieces separator t = first :: more'
      ∧ more.filter (fun piece => !piece.isEmpty)
        = more'.filter (fun piece => !piece.isEmpty) := by
  obtain ⟨first, more, hs⟩ := pieces_eq_cons separator s
  obtain ⟨other, more', ht⟩ := pieces_eq_cons separator t
  have hfirst := h.first
  have hmore := h.more
  rw [hs, ht] at hfirst hmore
  exact ⟨first, more, more', hs, Option.some.inj hfirst ▸ ht, hmore⟩

theorem Alike.parts_eq (h : Alike separator s t) : parts separator s = parts separator t := by
  obtain ⟨first, more, more', hs, ht, hmore⟩ := h.exists_pieces
  unfold parts
  rw [hs, ht, List.filter_cons, List.filter_cons, hmore]

theorem Alike.cons (c : Char) (h : Alike separator s t) :
    Alike separator (c :: s) (c :: t) := by
  by_cases hc : c = separator
  · subst hc
    exact alike_of_pieces [] _ _ (pieces_append_separator c [] s List.not_mem_nil)
      (pieces_append_separator c [] t List.not_mem_nil) h.parts_eq
  · obtain ⟨first, more, more', hs, ht, hmore⟩ := h.exists_pieces
    exact alike_of_pieces (c :: first) more more' (pieces_cons separator c s first more hc hs)
      (pieces_cons separator c t first more' hc ht) hmore

theorem Alike.append (front : Text) (h : Alike separator s t) :
    Alike separator (front ++ s) (front ++ t) := by
  induction front with
  | nil => exact h
  | cons c front ih => exact ih.cons c

/-- A separator before another one adds an empty piece. -/
theorem alike_separators (separator : Char) (t : Text) :
    Alike separator (separator :: separator :: t) (separator :: t) := by
  have hsingle := pieces_append_separator separator [] t List.not_mem_nil
  have hdouble := pieces_append_separator separator [] (separator :: t) List.not_mem_nil
  rw [List.nil_append] at hsingle hdouble
  refine alike_of_pieces [] _ _ hdouble hsingle ?_
  rw [hsingle, List.filter_cons_of_neg (by decide)]

end Alike

theorem flatten_flatMap_parts (separator : Char) (texts : List Text) :
    (texts.flatMap (parts separator)).flatten
      = texts.flatten.filter fun c => c ≠ separator := by
  induction texts with
  | nil => rfl
  | cons first more ih =>
      rw [List.flatMap_cons, List.flatten_append, ih, flatten_parts, List.flatten_cons,
        List.filter_append]

end Text

/-- A text with nested brackets. -/
inductive Outline where
  | done
  | character (c : Char) (plain : c ≠ '[' ∧ c ≠ ']') (rest : Outline)
  /-- A pair of brackets, what is between them and what follows. -/
  | group (inside rest : Outline)

namespace Outline

/-- The text itself. -/
def text : Outline → Text
  | done => []
  | character c _ rest => c :: rest.text
  | group inside rest => '[' :: (inside.text ++ ']' :: rest.text)

/-- The characters outside of brackets. -/
def comment : Outline → Text
  | done => []
  | character c _ rest => c :: rest.comment
  | group _ rest => rest.comment

/-- The text without its brackets. -/
def flat : Outline → Text
  | done => []
  | character c _ rest => c :: rest.flat
  | group inside rest => inside.flat ++ rest.flat

/-- The text in each outermost pair of brackets, without the brackets inside. -/
def groups : Outline → List Text
  | done => []
  | character _ _ rest => rest.groups
  | group inside rest => inside.flat :: rest.groups

/-- Nothing but the brackets is missing there. -/
theorem flat_eq_filter (outline : Outline) :
    outline.flat = outline.text.filter fun c => c ≠ '[' && c ≠ ']' := by
  induction outline with
  | done => rfl
  | character c plain rest ih =>
      rw [flat, text, ih, List.filter_cons_of_pos (by simp only [ne_eq, plain.1, plain.2,
        not_false_eq_true, decide_true, Bool.and_self])]
  | group inside rest ihInside ih =>
      rw [flat, text, ihInside, ih, List.filter_cons_of_neg (by decide), List.filter_append,
        List.filter_cons_of_neg (by decide)]

/-- Every character other than a bracket is in the comment or in one of the groups. -/
theorem perm_flat (outline : Outline) :
    (outline.comment ++ outline.groups.flatten).Perm outline.flat := by
  induction outline with
  | done => exact .refl []
  | character c plain rest ih => exact ih.cons c
  | group inside rest ihInside ih =>
      rw [comment, groups, flat, List.flatten_cons]
      exact (List.perm_append_comm_assoc rest.comment inside.flat _).trans (ih.append_left _)

end Outline

namespace Description

/-- A text that closes `depth` brackets has an outline before each of them, and one
    behind. -/
theorem exists_outlines (depth : Nat) (t : Text) (h : closes depth t = true) :
    ∃ (first : Outline) (more : List Outline), more.length = depth
      ∧ t = first.text ++ more.flatMap fun outline => ']' :: outline.text := by
  induction t generalizing depth with
  | nil =>
      simp only [closes, decide_eq_true_eq] at h
      exact ⟨.done, [], h.symm, rfl⟩
  | cons c t ih =>
      rw [closes] at h
      by_cases hopen : c = '['
      · -- What stood before the next two brackets is the inside of a group and what
        -- follows it.
        rw [if_pos hopen] at h
        obtain ⟨inside, more, hlength, ht⟩ := ih (depth + 1) h
        obtain ⟨rest, more, rfl⟩ := List.exists_cons_of_length_eq_add_one hlength
        refine ⟨.group inside rest, more, Nat.succ.inj hlength, ?_⟩
        rw [hopen, ht, List.flatMap_cons, Outline.text]
        simp only [List.cons_append, List.append_assoc]
      · rw [if_neg hopen] at h
        by_cases hclose : c = ']'
        · rw [if_pos hclose, Bool.and_eq_true, decide_eq_true_eq] at h
          obtain ⟨first, more, hlength, ht⟩ := ih (depth - 1) h.2
          have hdepth : (first :: more).length = depth := by
            rw [List.length_cons]
            omega
          refine ⟨.done, first :: more, hdepth, ?_⟩
          rw [hclose, ht, List.flatMap_cons, Outline.text]
          simp only [List.cons_append, List.nil_append]
        · rw [if_neg hclose] at h
          obtain ⟨first, more, hlength, ht⟩ := ih depth h
          exact ⟨.character c ⟨hopen, hclose⟩ first, more, hlength, by rw [ht]; rfl⟩

theorem closes_text (outline : Outline) (depth : Nat) (rest : Text) :
    closes depth (outline.text ++ rest) = closes depth rest := by
  induction outline generalizing depth rest with
  | done => rfl
  | character c plain more ih =>
      rw [Outline.text, List.cons_append, closes, if_neg plain.1, if_neg plain.2]
      exact ih depth rest
  | group inside more ihInside ih =>
      -- One more bracket is open inside, until the group closes it.
      rw [Outline.text, List.cons_append, closes, if_pos rfl, List.append_assoc, ihInside,
        List.cons_append, closes, if_neg (by decide), if_pos rfl, Nat.add_sub_cancel, ih,
        decide_eq_true (Nat.succ_pos depth), Bool.true_and]

/-- A balanced description is the text of an outline. -/
theorem balanced_iff (description : Text) :
    Balanced description ↔ ∃ outline : Outline, outline.text = description := by
  constructor
  · intro h
    obtain ⟨outline, more, hlength, ht⟩ := exists_outlines 0 description h
    rw [List.eq_nil_of_length_eq_zero hlength, List.flatMap_nil, List.append_nil] at ht
    exact ⟨outline, ht.symm⟩
  · rintro ⟨outline, rfl⟩
    have hclosed := closes_text outline 0 []
    rw [List.append_nil] at hclosed
    exact hclosed

/-- A bracket that closes an inner group changes no part. It becomes a separator only if
    another one follows. -/
theorem alike_closing (depth : Int) (rest : Text) (hdepth : 0 < depth) (hrest : rest ≠ []) :
    Text.Alike ';' (splitAt (depth + 1) (']' :: rest)).2 (splitAt depth rest).2 := by
  rw [splitAt_closing, Int.add_sub_cancel]
  split
  · rename_i hseparates
    cases rest with
    | nil => exact absurd rfl hrest
    | cons next behind =>
        simp only [separates, Bool.or_eq_true, decide_eq_true_eq] at hseparates
        -- Inside of a group only a separator can follow directly, and two of them are as good as
        -- one.
        have hnext : next = ';' := hseparates.resolve_right (by omega)
        rw [hnext, splitAt_other depth ';' _ (by decide) (by decide), if_pos hdepth]
        exact Text.alike_separators ';' _
  · exact .refl ';' _

/-- What is inside of brackets belongs to the properties. Something follows, as the
    brackets are closed. -/
theorem splitAt_inside (outline : Outline) (depth : Int) (rest : Text) (hdepth : 0 < depth)
    (hrest : rest ≠ []) :
    (splitAt depth (outline.text ++ rest)).1 = (splitAt depth rest).1
      ∧ Text.Alike ';' (splitAt depth (outline.text ++ rest)).2
          (outline.flat ++ (splitAt depth rest).2) := by
  induction outline generalizing depth rest with
  | done => exact ⟨rfl, .refl ';' _⟩
  | character c plain more ih =>
      obtain ⟨hcomment, halike⟩ := ih depth rest hdepth hrest
      rw [Outline.text, List.cons_append, splitAt_other depth c _ plain.1 plain.2, if_pos hdepth]
      exact ⟨hcomment, halike.cons c⟩
  | group inside more ihInside ih =>
      obtain ⟨hcomment, halike⟩ := ih depth rest hdepth hrest
      -- What follows the inside is never empty, as its closing bracket comes first.
      obtain ⟨hcommentInside, halikeInside⟩ := ihInside (depth + 1)
        (']' :: (more.text ++ rest)) (by omega) (List.cons_ne_nil _ _)
      have hclosed := alike_closing depth (more.text ++ rest) hdepth
        (List.append_ne_nil_of_right_ne_nil _ hrest)
      rw [splitAt_closing, Int.add_sub_cancel] at hcommentInside
      rw [Outline.text, List.cons_append, List.append_assoc, List.cons_append, splitAt_open,
        Outline.flat, List.append_assoc]
      exact ⟨hcommentInside.trans hcomment,
        halikeInside.trans ((hclosed.trans halike).append inside.flat)⟩

/-- An outline is split into its comment and its groups. -/
theorem splitAt_text (outline : Outline) : (splitAt 0 outline.text).1 = outline.comment
    ∧ Text.parts ';' (splitAt 0 outline.text).2 = outline.groups.flatMap (Text.parts ';') := by
  induction outline with
  | done => exact ⟨rfl, rfl⟩
  | character c plain rest ih =>
      rw [Outline.text, splitAt_other 0 c _ plain.1 plain.2, if_neg (by omega)]
      exact ⟨congrArg (c :: ·) ih.1, ih.2⟩
  | group inside rest ihInside ih =>
      obtain ⟨hcomment, halike⟩ := splitAt_inside inside 1 (']' :: rest.text) (by omega)
        (List.cons_ne_nil _ _)
      -- This bracket closes a group at the top, so it separates.
      rw [splitAt_closing, if_pos (separates_one rest.text), Int.sub_self] at hcomment halike
      rw [Outline.text, splitAt_open, Int.zero_add]
      refine ⟨hcomment.trans ih.1, ?_⟩
      rw [halike.parts_eq, Text.parts_join, ih.2, Outline.groups, List.flatMap_cons]

/-- A balanced description is split into comment and groups. It has an outline, and
    its comment is what is outside of the brackets in that. The parts of its property
    text are those of the groups, one group after the other. So no character is lost:
    those of the groups are all there in order, other than separators, and comment and
    groups have all characters but the brackets. -/
theorem split_balanced (description : Text) (h : Balanced description) :
    (∃ outline : Outline, outline.text = description)
      ∧ ∀ outline : Outline, outline.text = description →
        (split description).1 = outline.comment
        ∧ Text.parts ';' (split description).2 = outline.groups.flatMap (Text.parts ';')
        ∧ (split description).2.filter (fun c => c ≠ ';')
          = outline.groups.flatten.filter (fun c => c ≠ ';')
        ∧ ((split description).1 ++ outline.groups.flatten).Perm
          (description.filter fun c => c ≠ '[' && c ≠ ']') := by
  refine ⟨(balanced_iff description).1 h, fun outline htext => ?_⟩
  -- Splitting the text of an outline gives its parts; nothing else is needed about splitting.
  obtain ⟨hcomment, hparts⟩ := splitAt_text outline
  have hperm := outline.perm_flat
  rw [outline.flat_eq_filter] at hperm
  rw [htext] at hcomment hparts hperm
  rw [split_eq_splitAt description h]
  refine ⟨hcomment, hparts, ?_, hcomment ▸ hperm⟩
  rw [← Text.flatten_parts, hparts, Text.flatten_flatMap_parts]

theorem split_balanced_nested : Balanced "A[x=[a];b]c[[d]][;e]".toList
    ∧ (split "A[x=[a];b]c[[d]][;e]".toList).1 = "Ac".toList
    ∧ Text.parts ';' (split "A[x=[a];b]c[[d]][;e]".toList).2
      = ["x=a".toList, "b".toList, "d".toList, "e".toList] := by
  have hbalanced : Balanced "A[x=[a];b]c[[d]][;e]".toList := rfl
  -- The outline of the text: a nested group, a doubled one, and one that begins with a separator.
  have hsplit := (split_balanced _ hbalanced).2
    (.character 'A' (by decide)
      (.group
        (.character 'x' (by decide) (.character '=' (by decide)
          (.group (.character 'a' (by decide) .done)
            (.character ';' (by decide) (.character 'b' (by decide) .done)))))
        (.character 'c' (by decide)
          (.group (.group (.character 'd' (by decide) .done) .done)
            (.group (.character ';' (by decide) (.character 'e' (by decide) .done)) .done)))))
    rfl
  exact ⟨hbalanced, hsplit.1, hsplit.2.1⟩

end Description

end FileSignatures
