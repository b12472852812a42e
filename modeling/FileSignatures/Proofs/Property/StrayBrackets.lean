import FileSignatures.Proofs.Property.Outline

/-!
# Stray closing brackets

A closing bracket that closes nothing takes the depth below zero, and it stays there: each
one makes the outermost brackets of all that follows count for nothing. A text that closes
all that it opens consists of balanced stretches with stray brackets between them. Of the
stretch behind so many stray brackets, what is inside of at most as many pairs of brackets
is comment, and the groups of properties are the pairs inside of as many others
(`splitAt_withStrays`).

Without one of the stray brackets all stretches behind it are read one level further out.
This makes no difference if and only if the pairs at that level are redundant: no
character stands directly inside of one, and the groups inside of one do not run together
when they are all of it. Any other group behind the bracket gets lost to the comment or
changes its tokens (`split_without_stray`).

## Main definitions

* `Description.unclosed`: How many brackets are open after a text.
* `Outline.outside`: The characters inside of at most so many pairs of brackets.
* `Outline.directly`: The characters inside of exactly so many.
* `Outline.groupsAt`: The text in each pair of brackets inside of so many others.
* `Outline.Redundant`: The pairs of brackets at a level make no difference.
* `Description.withStrays`: Balanced stretches with stray brackets between them.
* `Description.commentFrom`: The comment of stretches behind so many stray brackets.
* `Description.tokensFrom`: Their tokens.
* `Description.RedundantFrom`: They could be read one level further out.

## Theorems

* `exists_withStrays`: A text that closes what it opens has balanced stretches.
* `splitAt_level`: What a stretch behind stray brackets is split into.
* `splitAt_withStrays`: What a text with stray brackets is split into.
* `redundantFrom_iff`: When one level further out makes no difference.
* `split_without_stray`: When a stray bracket makes no difference.
* `stray_hides_group`: It may hide a group.
-/

namespace FileSignatures

namespace Text

/-- How many parts a text has behind its first piece, which what is put in front joins. -/
def partsBehind (separator : Char) (t : Text) : Nat :=
  ((pieces separator t).tail.filter fun piece => !piece.isEmpty).length

theorem partsBehind_le (separator : Char) (t : Text) :
    partsBehind separator t ≤ (parts separator t).length :=
  ((List.tail_sublist _).filter _).length_le

/-- A separator in front leaves all of the parts behind it. -/
theorem length_parts_separator (separator : Char) (t : Text) :
    (parts separator (separator :: t)).length = (parts separator t).length
      ∧ partsBehind separator (separator :: t) = (parts separator t).length := by
  unfold parts partsBehind
  rw [pieces, if_pos rfl]
  exact ⟨rfl, rfl⟩

/-- Any other character makes sure that the first piece is a part. -/
theorem length_parts_cons (separator c : Char) (t : Text) (hc : c ≠ separator) :
    (parts separator (c :: t)).length = partsBehind separator t + 1
      ∧ partsBehind separator (c :: t) = partsBehind separator t := by
  obtain ⟨first, more, hpieces⟩ := pieces_eq_cons separator t
  unfold parts partsBehind
  rw [pieces_cons separator c t first more hc hpieces, hpieces]
  exact ⟨rfl, rfl⟩

/-- A text has no more parts than its two sides. Where they meet, the last part of the one
    may run into the first part of the other. -/
theorem length_parts_append_le (separator : Char) (s t : Text) :
    (parts separator (s ++ t)).length ≤ (parts separator s).length + (parts separator t).length
      ∧ partsBehind separator (s ++ t)
        ≤ partsBehind separator s + (parts separator t).length := by
  induction s with
  | nil => exact ⟨Nat.le_add_left _ _, (partsBehind_le separator t).trans (Nat.le_add_left _ _)⟩
  | cons c s ih =>
      rw [List.cons_append]
      -- Both counts are carried along: a character behind a separator begins a part of its own.
      by_cases hc : c = separator
      · subst hc
        obtain ⟨hboth, hbothBehind⟩ := length_parts_separator c (s ++ t)
        obtain ⟨hleft, hleftBehind⟩ := length_parts_separator c s
        omega
      · obtain ⟨hboth, hbothBehind⟩ := length_parts_cons separator c (s ++ t) hc
        obtain ⟨hleft, hleftBehind⟩ := length_parts_cons separator c s hc
        omega

/-- Texts that run together have no more parts than they have by themselves. -/
theorem length_parts_flatten_le (separator : Char) (texts : List Text) :
    (parts separator texts.flatten).length ≤ (texts.flatMap (parts separator)).length := by
  induction texts with
  | nil => exact Nat.le_refl 0
  | cons first rest ih =>
      obtain ⟨hfirst, -⟩ := length_parts_append_le separator first rest.flatten
      rw [List.flatten_cons, List.flatMap_cons, List.length_append]
      omega

end Text

/-- How many brackets are open after a text that begins inside of `count` ones. A closing
    bracket that closes nothing is passed over. -/
def Description.unclosed (count : Nat) : Text → Nat
  | [] => count
  | c :: rest =>
    if c = '[' then unclosed (count + 1) rest
    else if c = ']' then unclosed (count - 1) rest
    else unclosed count rest

namespace Outline

/-- The characters inside of at most `level` pairs of brackets. -/
def outside : Nat → Outline → Text
  | _, done => []
  | level, character c _ rest => c :: outside level rest
  | 0, group _ rest => outside 0 rest
  | level + 1, group inside rest => outside level inside ++ outside (level + 1) rest

/-- The characters inside of exactly `level` pairs of brackets. -/
def directly : Nat → Outline → Text
  | _, done => []
  | 0, character c _ rest => c :: directly 0 rest
  | level + 1, character _ _ rest => directly (level + 1) rest
  | 0, group _ rest => directly 0 rest
  | level + 1, group inside rest => directly level inside ++ directly (level + 1) rest

/-- The text in each pair of brackets that is inside of `level` others. -/
def groupsAt : Nat → Outline → List Text
  | _, done => []
  | level, character _ _ rest => groupsAt level rest
  | 0, group inside rest => inside.flat :: groupsAt 0 rest
  | level + 1, group inside rest => groupsAt level inside ++ groupsAt (level + 1) rest

/-- The tokens of these groups. -/
def tokensAt (level : Nat) (outline : Outline) : List Text :=
  (outline.groupsAt level).flatMap (Text.parts ';')

/-- The pairs of brackets inside of `level` others make no difference: no character stands
    directly inside of one, and the groups inside have the tokens of the group around
    them. -/
structure Redundant (level : Nat) (outline : Outline) : Prop where
  empty : outline.directly (level + 1) = []
  apart : outline.tokensAt (level + 1) = outline.tokensAt level

/-- One level further in there are also the characters at that level. -/
theorem length_outside (outline : Outline) (level : Nat) :
    (outline.outside (level + 1)).length
      = (outline.outside level).length + (outline.directly (level + 1)).length := by
  induction outline generalizing level with
  | done => rfl
  | character c plain rest ih =>
      rw [outside, outside, directly, List.length_cons, List.length_cons, ih]
      omega
  | group inside rest ihInside ih =>
      cases level with
      | zero =>
          -- What is outside of groups and what is directly at the lowest level are the same.
          have hinside : ∀ o : Outline, o.outside 0 = o.directly 0 := by
            intro o
            induction o with
            | done => rfl
            | character c plain rest ih => rw [outside, directly, ih]
            | group inside rest _ ih => exact ih
          rw [outside, outside, directly, List.length_append, List.length_append, ih, hinside]
          omega
      | succ level =>
          rw [outside, outside, directly, List.length_append, List.length_append,
            List.length_append, ihInside, ih]
          omega

/-- The others are there in the same order. -/
theorem outside_sublist (outline : Outline) (level : Nat) :
    (outline.outside level).Sublist (outline.outside (level + 1)) := by
  induction outline generalizing level with
  | done => exact .refl []
  | character c plain rest ih => exact (ih level).cons_cons c
  | group inside rest ihInside ih =>
      cases level with
      | zero => exact (ih 0).trans (List.sublist_append_right _ _)
      | succ level => exact (ihInside level).append (ih (level + 1))

/-- So if there are none at that level, there is no difference. -/
theorem outside_of_empty (outline : Outline) (level : Nat)
    (h : outline.directly (level + 1) = []) :
    outline.outside (level + 1) = outline.outside level := by
  refine ((outline.outside_sublist level).eq_of_length ?_).symm
  rw [outline.length_outside level, h, List.length_nil, Nat.add_zero]

/-- If no character is outside of brackets, the groups are all that there is. -/
theorem flat_of_empty (outline : Outline) (h : outline.directly 0 = []) :
    outline.flat = (outline.groupsAt 0).flatten := by
  induction outline with
  | done => rfl
  | character c plain rest => exact absurd h (List.cons_ne_nil _ _)
  | group inside rest _ ih => rw [flat, groupsAt, List.flatten_cons, ih h]

/-- Groups that are all that there is in one group have its tokens or more: what runs
    together there is separate here. -/
theorem length_tokensAt_le (outline : Outline) (level : Nat)
    (h : outline.directly (level + 1) = []) :
    (outline.tokensAt level).length ≤ (outline.tokensAt (level + 1)).length := by
  unfold tokensAt
  induction outline generalizing level with
  | done => exact Nat.le_refl 0
  | character c plain rest ih => exact ih level h
  | group inside rest ihInside ih =>
      obtain ⟨hinside, hrest⟩ := List.append_eq_nil_iff.1 h
      have hmore := ih level hrest
      -- The group is opened one level deeper, so its own tokens are counted by themselves.
      cases level with
      | zero =>
          have hflat := Text.length_parts_flatten_le ';' (inside.groupsAt 0)
          rw [← flat_of_empty inside hinside] at hflat
          rw [groupsAt, groupsAt, List.flatMap_cons, List.flatMap_append, List.length_append,
            List.length_append]
          omega
      | succ level =>
          have hless := ihInside level hinside
          rw [groupsAt, groupsAt, List.flatMap_append, List.flatMap_append, List.length_append,
            List.length_append]
          omega

end Outline

namespace Description

/-- Balanced stretches with stray brackets between them. -/
def withStrays (first : Outline) (more : List Outline) : Text :=
  first.text ++ more.flatMap fun outline => ']' :: outline.text

/-- The comment of stretches, each one level further in than the one before. -/
def commentFrom (level : Nat) : List Outline → Text
  | [] => []
  | outline :: rest => outline.outside level ++ commentFrom (level + 1) rest

/-- The tokens of stretches. -/
def tokensFrom (level : Nat) : List Outline → List Text
  | [] => []
  | outline :: rest => outline.tokensAt level ++ tokensFrom (level + 1) rest

/-- Each stretch could do without the pairs of brackets at its level. -/
def RedundantFrom (level : Nat) : List Outline → Prop
  | [] => True
  | outline :: rest => outline.Redundant level ∧ RedundantFrom (level + 1) rest

theorem unclosed_append (count : Nat) (s t : Text) :
    unclosed count (s ++ t) = unclosed (unclosed count s) t := by
  induction s generalizing count with
  | nil => rfl
  | cons c s ih =>
      rw [List.cons_append, unclosed, unclosed, ih, ih, ih]
      split
      · rfl
      · split <;> rfl

/-- Counting stray brackets as open from the beginning, a text that closes what it opens
    closes them all. -/
theorem exists_closes (count : Nat) (t : Text) (h : unclosed count t = 0) :
    ∃ strays, closes (count + strays) t = true := by
  induction t generalizing count with
  | nil => exact ⟨0, decide_eq_true h⟩
  | cons c t ih =>
      rw [unclosed] at h
      by_cases hopen : c = '['
      · rw [if_pos hopen] at h
        obtain ⟨strays, hcloses⟩ := ih (count + 1) h
        exact ⟨strays, by rw [closes, if_pos hopen, Nat.add_right_comm, hcloses]⟩
      · rw [if_neg hopen] at h
        by_cases hclose : c = ']'
        · rw [if_pos hclose] at h
          obtain ⟨strays, hcloses⟩ := ih (count - 1) h
          -- The bracket is a stray one if none is open.
          refine ⟨if count = 0 then strays + 1 else strays, ?_⟩
          rw [closes, if_neg hopen, if_pos hclose, Bool.and_eq_true, decide_eq_true_eq]
          split
          · rename_i hzero
            rw [hzero, Nat.zero_sub] at hcloses
            rw [hzero, ← Nat.add_assoc, Nat.add_sub_cancel]
            exact ⟨Nat.succ_pos _, hcloses⟩
          · have hcount : count + strays - 1 = count - 1 + strays := by omega
            rw [hcount]
            exact ⟨by omega, hcloses⟩
        · rw [if_neg hclose] at h
          obtain ⟨strays, hcloses⟩ := ih count h
          exact ⟨strays, by rw [closes, if_neg hopen, if_neg hclose, hcloses]⟩

/-- A text that closes what it opens consists of balanced stretches and stray brackets. -/
theorem exists_withStrays (t : Text) (h : unclosed 0 t = 0) :
    ∃ first more, t = withStrays first more := by
  obtain ⟨strays, hcloses⟩ := exists_closes 0 t h
  obtain ⟨first, more, -, ht⟩ := exists_outlines _ t hcloses
  exact ⟨first, more, ht⟩

/-- A closing bracket outside of groups leaves a separator at most. -/
theorem splitAt_stray (depth : Int) (rest : Text) :
    (splitAt depth (']' :: rest)).1 = (splitAt (depth - 1) rest).1
      ∧ Text.parts ';' (splitAt depth (']' :: rest)).2
        = Text.parts ';' (splitAt (depth - 1) rest).2 := by
  rw [splitAt_closing]
  refine ⟨rfl, ?_⟩
  split
  · exact Text.parts_join ';' [] _
  · rfl

/-- What a stretch behind `level` stray brackets is split into, by induction on its outline:
    a pair of brackets takes what is inside of it one level further out. -/
theorem splitAt_level (outline : Outline) (level : Nat) (rest : Text) :
    (splitAt (-level) (outline.text ++ rest)).1
        = outline.outside level ++ (splitAt (-level) rest).1
      ∧ Text.parts ';' (splitAt (-level) (outline.text ++ rest)).2
        = outline.tokensAt level ++ Text.parts ';' (splitAt (-level) rest).2 := by
  unfold Outline.tokensAt
  induction outline generalizing level rest with
  | done => exact ⟨rfl, rfl⟩
  | character c plain more ih =>
      rw [Outline.text, List.cons_append, splitAt_other _ c _ plain.1 plain.2, if_neg (by omega)]
      exact ⟨congrArg (c :: ·) (ih level rest).1, (ih level rest).2⟩
  | group inside more ihInside ih =>
      rw [Outline.text, List.cons_append, List.append_assoc, List.cons_append, splitAt_open]
      cases level with
      | zero =>
          -- A group at the top: its bracket separates.
          obtain ⟨hcomment, halike⟩ := splitAt_inside inside 1 (']' :: (more.text ++ rest))
            (by omega) (List.cons_ne_nil _ _)
          obtain ⟨hmore, hparts⟩ := ih 0 rest
          rw [splitAt_closing, if_pos (separates_one _), Int.sub_self] at hcomment halike
          rw [Int.natCast_zero, Int.neg_zero] at hmore hparts ⊢
          rw [Int.zero_add, halike.parts_eq, Text.parts_join, hparts, hcomment, hmore,
            Outline.groupsAt, List.flatMap_cons, List.append_assoc]
          exact ⟨rfl, rfl⟩
      | succ level =>
          have hinner : -((level + 1 : Nat) : Int) + 1 = -(level : Int) := by omega
          have houter : -(level : Int) - 1 = -((level + 1 : Nat) : Int) := by omega
          obtain ⟨hinside, htokens⟩ := ihInside level (']' :: (more.text ++ rest))
          obtain ⟨hstray, hsame⟩ := splitAt_stray (-(level : Int)) (more.text ++ rest)
          obtain ⟨hmore, hparts⟩ := ih (level + 1) rest
          rw [hinner, hinside, htokens, hstray, hsame, houter, hmore, hparts, Outline.outside,
            Outline.groupsAt, List.flatMap_append, List.append_assoc, List.append_assoc]
          exact ⟨rfl, rfl⟩

/-- What a text with stray brackets is split into, by induction on its stretches. -/
theorem splitAt_withStrays (level : Nat) (first : Outline) (more : List Outline) (rest : Text) :
    (splitAt (-level) (withStrays first more ++ rest)).1
        = commentFrom level (first :: more) ++ (splitAt (-(level + more.length : Nat)) rest).1
      ∧ Text.parts ';' (splitAt (-level) (withStrays first more ++ rest)).2
        = tokensFrom level (first :: more)
          ++ Text.parts ';' (splitAt (-(level + more.length : Nat)) rest).2 := by
  induction more generalizing level first with
  | nil =>
      obtain ⟨hcomment, htokens⟩ := splitAt_level first level rest
      unfold withStrays
      rw [List.flatMap_nil, List.append_nil, hcomment, htokens, commentFrom, commentFrom,
        tokensFrom, tokensFrom, List.append_nil, List.append_nil]
      exact ⟨rfl, rfl⟩
  | cons next more ih =>
      have htext : withStrays first (next :: more) ++ rest
          = first.text ++ (']' :: (withStrays next more ++ rest)) := by
        unfold withStrays
        rw [List.flatMap_cons, List.append_assoc, List.cons_append, List.cons_append]
      -- Each stray bracket leads one level further below zero.
      have hlevel : -(level : Int) - 1 = -((level + 1 : Nat) : Int) := by omega
      have hlength : level + 1 + more.length = level + (next :: more).length := by
        rw [List.length_cons]
        omega
      obtain ⟨hfirst, hparts⟩ := splitAt_level first level (']' :: (withStrays next more ++ rest))
      obtain ⟨hstray, hsame⟩ := splitAt_stray (-(level : Int)) (withStrays next more ++ rest)
      obtain ⟨hnext, htokens⟩ := ih (level + 1) next
      rw [htext, hfirst, hparts, hstray, hsame, hlevel, hnext, htokens, hlength]
      rw [commentFrom.eq_2 level, tokensFrom.eq_2 level, List.append_assoc, List.append_assoc]
      exact ⟨rfl, rfl⟩

/-- With nothing behind it this is all. -/
theorem splitAt_stretches (level : Nat) (first : Outline) (more : List Outline) :
    (splitAt (-level) (withStrays first more)).1 = commentFrom level (first :: more)
      ∧ Text.parts ';' (splitAt (-level) (withStrays first more)).2
        = tokensFrom level (first :: more) := by
  obtain ⟨hcomment, htokens⟩ := splitAt_withStrays level first more []
  rw [List.append_nil] at hcomment htokens
  exact ⟨hcomment.trans (List.append_nil _), htokens.trans (List.append_nil _)⟩

/-- Further in there is more comment, by induction on the stretches. -/
theorem length_commentFrom_le (level : Nat) (stretches : List Outline) :
    (commentFrom level stretches).length ≤ (commentFrom (level + 1) stretches).length := by
  induction stretches generalizing level with
  | nil => exact Nat.le_refl 0
  | cons outline rest ih =>
      have hrest := ih (level + 1)
      have hfirst := outline.length_outside level
      rw [commentFrom, commentFrom, List.length_append, List.length_append]
      omega

/-- The comment is the same if and only if that of every stretch is. -/
theorem commentFrom_cons_eq_iff (level : Nat) (outline : Outline) (rest : List Outline) :
    commentFrom level (outline :: rest) = commentFrom (level + 1) (outline :: rest) ↔
      outline.directly (level + 1) = []
        ∧ commentFrom (level + 1) rest = commentFrom (level + 2) rest := by
  have hfirst := outline.length_outside level
  have hrest := length_commentFrom_le (level + 1) rest
  rw [commentFrom, commentFrom]
  constructor
  · intro h
    have hlength := congrArg List.length h
    rw [List.length_append, List.length_append] at hlength
    -- Neither side can be longer, so equal lengths leave nothing between them.
    have hempty : outline.directly (level + 1) = [] := List.eq_nil_of_length_eq_zero (by omega)
    rw [outline.outside_of_empty level hempty] at h
    exact ⟨hempty, List.append_cancel_left h⟩
  · rintro ⟨hempty, hsame⟩
    rw [outline.outside_of_empty level hempty, hsame]

/-- With the same comment there are more tokens further in, if anything. -/
theorem length_tokensFrom_le (level : Nat) (stretches : List Outline)
    (h : commentFrom level stretches = commentFrom (level + 1) stretches) :
    (tokensFrom level stretches).length ≤ (tokensFrom (level + 1) stretches).length := by
  induction stretches generalizing level with
  | nil => exact Nat.le_refl 0
  | cons outline rest ih =>
      obtain ⟨hempty, hsame⟩ := (commentFrom_cons_eq_iff level outline rest).1 h
      have hrest := ih (level + 1) hsame
      have hfirst := outline.length_tokensAt_le level hempty
      rw [tokensFrom, tokensFrom, List.length_append, List.length_append]
      omega

/-- When one level further out makes no difference, by induction on the stretches. -/
theorem redundantFrom_iff (level : Nat) (stretches : List Outline) :
    RedundantFrom level stretches ↔
      commentFrom level stretches = commentFrom (level + 1) stretches
        ∧ tokensFrom level stretches = tokensFrom (level + 1) stretches := by
  induction stretches generalizing level with
  | nil => exact iff_of_true trivial ⟨rfl, rfl⟩
  | cons outline rest ih =>
      rw [RedundantFrom, ih (level + 1), commentFrom_cons_eq_iff, tokensFrom, tokensFrom]
      constructor
      · rintro ⟨hown, hcomment, htokens⟩
        exact ⟨⟨hown.empty, hcomment⟩, by rw [hown.apart, htokens]⟩
      · rintro ⟨⟨hempty, hcomment⟩, htokens⟩
        -- No stretch has fewer tokens further in, so they are the same in each.
        have hfirst := outline.length_tokensAt_le level hempty
        have hrest := length_tokensFrom_le (level + 1) rest hcomment
        have hlength := congrArg List.length htokens
        rw [List.length_append, List.length_append] at hlength
        obtain ⟨hown, hothers⟩ := List.append_inj htokens (by omega)
        exact ⟨⟨hempty, hown.symm⟩, hcomment, hothers⟩

/-- The first group of a description is in front of any stray bracket, so it does not need
    one of them. -/
theorem hasGroup_without_stray (before after : Text) (hbefore : unclosed 0 before = 0)
    (hgroup : hasGroup (before ++ ']' :: after) = true) : hasGroup (before ++ after) = true := by
  obtain ⟨front, behind, htext, hopen, hclose, -⟩ := (hasGroup_iff _).1 hgroup
  obtain ⟨mid, hmid, hrest⟩ | ⟨mid, hmid, hrest⟩ := List.append_eq_append_iff.1 htext
  · -- The bracket would be in front of all groups.
    cases mid with
    | nil => exact absurd (List.cons.inj hrest).1 (by decide)
    | cons c mid =>
        obtain ⟨rfl, -⟩ := List.cons.inj hrest
        exact absurd (hmid ▸ List.mem_append_right before List.mem_cons_self) hclose
  · cases mid with
    | nil => exact absurd (List.cons.inj hrest).1 (by decide)
    | cons c mid =>
        obtain ⟨rfl, -⟩ := List.cons.inj hrest
        -- The opening bracket gets closed before the text of `before` ends.
        rw [hmid, unclosed_append, unclosed, if_pos rfl] at hbefore
        obtain ⟨strays, hcloses⟩ := exists_closes _ mid hbefore
        have hmem := mem_of_closes _ mid (by omega) hcloses
        refine (hasGroup_iff _).2 ⟨front, mid ++ after, ?_, hopen, hclose, ?_⟩
        · rw [hmid, List.append_assoc, List.cons_append]
        · exact List.mem_append_left after hmem

/-- With a group, and all brackets closed that are opened, a stray bracket may go if and only
    if the pairs of brackets behind it that are then one level further out are redundant. -/
theorem split_without_stray (before after : Text) (hbefore : unclosed 0 before = 0)
    (hclosed : unclosed 0 (before ++ ']' :: after) = 0)
    (hgroup : hasGroup (before ++ ']' :: after) = true) :
    (∃ first more, before = withStrays first more)
      ∧ (∃ next rest, after = withStrays next rest)
      ∧ ∀ first more next rest, before = withStrays first more → after = withStrays next rest →
        (split (before ++ ']' :: after)).1
            = commentFrom 0 (first :: more) ++ commentFrom (more.length + 1) (next :: rest)
          ∧ Text.parts ';' (split (before ++ ']' :: after)).2
            = tokensFrom 0 (first :: more) ++ tokensFrom (more.length + 1) (next :: rest)
          ∧ ((split (before ++ after)).1 = (split (before ++ ']' :: after)).1
              ∧ Text.parts ';' (split (before ++ after)).2
                = Text.parts ';' (split (before ++ ']' :: after)).2
            ↔ RedundantFrom more.length (next :: rest)) := by
  have hshort := hasGroup_without_stray before after hbefore hgroup
  have hafter : unclosed 0 after = 0 := by
    rw [unclosed_append, hbefore, unclosed, if_neg (by decide), if_pos rfl] at hclosed
    exact hclosed
  refine ⟨exists_withStrays before hbefore, exists_withStrays after hafter, ?_⟩
  rintro first more next rest rfl rfl
  -- Up to the bracket both texts are the same; behind it the levels differ by one.
  obtain ⟨hlong, hlongTokens⟩ := splitAt_withStrays 0 first more (']' :: withStrays next rest)
  obtain ⟨hstray, hstrayTokens⟩ := splitAt_stray (-(more.length : Int)) (withStrays next rest)
  obtain ⟨hfurther, hfurtherTokens⟩ := splitAt_stretches (more.length + 1) next rest
  obtain ⟨hleft, hleftTokens⟩ := splitAt_withStrays 0 first more (withStrays next rest)
  obtain ⟨hnext, hnextTokens⟩ := splitAt_stretches more.length next rest
  have hlevel : -(more.length : Int) - 1 = -((more.length + 1 : Nat) : Int) := by omega
  rw [Int.natCast_zero, Int.neg_zero, Nat.zero_add] at hlong hlongTokens hleft hleftTokens
  rw [hstray, hlevel, hfurther] at hlong
  rw [hstrayTokens, hlevel, hfurtherTokens] at hlongTokens
  rw [hnext] at hleft
  rw [hnextTokens] at hleftTokens
  unfold split
  rw [if_pos hgroup, if_pos hshort, hlong, hlongTokens, hleft, hleftTokens]
  refine ⟨rfl, rfl, ?_⟩
  rw [List.append_right_inj, List.append_right_inj, redundantFrom_iff]

/-- It may go in front of a group that has its brackets twice, but not in front of one that
    has them once. -/
theorem split_without_stray_samples :
    unclosed 0 "[a]".toList = 0 ∧ unclosed 0 "[a]][[b]]".toList = 0
      ∧ hasGroup "[a]][[b]]".toList = true
      ∧ (split "[a][[b]]".toList).1 = (split "[a]][[b]]".toList).1
      ∧ Text.parts ';' (split "[a][[b]]".toList).2 = Text.parts ';' (split "[a]][[b]]".toList).2
      ∧ unclosed 0 "[a]][b]".toList = 0 ∧ hasGroup "[a]][b]".toList = true
      ∧ ¬((split "[a][b]".toList).1 = (split "[a]][b]".toList).1
        ∧ Text.parts ';' (split "[a][b]".toList).2
          = Text.parts ';' (split "[a]][b]".toList).2) := by
  obtain ⟨-, -, htwice⟩ := split_without_stray "[a]".toList "[[b]]".toList (by decide)
    (by decide) (by decide)
  obtain ⟨-, -, honce⟩ := split_without_stray "[a]".toList "[b]".toList (by decide) (by decide)
    (by decide)
  -- The same front, and behind it a group in a group or a single one.
  let front : Outline := .group (.character 'a' (by decide) .done) .done
  let single : Outline := .group (.character 'b' (by decide) .done) .done
  obtain ⟨-, -, hsame⟩ := htwice front [] (.group single .done) [] rfl rfl
  obtain ⟨-, -, hdifferent⟩ := honce front [] single [] rfl rfl
  obtain ⟨hcomment, htokens⟩ := hsame.2 ⟨⟨rfl, rfl⟩, trivial⟩
  refine ⟨by decide, by decide, by decide, hcomment, htokens, by decide, by decide, fun h => ?_⟩
  exact absurd (hdifferent.1 h).1.empty (List.cons_ne_nil _ _)

/-- The group behind a stray bracket gets lost to the comment. -/
theorem stray_hides_group :
    unclosed 0 "A [x=1]".toList = 0 ∧ unclosed 0 "A [x=1]] B [y=2]".toList = 0
      ∧ hasGroup "A [x=1]] B [y=2]".toList = true
      ∧ (split "A [x=1] B [y=2]".toList).1 = "A  B ".toList
      ∧ (split "A [x=1]] B [y=2]".toList).1 = "A  B y=2".toList
      ∧ Text.parts ';' (split "A [x=1] B [y=2]".toList).2 = ["x=1".toList, "y=2".toList]
      ∧ Text.parts ';' (split "A [x=1]] B [y=2]".toList).2 = ["x=1".toList] := by
  decide +kernel

end Description

end FileSignatures
