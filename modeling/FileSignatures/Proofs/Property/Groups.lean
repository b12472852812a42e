import FileSignatures.Proofs.Property.Tokens
import FileSignatures.Proofs.Text.Splitting

/-!
# Groups of properties

A description is split into comment and properties by counting brackets. In a
balanced description, whose brackets close what they open, the count is back at zero
at the end, so whatever is appended is split as if it stood alone
(`splitAt_append`). Its property text ends with a separator, so an appended group
does not run into the last property either. A balanced description followed by one
more group therefore has its own properties, and after them those of the group
(`ofDescription_append_group`).

Brackets never get into the property text (`notMem_splitAt`).

## Main definitions

* `Description.closes`: A text closes so many brackets and what it opens itself.
* `Description.Balanced`: The brackets of a description close what they open.

## Theorems

* `splitAt_append`: What follows a balanced text is split by itself.
* `getLast?_splitAt`: The properties of a balanced text end with a separator.
* `hasGroup_iff`: When a description has a group.
* `hasGroup_append`: A group stays one, whatever follows.
* `splitAt_plain`, `splitAt_comment`: A text without brackets is a part of the properties
  or of the comment.
* `notMem_splitAt`: The property text holds no brackets.
* `split_group`: A description with a group is split into what is outside and inside.
* `split_eq_splitAt`: A balanced description is split at its brackets, if it has any.
* `getLast?_split`: Its property text ends with a separator, or there is none.
* `addTokens_append`: Tokens are added one after the other.
* `ofDescription_append_group`: One more group is extracted last.
-/

namespace FileSignatures

/-- Whether a text closes `depth` brackets besides those that it opens itself, and
    no more at any place. -/
def Description.closes (depth : Nat) : Text → Bool
  | [] => depth = 0
  | c :: rest =>
    if c = '[' then closes (depth + 1) rest
    else if c = ']' then 0 < depth && closes (depth - 1) rest
    else closes depth rest

/-- Whether a closing bracket inside of `depth` others becomes a separator. -/
def Description.separates (depth : Int) : Text → Bool
  | [] => true
  | next :: _ => next = ';' || depth = 1

/-- The brackets of a description close what they open. -/
def Description.Balanced (description : Text) : Prop :=
  Description.closes 0 description = true

namespace Description

/-- A bracket that is open is closed somewhere. -/
theorem mem_of_closes (depth : Nat) (t : Text) (hdepth : 0 < depth)
    (h : closes depth t = true) : ']' ∈ t := by
  induction t generalizing depth with
  | nil =>
      simp only [closes, decide_eq_true_eq] at h
      omega
  | cons c rest ih =>
      rw [closes] at h
      by_cases hopen : c = '['
      · rw [if_pos hopen] at h
        exact List.mem_cons_of_mem _ (ih (depth + 1) (by omega) h)
      · rw [if_neg hopen] at h
        by_cases hclose : c = ']'
        · rw [hclose]
          exact List.mem_cons_self
        · rw [if_neg hclose] at h
          exact List.mem_cons_of_mem _ (ih depth hdepth h)

/-- Nothing is closed in front of the first bracket that is opened. -/
theorem closes_before (before rest : Text) (hbefore : '[' ∉ before)
    (h : closes 0 (before ++ rest) = true) : ']' ∉ before ∧ closes 0 rest = true := by
  induction before with
  | nil => exact ⟨List.not_mem_nil, h⟩
  | cons c before ih =>
      have hopen : c ≠ '[' := fun heq => hbefore (heq ▸ List.mem_cons_self)
      rw [List.cons_append, closes, if_neg hopen] at h
      by_cases hclose : c = ']'
      · -- There would be nothing to close.
        rw [if_pos hclose] at h
        exact absurd h (by simp only [Nat.lt_irrefl, decide_false, Bool.false_and,
          Bool.false_eq_true, not_false_eq_true])
      · rw [if_neg hclose] at h
        rcases ih (fun hmem => hbefore (List.mem_cons_of_mem _ hmem)) h with ⟨hplain, hrest⟩
        refine ⟨fun hmem => ?_, hrest⟩
        rcases List.mem_cons.1 hmem with heq | hmem
        · exact hclose heq.symm
        · exact hplain hmem

/-- A balanced description that opens no bracket closes none. -/
theorem ne_bracket_of_balanced (description : Text) (h : Balanced description)
    (hopen : '[' ∉ description) : ∀ c ∈ description, c ≠ '[' ∧ c ≠ ']' := by
  have hclose := closes_before description [] hopen (by rw [List.append_nil]; exact h)
  intro c hc
  exact ⟨fun heq => hopen (heq ▸ hc), fun heq => hclose.1 (heq ▸ hc)⟩

/-- Only the first opening bracket of a description counts. -/
theorem hasGroup_append_open (before after : Text) (hbefore : '[' ∉ before) :
    hasGroup (before ++ '[' :: after) = true ↔ ']' ∉ before ∧ ']' ∈ after := by
  have hstop : ∀ c ∈ before, decide (c ≠ '[') = true := fun c hc =>
    decide_eq_true fun heq => hbefore (heq ▸ hc)
  have hdistinct : ']' ≠ '[' := by decide
  unfold hasGroup
  rw [List.takeWhile_append_of_pos hstop, List.dropWhile_append_of_pos hstop,
    List.takeWhile_cons_of_neg (by decide), List.dropWhile_cons_of_neg (by decide),
    List.append_nil]
  simp only [Bool.and_eq_true, Bool.not_eq_true', List.contains_iff_mem, List.mem_cons,
    hdistinct, false_or, Bool.eq_false_iff, ne_eq]
  exact and_comm

/-- A description has a group if and only if its first opening bracket comes before any
    closing one, and one follows. -/
theorem hasGroup_iff (description : Text) : hasGroup description = true ↔
    ∃ before after, description = before ++ '[' :: after
      ∧ '[' ∉ before ∧ ']' ∉ before ∧ ']' ∈ after := by
  constructor
  · intro h
    -- Without an opening bracket nothing is left to look at.
    have hopen : '[' ∈ description := by
      by_contra hmem
      have hall : ∀ c ∈ description, decide (c ≠ '[') = true := fun c hc =>
        decide_eq_true fun heq => hmem (heq ▸ hc)
      unfold hasGroup at h
      rw [List.dropWhile_eq_nil_iff.2 hall] at h
      exact absurd h Bool.false_ne_true
    obtain ⟨before, after, rfl, hbefore⟩ := List.eq_append_cons_of_mem hopen
    exact ⟨before, after, rfl, hbefore, (hasGroup_append_open before after hbefore).1 h⟩
  · rintro ⟨before, after, rfl, hbefore, hgroup⟩
    exact (hasGroup_append_open before after hbefore).2 hgroup

/-- A balanced description with a bracket has a group, whatever follows. -/
theorem hasGroup_append (description rest : Text) (hbalanced : Balanced description)
    (hgroup : '[' ∈ description) : hasGroup (description ++ rest) = true := by
  rcases List.eq_append_cons_of_mem hgroup with ⟨before, after, rfl, hbefore⟩
  rcases closes_before before _ hbefore hbalanced with ⟨hclose, hafter⟩
  rw [closes, if_pos rfl] at hafter
  have hmem := mem_of_closes 1 after (by omega) hafter
  rw [List.append_assoc, List.cons_append]
  exact (hasGroup_append_open before _ hbefore).2 ⟨hclose, List.mem_append_left rest hmem⟩

theorem splitAt_open (depth : Int) (rest : Text) :
    splitAt depth ('[' :: rest) = splitAt (depth + 1) rest := rfl

/-- A closing bracket is one less, and a separator or nothing. -/
theorem splitAt_closing (depth : Int) (rest : Text) :
    splitAt depth (']' :: rest) = ((splitAt (depth - 1) rest).1,
      if separates depth rest then ';' :: (splitAt (depth - 1) rest).2
      else (splitAt (depth - 1) rest).2) := by
  cases rest <;> rfl

/-- The last bracket that is open separates, whatever follows. -/
theorem separates_one (rest : Text) : separates 1 rest = true := by
  cases rest with
  | nil => rfl
  | cons next more => exact Bool.or_true _

theorem splitAt_other (depth : Int) (c : Char) (rest : Text) (hopen : c ≠ '[')
    (hclose : c ≠ ']') : splitAt depth (c :: rest)
      = if 0 < depth then ((splitAt depth rest).1, c :: (splitAt depth rest).2)
        else (c :: (splitAt depth rest).1, (splitAt depth rest).2) := by
  rw [splitAt]
  · exact hopen
  · exact hclose

/-- What follows a text that closes all of its brackets is split by itself. Of the
    closing brackets only the last one might be followed by something else than
    before, and that one separates in any case. -/
theorem splitAt_append (depth : Nat) (t rest : Text) (h : closes depth t = true) :
    splitAt depth (t ++ rest) = ((splitAt depth t).1 ++ (splitAt 0 rest).1,
      (splitAt depth t).2 ++ (splitAt 0 rest).2) := by
  induction t generalizing depth with
  | nil =>
      simp only [closes, decide_eq_true_eq] at h
      rw [h]
      rfl
  | cons c t ih =>
      rw [closes] at h
      rw [List.cons_append]
      by_cases hopen : c = '['
      · rw [if_pos hopen] at h
        rw [hopen, splitAt_open, splitAt_open]
        exact ih (depth + 1) h
      · rw [if_neg hopen] at h
        by_cases hclose : c = ']'
        · rw [if_pos hclose, Bool.and_eq_true, decide_eq_true_eq] at h
          have hdepth : (depth : Int) - 1 = ((depth - 1 : Nat) : Int) := by omega
          have hseparates : separates depth (t ++ rest) = separates depth t := by
            cases t with
            | nil =>
                -- The last bracket closes the last group.
                have hlast := h.2
                simp only [closes, decide_eq_true_eq] at hlast
                have hone : (depth : Int) = 1 := by omega
                rw [hone, List.nil_append, separates_one, separates_one]
            | cons next more => rfl
          rw [hclose, splitAt_closing, splitAt_closing, hseparates, hdepth, ih (depth - 1) h.2]
          split <;> rfl
        · rw [if_neg hclose] at h
          rw [splitAt_other _ c _ hopen hclose, splitAt_other _ c _ hopen hclose, ih depth h]
          split <;> rfl

/-- The property text of a text that closes all of its brackets ends with a
    separator, or there is none. -/
theorem getLast?_splitAt (depth : Nat) (t : Text) (h : closes depth t = true) :
    (depth = 0 ∧ (splitAt depth t).2 = []) ∨ (splitAt depth t).2.getLast? = some ';' := by
  have hcons : ∀ (c : Char) (s : Text), s.getLast? = some ';' →
      List.getLast? (c :: s) = some ';' := by
    intro c s hs
    rw [List.getLast?_cons, hs]
    rfl
  induction t generalizing depth with
  | nil =>
      simp only [closes, decide_eq_true_eq] at h
      exact Or.inl ⟨h, rfl⟩
  | cons c t ih =>
      rw [closes] at h
      by_cases hopen : c = '['
      · rw [if_pos hopen] at h
        rw [hopen, splitAt_open]
        rcases ih (depth + 1) h with ⟨hzero, -⟩ | hlast
        · omega
        · exact Or.inr hlast
      · rw [if_neg hopen] at h
        by_cases hclose : c = ']'
        · rw [if_pos hclose, Bool.and_eq_true, decide_eq_true_eq] at h
          have hdepth : (depth : Int) - 1 = ((depth - 1 : Nat) : Int) := by omega
          rw [hclose, splitAt_closing, hdepth]
          rcases ih (depth - 1) h.2 with ⟨hzero, hnil⟩ | hlast
          · -- This bracket ends a group, so it separates.
            have hone : (depth : Int) = 1 := by omega
            rw [hone, if_pos (separates_one t), hnil]
            exact Or.inr rfl
          · split
            · exact Or.inr (hcons _ _ hlast)
            · exact Or.inr hlast
        · rw [if_neg hclose] at h
          rw [splitAt_other _ c _ hopen hclose]
          rcases ih depth h with ⟨hzero, hnil⟩ | hlast
          · rw [hzero] at hnil ⊢
            exact Or.inl ⟨rfl, hnil⟩
          · split
            · exact Or.inr (hcons _ _ hlast)
            · exact Or.inr hlast

/-- Inside of brackets a text without brackets is a part of the properties. -/
theorem splitAt_plain (depth : Int) (t rest : Text) (hdepth : 0 < depth)
    (h : ∀ c ∈ t, c ≠ '[' ∧ c ≠ ']') :
    splitAt depth (t ++ rest) = ((splitAt depth rest).1, t ++ (splitAt depth rest).2) := by
  induction t with
  | nil => rfl
  | cons c t ih =>
      have hc := h c List.mem_cons_self
      rw [List.cons_append, splitAt_other depth c _ hc.1 hc.2, if_pos hdepth,
        ih (fun d hd => h d (List.mem_cons_of_mem _ hd)), List.cons_append]

/-- Outside of brackets a text without brackets is a part of the comment. -/
theorem splitAt_comment (t rest : Text) (h : ∀ c ∈ t, c ≠ '[' ∧ c ≠ ']') :
    splitAt 0 (t ++ rest) = (t ++ (splitAt 0 rest).1, (splitAt 0 rest).2) := by
  induction t with
  | nil => rfl
  | cons c t ih =>
      have hc := h c List.mem_cons_self
      rw [List.cons_append, splitAt_other 0 c _ hc.1 hc.2, if_neg (by omega),
        ih (fun d hd => h d (List.mem_cons_of_mem _ hd)), List.cons_append]

/-- Characters other than brackets close nothing. -/
theorem closes_plain (depth : Nat) (t rest : Text) (h : ∀ c ∈ t, c ≠ '[' ∧ c ≠ ']') :
    closes depth (t ++ rest) = closes depth rest := by
  induction t with
  | nil => rfl
  | cons c t ih =>
      have hc := h c List.mem_cons_self
      rw [List.cons_append, closes, if_neg hc.1, if_neg hc.2]
      exact ih fun d hd => h d (List.mem_cons_of_mem _ hd)

/-- A text that opens nothing has no properties. What it closes may leave separators
    behind. -/
theorem eq_separator_of_mem_splitAt (depth : Int) (t : Text) (hdepth : depth ≤ 0)
    (h : '[' ∉ t) : ∀ c ∈ (splitAt depth t).2, c = ';' := by
  induction t generalizing depth with
  | nil => exact fun c hc => absurd hc List.not_mem_nil
  | cons d t ih =>
      have hopen : d ≠ '[' := fun heq => h (heq ▸ List.mem_cons_self)
      have hrest : '[' ∉ t := fun hmem => h (List.mem_cons_of_mem _ hmem)
      intro c hc
      -- A closing bracket may leave a separator; everything else is comment at this level.
      by_cases hclose : d = ']'
      · rw [hclose, splitAt_closing] at hc
        split at hc
        · rcases List.mem_cons.1 hc with rfl | hc
          · rfl
          · exact ih (depth - 1) (by omega) hrest c hc
        · exact ih (depth - 1) (by omega) hrest c hc
      · rw [splitAt_other depth d t hopen hclose, if_neg (by omega)] at hc
        exact ih depth hdepth hrest c hc

/-- What has no special characters has no brackets. -/
theorem ne_bracket_of_notMem (t : Text) (h : ∀ c ∈ t, c ∉ ['[', ']', ';']) :
    ∀ c ∈ t, c ≠ '[' ∧ c ≠ ']' := fun c hc =>
  ⟨fun heq => h c hc (by rw [heq]; decide), fun heq => h c hc (by rw [heq]; decide)⟩

/-- The property text holds no brackets. -/
theorem notMem_splitAt (depth : Int) (t : Text) (c : Char) (h : c ∈ (splitAt depth t).2) :
    c ≠ '[' ∧ c ≠ ']' := by
  induction t generalizing depth with
  | nil => exact absurd h List.not_mem_nil
  | cons d t ih =>
      by_cases hopen : d = '['
      · rw [hopen, splitAt_open] at h
        exact ih _ h
      · by_cases hclose : d = ']'
        · -- A closing bracket leaves a separator at most.
          rw [hclose, splitAt_closing] at h
          split at h
          · rcases List.mem_cons.1 h with rfl | h
            · exact ⟨by decide, by decide⟩
            · exact ih _ h
          · exact ih _ h
        · rw [splitAt_other depth d t hopen hclose] at h
          split at h
          · rcases List.mem_cons.1 h with rfl | h
            · exact ⟨hopen, hclose⟩
            · exact ih _ h
          · exact ih _ h

theorem notMem_split (description : Text) (c : Char) (h : c ∈ (split description).2) :
    c ≠ '[' ∧ c ≠ ']' := by
  unfold split at h
  split at h
  · exact notMem_splitAt 0 description c h
  · exact absurd h List.not_mem_nil

/-- A description with a group is split into what is outside of it and what is
    inside. -/
theorem split_group (before body after : Text) (hbefore : ∀ c ∈ before, c ≠ '[' ∧ c ≠ ']')
    (hbody : ∀ c ∈ body, c ≠ '[' ∧ c ≠ ']') :
    split (before ++ ('[' :: body ++ ']' :: after))
      = (before ++ (splitAt 0 after).1, body ++ ';' :: (splitAt 0 after).2) := by
  -- Up to the end of the group the description is balanced, so the rest is split by itself.
  have hbalanced : Balanced (before ++ ('[' :: (body ++ [']']))) := by
    unfold Balanced
    rw [closes_plain 0 before _ hbefore, closes, if_pos rfl, closes_plain 1 body _ hbody]
    rfl
  have hgroup : splitAt 0 (before ++ ('[' :: (body ++ [']']))) = (before, body ++ [';']) := by
    rw [splitAt_comment before _ hbefore, splitAt_open, splitAt_plain _ body _ (by omega) hbody]
    simp only [splitAt, List.append_nil, if_true]
  have htext : before ++ ('[' :: body ++ ']' :: after)
      = before ++ ('[' :: (body ++ [']'])) ++ after := by
    simp only [List.append_assoc, List.cons_append, List.nil_append]
  rw [htext]
  unfold split
  rw [if_pos (hasGroup_append _ after hbalanced (List.mem_append_right before List.mem_cons_self))]
  have happend := splitAt_append 0 _ after hbalanced
  rw [Int.natCast_zero, hgroup] at happend
  refine happend.trans ?_
  rw [List.append_assoc, List.singleton_append]

/-- A balanced description is split at its brackets, if it has any. -/
theorem split_eq_splitAt (description : Text) (h : Balanced description) :
    split description = splitAt 0 description := by
  unfold split
  split
  · rfl
  · rename_i hgroup
    -- A balanced text with an opening bracket has a group.
    have hopen : '[' ∉ description := by
      intro hmem
      have hown := hasGroup_append description [] h hmem
      rw [List.append_nil] at hown
      exact hgroup hown
    have hplain := splitAt_comment description [] (ne_bracket_of_balanced description h hopen)
    rw [List.append_nil] at hplain
    rw [hplain]
    simp only [splitAt, List.append_nil]

/-- Splitting goes through a balanced description and one more group. -/
theorem split_append_group (description body : Text) (hbalanced : Balanced description)
    (hbody : ∀ c ∈ body, c ≠ '[' ∧ c ≠ ']') :
    split (description ++ '[' :: (body ++ [']']))
      = ((split description).1, (split description).2 ++ (body ++ [';'])) := by
  -- The description has groups of its own, or this is the first one.
  have hgroup : hasGroup (description ++ '[' :: (body ++ [']'])) = true := by
    by_cases hown : '[' ∈ description
    · exact hasGroup_append description _ hbalanced hown
    · have hclose : ']' ∉ description := fun hmem =>
        (ne_bracket_of_balanced description hbalanced hown _ hmem).2 rfl
      exact (hasGroup_append_open description _ hown).2
        ⟨hclose, List.mem_append_right body List.mem_cons_self⟩
  have hadded : splitAt 0 ('[' :: (body ++ [']'])) = ([], body ++ [';']) := by
    rw [splitAt_open, splitAt_plain _ body [']'] (by omega) hbody]
    rfl
  have hsplit := splitAt_append 0 description ('[' :: (body ++ [']'])) hbalanced
  rw [hadded, List.append_nil] at hsplit
  rw [split_eq_splitAt description hbalanced, split, if_pos hgroup]
  exact hsplit

/-- The property text of a balanced description ends with a separator, or there is none. -/
theorem getLast?_split (description : Text) (h : Balanced description) :
    (split description).2 = [] ∨ (split description).2.getLast? = some ';' := by
  rw [split_eq_splitAt description h]
  rcases getLast?_splitAt 0 description h with ⟨-, hnil⟩ | hlast
  · exact Or.inl hnil
  · exact Or.inr hlast

end Description

namespace Property

theorem addTokens_append (evaluator : Evaluator) (map : PropertyMap) (first second : List Text) :
    addTokens evaluator map (first ++ second)
      = addTokens evaluator map first >>= fun next => addTokens evaluator next second := by
  induction first generalizing map with
  | nil => rfl
  | cons token rest ih =>
      rw [List.cons_append, addTokens, addTokens]
      cases ofToken? token with
      | none => exact ih map
      | some property =>
          simp only
          cases evaluate evaluator property.1 property.2 with
          | error error => rfl
          | ok result => exact ih _

/-- Separators alone are no properties. -/
theorem addTokens_separators (evaluator : Evaluator) (map : PropertyMap) (t : Text)
    (h : ∀ c ∈ t, c = ';') : addTokens evaluator map (Text.pieces ';' t) = .ok map := by
  induction t with
  | nil => rfl
  | cons c t ih =>
      rw [h c List.mem_cons_self, Text.pieces, if_pos rfl]
      exact ih fun d hd => h d (List.mem_cons_of_mem _ hd)

/-- A property text that ends with a separator, or is empty, does not run into what
    follows it. -/
theorem addTokens_pieces_append (evaluator : Evaluator) (map : PropertyMap) (s t : Text)
    (h : s = [] ∨ s.getLast? = some ';') :
    addTokens evaluator map (Text.pieces ';' (s ++ t))
      = addTokens evaluator map (Text.pieces ';' s) >>= fun next =>
        addTokens evaluator next (Text.pieces ';' t) := by
  rcases h with rfl | hlast
  · rfl
  · rcases List.getLast?_eq_some_iff.1 hlast with ⟨before, rfl⟩
    -- The last separator only adds an empty token, on both sides.
    have hempty : Text.pieces ';' [] = [[]] := rfl
    rw [List.append_assoc, List.singleton_append, pieces_join, pieces_join, hempty,
      ← addTokens_append, List.append_assoc, addTokens_append, addTokens_append]
    cases addTokens evaluator map (Text.pieces ';' before) with
    | error error => rfl
    | ok next => rfl

end Property

/-- A description is extracted in two steps: its tokens are added one after the
    other, and then its comment. -/
theorem ofDescription_eq (evaluator : Evaluator) (description : Text) :
    Extraction.ofDescription evaluator description
      = Property.addTokens evaluator .empty (Description.tokens description) >>= fun map =>
        .ok ⟨(Description.split description).1,
          map.insert PropertyKey.comment (Description.split description).1⟩ := by
  unfold Extraction.ofDescription Description.tokens
  simp only
  cases Property.addTokens evaluator .empty (Text.pieces ';' (Description.split description).2) with
  | error error => rfl
  | ok map => rfl

/-- A group after a balanced description is extracted last, and the comment stays
    the same. -/
theorem ofDescription_append_group (evaluator : Evaluator) (description body : Text)
    (hbalanced : Description.Balanced description) (hbody : ∀ c ∈ body, c ∉ ['[', ']', ';']) :
    Extraction.ofDescription evaluator (description ++ '[' :: (body ++ [']']))
      = Property.addTokens evaluator .empty (Description.tokens description) >>= fun map =>
        Property.addTokens evaluator map [body] >>= fun next =>
          .ok ⟨(Description.split description).1,
            next.insert PropertyKey.comment (Description.split description).1⟩ := by
  have hplain := Description.ne_bracket_of_notMem body hbody
  have hseparator : ';' ∉ body := fun hmem => hbody _ hmem (by decide)
  have hpieces : Text.pieces ';' (body ++ [';']) = [body, []] :=
    pieces_append_separator ';' body [] hseparator
  have hends := Description.getLast?_split description hbalanced
  -- The group ends with a separator, and the empty token behind it adds nothing.
  have htwo : ∀ map, Property.addTokens evaluator map [body, []]
      = Property.addTokens evaluator map [body] := by
    intro map
    have happend := Property.addTokens_append evaluator map [body] [[]]
    rw [List.singleton_append] at happend
    rw [happend]
    cases Property.addTokens evaluator map [body] with
    | error error => rfl
    | ok next => rfl
  rw [ofDescription_eq]
  unfold Description.tokens
  rw [Description.split_append_group description body hbalanced hplain]
  simp only
  rw [Property.addTokens_pieces_append evaluator _ _ _ hends, hpieces]
  cases Property.addTokens evaluator .empty (Text.pieces ';' (Description.split description).2) with
  | error error => rfl
  | ok map =>
      simp only [bind, Except.bind]
      rw [htwo]

end FileSignatures
