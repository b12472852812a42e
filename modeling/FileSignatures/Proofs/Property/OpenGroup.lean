import FileSignatures.Proofs.Property.Stated

/-!
# Groups that the end cuts off

Rules add their text one after the other, and the last one may not hold that would close a
group of properties. The description then ends inside of the group. This loses nothing: the
characters of the group are part of the property text whether a bracket closes it or not,
and all that the bracket adds is a separator at the end, behind which nothing is stated. So
a description states the same as if its last group were closed (`stated_append_group`,
`stated_append_open`), provided that it has a closed group in front, without which nothing
would be a property at all.

## Theorems

* `stated_pieces_append`: Behind a separator, what follows is stated by itself.
* `split_append_open`: A description that ends inside of a group is split at its bracket.
* `stated_append_group`, `stated_append_open`: One more group states what is in it.
-/

namespace FileSignatures

/-- A property text that ends with a separator, or is empty, does not run into what follows
    it. -/
theorem stated_pieces_append (s t : Text) (h : s = [] ∨ s.getLast? = some ';') :
    (Text.pieces ';' (s ++ t)).filterMap Property.stated?
      = (Text.pieces ';' s).filterMap Property.stated?
        ++ (Text.pieces ';' t).filterMap Property.stated? := by
  -- The empty piece behind the last separator states nothing.
  have hempty : (Text.pieces ';' []).filterMap Property.stated? = [] := rfl
  rcases h with rfl | hlast
  · rw [hempty, List.nil_append, List.nil_append]
  · rcases List.getLast?_eq_some_iff.1 hlast with ⟨before, rfl⟩
    rw [List.append_assoc, List.singleton_append, pieces_join, pieces_join,
      List.filterMap_append, List.filterMap_append, hempty, List.append_nil]

namespace Description

/-- A description that ends inside of a group, behind a closed one, is split at the bracket
    of that group. -/
theorem split_append_open (description body : Text) (hbalanced : Balanced description)
    (hgroup : '[' ∈ description) (hbody : ∀ c ∈ body, c ≠ '[' ∧ c ≠ ']') :
    split (description ++ '[' :: body)
      = ((split description).1, (split description).2 ++ body) := by
  -- Nothing closes the group, so it ends with the text and no separator is put behind it.
  have hadded : splitAt 0 ('[' :: body) = ([], body) := by
    have hplain := splitAt_plain (0 + 1) body [] (by omega) hbody
    rw [List.append_nil] at hplain
    rw [splitAt_open, hplain]
    simp only [splitAt, List.append_nil]
  have hsplit := splitAt_append 0 description ('[' :: body) hbalanced
  rw [hadded, List.append_nil] at hsplit
  rw [split_eq_splitAt description hbalanced, split,
    if_pos (hasGroup_append description _ hbalanced hgroup)]
  exact hsplit

/-- One more group behind a balanced description states what is in it. -/
theorem stated_append_group (description body : Text) (hbalanced : Balanced description)
    (hbody : ∀ c ∈ body, c ≠ '[' ∧ c ≠ ']') :
    stated (description ++ '[' :: (body ++ [']']))
      = stated description ++ (Text.pieces ';' body).filterMap Property.stated? := by
  have hend : (Text.pieces ';' (body ++ [';'])).filterMap Property.stated?
      = (Text.pieces ';' body).filterMap Property.stated? := by
    rw [pieces_join, List.filterMap_append]
    exact List.append_nil _
  unfold stated tokens
  rw [split_append_group description body hbalanced hbody,
    stated_pieces_append _ _ (getLast?_split description hbalanced), hend]

/-- So does a group that the end of the description cuts off. -/
theorem stated_append_open (description body : Text) (hbalanced : Balanced description)
    (hgroup : '[' ∈ description) (hbody : ∀ c ∈ body, c ≠ '[' ∧ c ≠ ']') :
    stated (description ++ '[' :: body)
      = stated description ++ (Text.pieces ';' body).filterMap Property.stated? := by
  unfold stated tokens
  rw [split_append_open description body hbalanced hgroup hbody,
    stated_pieces_append _ _ (getLast?_split description hbalanced)]

end Description

end FileSignatures
