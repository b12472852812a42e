import FileSignatures.Text.Basic

/-!
# Property maps

The properties of a resource have distinct keys and are listed in the order of
their keys. Both follow from one condition on the list of entries, that keys
increase strictly, which is part of the type.

Texts are ordered by code points, character by character.

## Main definitions

* `PropertyMap`: Entries with strictly increasing keys.
* `PropertyMap.get?`: The value of a key.
* `PropertyMap.insert`: Sets the value of a key.
* `PropertyMap.ofList`: Sets the values of several keys, one after the other.

## Theorems

* `Text.lt_of_not_lt_of_ne`: Two different texts are ordered.
* `PropertyMap.get?_empty`, `PropertyMap.get?_insert`: How the operations act on
  values.
-/

namespace FileSignatures

/-- Of two different texts one comes first. -/
theorem Text.lt_of_not_lt_of_ne (s t : Text) (hlt : ¬ s < t) (hne : s ≠ t) : t < s := by
  by_cases h : t < s
  · exact h
  · exact absurd (List.le_antisymm (List.not_lt.1 h) (List.not_lt.1 hlt)) hne

/-- Entries are in order if their keys increase strictly. -/
def EntriesOrdered (entries : List (Text × Text)) : Prop :=
  entries.Pairwise fun a b => a.1 < b.1

/-- Entries in the order of their keys, every key once. -/
structure PropertyMap where
  entries : List (Text × Text)
  ordered : EntriesOrdered entries

namespace PropertyMap

/-- Sets the value of a key in a list of entries. -/
def insertEntry (key value : Text) : List (Text × Text) → List (Text × Text)
  | [] => [(key, value)]
  | (k, v) :: rest =>
    if key < k then (key, value) :: (k, v) :: rest
    else if key = k then (key, value) :: rest
    else (k, v) :: insertEntry key value rest

/-- A key after an insertion is the new one or one of the old ones. -/
theorem mem_insertEntry (key value : Text) (entries : List (Text × Text)) (e : Text × Text)
    (h : e ∈ insertEntry key value entries) : e.1 = key ∨ e ∈ entries := by
  induction entries with
  | nil =>
      simp only [insertEntry, List.mem_singleton] at h
      exact Or.inl (by rw [h])
  | cons entry rest ih =>
      obtain ⟨k, v⟩ := entry
      simp only [insertEntry] at h
      split at h
      · rcases List.mem_cons.1 h with rfl | h
        · exact Or.inl rfl
        · exact Or.inr h
      · split at h
        · rcases List.mem_cons.1 h with rfl | h
          · exact Or.inl rfl
          · exact Or.inr (List.mem_cons_of_mem _ h)
        · rcases List.mem_cons.1 h with rfl | h
          · exact Or.inr List.mem_cons_self
          · rcases ih h with h | h
            · exact Or.inl h
            · exact Or.inr (List.mem_cons_of_mem _ h)

/-- An insertion keeps the entries in order. -/
theorem ordered_insertEntry (key value : Text) (entries : List (Text × Text))
    (h : EntriesOrdered entries) : EntriesOrdered (insertEntry key value entries) := by
  induction entries with
  | nil => exact List.pairwise_singleton _ _
  | cons entry rest ih =>
      obtain ⟨k, v⟩ := entry
      obtain ⟨hk, hrest⟩ := List.pairwise_cons.1 h
      simp only [insertEntry]
      split
      · rename_i hlt
        refine List.pairwise_cons.2 ⟨fun e he => ?_, h⟩
        rcases List.mem_cons.1 he with rfl | he
        · exact hlt
        · exact List.lt_trans hlt (hk e he)
      · rename_i hnlt
        split
        · rename_i heq
          subst heq
          exact List.pairwise_cons.2 ⟨hk, hrest⟩
        · rename_i hne
          refine List.pairwise_cons.2 ⟨fun e he => ?_, ih hrest⟩
          -- The new key comes after `k`, and so do all of the old ones.
          rcases mem_insertEntry key value rest e he with hkey | he
          · rw [hkey]
            exact Text.lt_of_not_lt_of_ne key k hnlt hne
          · exact hk e he

/-- No properties. -/
def empty : PropertyMap := ⟨[], List.Pairwise.nil⟩

/-- Sets the value of a key. -/
def insert (map : PropertyMap) (key value : Text) : PropertyMap :=
  ⟨insertEntry key value map.entries, ordered_insertEntry key value map.entries map.ordered⟩

/-- Sets the values of several keys, one after the other. -/
def ofList (entries : List (Text × Text)) : PropertyMap :=
  entries.foldl (fun map entry => map.insert entry.1 entry.2) empty

/-- The value of a key in a list of entries. -/
def lookupEntry (key : Text) : List (Text × Text) → Option Text
  | [] => none
  | (k, v) :: rest => if key = k then some v else lookupEntry key rest

/-- The value of a key. -/
def get? (map : PropertyMap) (key : Text) : Option Text :=
  lookupEntry key map.entries

/-- No key has a value at first. -/
@[simp] theorem get?_empty (key : Text) : empty.get? key = none := rfl

/-- After an insertion the key has the new value and every other one its old
    value. -/
theorem lookupEntry_insertEntry (key value other : Text) (entries : List (Text × Text)) :
    lookupEntry other (insertEntry key value entries)
      = if other = key then some value else lookupEntry other entries := by
  induction entries with
  | nil => simp only [insertEntry, lookupEntry]
  | cons entry rest ih =>
      obtain ⟨k, v⟩ := entry
      simp only [insertEntry]
      split
      · simp only [lookupEntry]
      · split
        · rename_i heq
          subst heq
          simp only [lookupEntry]
          split <;> rfl
        · rename_i hne
          simp only [lookupEntry, ih]
          by_cases hk : other = k
          · rw [if_pos hk, if_neg (fun h => hne (h.symm.trans hk)), if_pos hk]
          · rw [if_neg hk, if_neg hk]

/-- After an insertion the key has the new value and every other one its old
    value. -/
theorem get?_insert (map : PropertyMap) (key value other : Text) :
    (map.insert key value).get? other = if other = key then some value else map.get? other :=
  lookupEntry_insertEntry key value other map.entries

end PropertyMap

end FileSignatures
