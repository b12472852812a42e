import FileSignatures.Proofs.Expression.CheckedIntegers
import FileSignatures.Toml.Reader

/-!
# Integers of a document

Whatever a document says, its integers are signed words: a word that denotes a larger one
is an error. This has to be followed through the whole reader, since a value may stand
anywhere: in an array, between braces, or in a table that later lines go on to fill. Each
of the operations on tables puts values in, and takes none apart but to put it back, so
what holds of all values before and of the new one holds of all of them afterwards
(`KeepsWords`).

## Main definitions

* `Toml.HasWords`: The integers of a value are signed words.
* `Toml.EntriesHaveWords`: So are those of all entries.
* `Toml.KeepsWords`: A change of entries keeps words in words.

## Theorems

* `keepsWords_alter?`, `keepsWords_alterAt?`: A change of a value keeps words in words.
* `readsWords_readValue?`: A value that is read has signed words.
* `haveWords_of_ofText?`: So has a document.
-/

namespace FileSignatures

namespace Toml

/-- The integers of a value are signed words, however deep they stand. -/
inductive HasWords : Toml → Prop
  | string (t : Text) : HasWords (.string t)
  | integer (n : Int) (h : IsWord n) : HasWords (.integer n)
  | boolean (b : Bool) : HasWords (.boolean b)
  | float : HasWords .float
  | datetime : HasWords .datetime
  | array (elements : List Toml) (h : ∀ element ∈ elements, HasWords element) :
      HasWords (.array elements)
  | table (origin : TableOrigin) (entries : List (Text × Toml))
      (h : ∀ entry ∈ entries, HasWords entry.2) : HasWords (.table origin entries)
  | tables (elements : List (List (Text × Toml)))
      (h : ∀ entries ∈ elements, ∀ entry ∈ entries, HasWords entry.2) : HasWords (.tables elements)

/-- The integers of all entries are signed words. -/
def EntriesHaveWords (entries : Entries) : Prop :=
  ∀ entry ∈ entries, entry.2.HasWords

theorem hasWords_array_iff (elements : List Toml) :
    HasWords (.array elements) ↔ ∀ element ∈ elements, HasWords element :=
  ⟨fun h => by cases h; assumption, .array elements⟩

theorem hasWords_table_iff (origin : TableOrigin) (entries : Entries) :
    HasWords (.table origin entries) ↔ EntriesHaveWords entries :=
  ⟨fun h => by cases h; assumption, .table origin entries⟩

theorem hasWords_tables_iff (elements : List Entries) :
    HasWords (.tables elements) ↔ ∀ entries ∈ elements, EntriesHaveWords entries :=
  ⟨fun h => by cases h; assumption, .tables elements⟩

/-- What has been looked up is the value of an entry. -/
theorem hasWords_of_lookup? (key : Text) (entries : Entries) (value : Toml)
    (h : EntriesHaveWords entries) (hvalue : lookup? key entries = some value) :
    value.HasWords := by
  induction entries with
  | nil => exact absurd hvalue (by simp only [lookup?, reduceCtorEq, not_false_eq_true])
  | cons entry entries ih =>
      obtain ⟨k, own⟩ := entry
      obtain ⟨hown, hentries⟩ := List.forall_mem_cons.1 h
      by_cases hkey : k = key
      · rw [lookup?, if_pos hkey, Option.some.injEq] at hvalue
        rw [← hvalue]
        exact hown
      · rw [lookup?, if_neg hkey] at hvalue
        exact ih hentries hvalue

section Changes

/-- A change keeps words in words: what it makes of entries has words if they have. -/
def KeepsWords (change : Entries → Option Entries) : Prop :=
  ∀ entries changed, EntriesHaveWords entries → change entries = some changed →
    EntriesHaveWords changed

theorem haveWords_nil : EntriesHaveWords [] :=
  fun _ hentry => absurd hentry List.not_mem_nil

/-- A replaced value does no harm if the new one has words. -/
theorem keepsWords_alter? (key : Text) (change : Option Toml → Option Toml)
    (hchange : ∀ present value, (∀ old, present = some old → old.HasWords) →
      change present = some value → value.HasWords) :
    KeepsWords (alter? key change) := by
  intro entries
  induction entries with
  | nil =>
      intro changed hentries h
      rw [alter?, Option.map_eq_some_iff] at h
      obtain ⟨value, hvalue, rfl⟩ := h
      refine List.forall_mem_singleton.2 (hchange none value (fun _ hold => ?_) hvalue)
      exact absurd hold (by simp only [reduceCtorEq, not_false_eq_true])
  | cons entry rest ih =>
      intro changed hentries h
      obtain ⟨k, old⟩ := entry
      obtain ⟨hold, hrest⟩ := List.forall_mem_cons.1 hentries
      rw [alter?] at h
      -- Only the entry of the key changes; the others had words before.
      by_cases hkey : k = key
      · rw [if_pos hkey, Option.map_eq_some_iff] at h
        obtain ⟨value, hvalue, rfl⟩ := h
        refine List.forall_mem_cons.2
          ⟨hchange (some old) value (fun other hother => ?_) hvalue, hrest⟩
        rw [← Option.some.inj hother]
        exact hold
      · rw [if_neg hkey, Option.map_eq_some_iff] at h
        obtain ⟨others, hothers, rfl⟩ := h
        exact List.forall_mem_cons.2 ⟨hold, ih others hrest hothers⟩

theorem haveWords_of_alterLast? (change : Entries → Option Entries) (hchange : KeepsWords change)
    (elements changed : List Entries) (helements : ∀ entries ∈ elements, EntriesHaveWords entries)
    (h : alterLast? change elements = some changed) :
    ∀ entries ∈ changed, EntriesHaveWords entries := by
  induction elements generalizing changed with
  | nil => exact absurd h (by simp only [alterLast?, reduceCtorEq, not_false_eq_true])
  | cons first rest ih =>
      obtain ⟨hfirst, hrest⟩ := List.forall_mem_cons.1 helements
      -- The last element is changed, and those before it are kept.
      cases rest with
      | nil =>
          rw [alterLast?, Option.map_eq_some_iff] at h
          obtain ⟨last, hlast, rfl⟩ := h
          exact List.forall_mem_singleton.2 (hchange first last hfirst hlast)
      | cons second more =>
          rw [alterLast?, Option.map_eq_some_iff] at h
          · obtain ⟨others, hothers, rfl⟩ := h
            exact List.forall_mem_cons.2 ⟨hfirst, ih others hrest hothers⟩
          · exact fun heq => List.cons_ne_nil _ _ heq

theorem keepsWords_alterAt? (change : Entries → Option Entries) (hchange : KeepsWords change)
    (path : List Text) : KeepsWords (alterAt? change path) := by
  induction path with
  | nil => exact hchange
  | cons key path ih =>
      refine keepsWords_alter? key _ fun present value hold h => ?_
      -- A part of the path names nothing yet, a table, or a list whose last table is meant.
      split at h
      · obtain ⟨entries, hentries, rfl⟩ := Option.map_eq_some_iff.1 h
        exact .table _ entries (ih [] entries haveWords_nil hentries)
      · exact absurd h (by simp only [reduceCtorEq, not_false_eq_true])
      · rename_i origin entries _
        obtain ⟨changed, hchanged, rfl⟩ := Option.map_eq_some_iff.1 h
        exact .table _ changed
          (ih entries changed ((hasWords_table_iff _ _).1 (hold _ rfl)) hchanged)
      · rename_i elements
        obtain ⟨changed, hchanged, rfl⟩ := Option.map_eq_some_iff.1 h
        exact .tables changed (haveWords_of_alterLast? _ ih elements changed
          ((hasWords_tables_iff _).1 (hold _ rfl)) hchanged)
      · exact absurd h (by simp only [reduceCtorEq, not_false_eq_true])

theorem keepsWords_addTable? (path : List Text) (key : Text) :
    KeepsWords (addTable? path key) := by
  refine keepsWords_alterAt? _ (keepsWords_alter? key _ fun present value hold h => ?_) path
  split at h
  · rw [← Option.some.inj h]
    exact .table _ [] haveWords_nil
  · rename_i entries
    rw [← Option.some.inj h]
    exact .table _ entries ((hasWords_table_iff _ _).1 (hold _ rfl))
  · exact absurd h (by simp only [reduceCtorEq, not_false_eq_true])

theorem keepsWords_addElement? (path : List Text) (key : Text) :
    KeepsWords (addElement? path key) := by
  refine keepsWords_alterAt? _ (keepsWords_alter? key _ fun present value hold h => ?_) path
  split at h
  · rw [← Option.some.inj h]
    exact .tables _ (List.forall_mem_singleton.2 haveWords_nil)
  · rename_i elements
    rw [← Option.some.inj h]
    exact .tables _ (List.forall_mem_append.2 ⟨(hasWords_tables_iff _).1 (hold _ rfl),
      List.forall_mem_singleton.2 haveWords_nil⟩)
  · exact absurd h (by simp only [reduceCtorEq, not_false_eq_true])

theorem keepsWords_setDotted? (key : Text) (value : Toml) (hvalue : value.HasWords)
    (path : List Text) : KeepsWords (setDotted? key value path) := by
  induction path with
  | nil =>
      refine keepsWords_alter? key _ fun present set hold h => ?_
      split at h
      · exact absurd h (by simp only [reduceCtorEq, not_false_eq_true])
      · rw [← Option.some.inj h]
        exact hvalue
  | cons first path ih =>
      refine keepsWords_alter? first _ fun present set hold h => ?_
      -- The first part is missing, or names what may still be extended.
      split at h
      · obtain ⟨entries, hentries, rfl⟩ := Option.map_eq_some_iff.1 h
        exact .table _ entries (ih [] entries haveWords_nil hentries)
      · obtain ⟨changed, hchanged, rfl⟩ := Option.map_eq_some_iff.1 h
        exact .table _ changed (ih _ changed ((hasWords_table_iff _ _).1 (hold _ rfl)) hchanged)
      · split at h
        · exact absurd h (by simp only [reduceCtorEq, not_false_eq_true])
        · obtain ⟨changed, hchanged, rfl⟩ := Option.map_eq_some_iff.1 h
          exact .table _ changed (ih _ changed ((hasWords_table_iff _ _).1 (hold _ rfl)) hchanged)
      · split at h
        · exact absurd h (by simp only [reduceCtorEq, not_false_eq_true])
        · obtain ⟨changed, hchanged, rfl⟩ := Option.map_eq_some_iff.1 h
          exact .tables changed (haveWords_of_alterLast? _ ih _ changed
            ((hasWords_tables_iff _).1 (hold _ rfl)) hchanged)
      · exact absurd h (by simp only [reduceCtorEq, not_false_eq_true])

theorem keepsWords_addKey? (current path : List Text) (key : Text) (value : Toml)
    (hvalue : value.HasWords) : KeepsWords (addKey? current path key value) :=
  keepsWords_alterAt? _ (keepsWords_setDotted? key value hvalue path) current

end Changes

section Reading

/-- What a reader reads has words. -/
def ReadsWords (readValue? : Text → Option (Toml × Text)) : Prop :=
  ∀ t value rest, readValue? t = some (value, rest) → value.HasWords

theorem isWord_of_integerOf? (word : Text) (n : Int) (h : integerOf? word = some n) : IsWord n := by
  have hrange := (Option.filter_eq_some_iff.1 h).2
  rw [Bool.and_eq_true, decide_eq_true_eq, decide_eq_true_eq] at hrange
  exact hrange

theorem readsWords_readScalar? : ReadsWords readScalar? := by
  intro t value rest h
  obtain ⟨scalar, hscalar, heq⟩ := Option.map_eq_some_iff.1 h
  rw [← (Prod.mk.inj heq).1]
  -- Of the scalars only whole numbers hold a word, and their reader checks the range.
  unfold scalarOf? at hscalar
  split at hscalar
  · rw [← Option.some.inj hscalar]
    exact .boolean true
  split at hscalar
  · rw [← Option.some.inj hscalar]
    exact .boolean false
  split at hscalar
  · rename_i n hn
    rw [← Option.some.inj hscalar]
    exact .integer n (isWord_of_integerOf? _ n hn)
  split at hscalar
  · rw [← Option.some.inj hscalar]
    exact .float
  split at hscalar
  · rw [← Option.some.inj hscalar]
    exact .datetime
  · exact absurd hscalar (by simp only [reduceCtorEq, not_false_eq_true])

theorem hasWords_of_readElements? (readValue? : Text → Option (Toml × Text))
    (hread : ReadsWords readValue?) (fuel : Nat) (t : Text) (elements : List Toml) (rest : Text)
    (h : readElements? readValue? fuel t = some (elements, rest)) :
    ∀ element ∈ elements, element.HasWords := by
  induction fuel generalizing t elements rest with
  | zero => exact absurd h (by simp only [readElements?, reduceCtorEq, not_false_eq_true])
  | succ fuel ih =>
      have hnone : ∀ element ∈ ([] : List Toml), element.HasWords :=
        fun _ helement => absurd helement List.not_mem_nil
      rw [readElements?] at h
      split at h
      · rw [← (Prod.mk.inj (Option.some.inj h)).1]
        exact hnone
      · -- One more element, and then the bracket or a comma with the others behind it.
        obtain ⟨⟨first, between⟩, hfirst, h⟩ := Option.bind_eq_some_iff.1 h
        have hword := hread _ first between hfirst
        simp only at h
        split at h
        · rw [← (Prod.mk.inj (Option.some.inj h)).1]
          exact List.forall_mem_singleton.2 hword
        · obtain ⟨⟨others, after⟩, hothers, h⟩ := Option.bind_eq_some_iff.1 h
          rw [← (Prod.mk.inj (Option.some.inj h)).1]
          exact List.forall_mem_cons.2 ⟨hword, ih _ others after hothers⟩
        · exact absurd h (by simp only [reduceCtorEq, not_false_eq_true])

theorem haveWords_of_readEntries? (readValue? : Text → Option (Toml × Text))
    (hread : ReadsWords readValue?) (fuel : Nat) (set : Entries) (t : Text) (entries : Entries)
    (rest : Text) (hset : EntriesHaveWords set)
    (h : readEntries? readValue? fuel set t = some (entries, rest)) :
    EntriesHaveWords entries := by
  induction fuel generalizing set t with
  | zero => exact absurd h (by simp only [readEntries?, reduceCtorEq, not_false_eq_true])
  | succ fuel ih =>
      rw [readEntries?] at h
      obtain ⟨⟨⟨path, key⟩, between⟩, -, h⟩ := Option.bind_eq_some_iff.1 h
      simp only at h
      split at h
      · obtain ⟨⟨value, behind⟩, hvalue, h⟩ := Option.bind_eq_some_iff.1 h
        obtain ⟨more, hmore, h⟩ := Option.bind_eq_some_iff.1 h
        -- What has been set so far has words, so it has them with this entry too.
        have hwords := keepsWords_setDotted? key value (hread _ value behind hvalue) path set more
          hset hmore
        simp only at h
        split at h
        · rw [← (Prod.mk.inj (Option.some.inj h)).1]
          exact hwords
        · exact ih more _ hwords h
        · exact absurd h (by simp only [reduceCtorEq, not_false_eq_true])
      · exact absurd h (by simp only [reduceCtorEq, not_false_eq_true])

theorem readsWords_readValueTo? (depth : Nat) : ReadsWords (readValueTo? depth) := by
  -- By the cases of the reader, of which the bracketed ones read values less deep.
  intro t value rest h
  induction depth using Nat.strongRecOn generalizing t value rest with
  | _ depth ih =>
      unfold readValueTo? at h
      split at h
      · obtain ⟨⟨text, after⟩, -, heq⟩ := Option.map_eq_some_iff.1 h
        rw [← (Prod.mk.inj heq).1]
        exact .string text
      · obtain ⟨⟨text, after⟩, -, heq⟩ := Option.map_eq_some_iff.1 h
        rw [← (Prod.mk.inj heq).1]
        exact .string text
      · rename_i depth _
        obtain ⟨⟨elements, after⟩, helements, heq⟩ := Option.map_eq_some_iff.1 h
        rw [← (Prod.mk.inj heq).1]
        exact .array elements (hasWords_of_readElements? _
          (fun t value rest => ih depth (Nat.lt_succ_self depth) t value rest) _ _ elements after
          helements)
      · rename_i depth _
        split at h
        · rw [← (Prod.mk.inj (Option.some.inj h)).1]
          exact .table _ [] haveWords_nil
        · obtain ⟨⟨entries, after⟩, hentries, heq⟩ := Option.map_eq_some_iff.1 h
          rw [← (Prod.mk.inj heq).1]
          exact .table _ entries (haveWords_of_readEntries? _
            (fun t value rest => ih depth (Nat.lt_succ_self depth) t value rest) _ [] _ entries
            after haveWords_nil hentries)
      · exact readsWords_readScalar? _ value rest h

theorem readsWords_readValue? : ReadsWords readValue? :=
  readsWords_readValueTo? (depthLimit - 1)

theorem haveWords_of_readLine? (state after : ReadState) (t rest : Text)
    (hstate : EntriesHaveWords state.document) (h : readLine? state t = some (after, rest)) :
    EntriesHaveWords after.document := by
  -- A line opens an element of a list or a table, or sets a key.
  unfold readLine? at h
  split at h
  · obtain ⟨⟨⟨path, key⟩, between⟩, -, h⟩ := Option.bind_eq_some_iff.1 h
    obtain ⟨document, hdocument, h⟩ := Option.bind_eq_some_iff.1 h
    obtain ⟨_, -, h⟩ := Option.bind_eq_some_iff.1 h
    rw [← (Prod.mk.inj (Option.some.inj h)).1]
    exact keepsWords_addElement? path key state.document document hstate hdocument
  · obtain ⟨⟨⟨path, key⟩, between⟩, -, h⟩ := Option.bind_eq_some_iff.1 h
    obtain ⟨document, hdocument, h⟩ := Option.bind_eq_some_iff.1 h
    obtain ⟨_, -, h⟩ := Option.bind_eq_some_iff.1 h
    rw [← (Prod.mk.inj (Option.some.inj h)).1]
    exact keepsWords_addTable? path key state.document document hstate hdocument
  · obtain ⟨⟨⟨path, key⟩, between⟩, -, h⟩ := Option.bind_eq_some_iff.1 h
    simp only at h
    split at h
    · obtain ⟨⟨value, behind⟩, hvalue, h⟩ := Option.bind_eq_some_iff.1 h
      obtain ⟨document, hdocument, h⟩ := Option.bind_eq_some_iff.1 h
      obtain ⟨_, -, h⟩ := Option.bind_eq_some_iff.1 h
      rw [← (Prod.mk.inj (Option.some.inj h)).1]
      exact keepsWords_addKey? state.current path key value
        (readsWords_readValue? _ value behind hvalue) state.document document hstate hdocument
    · exact absurd h (by simp only [reduceCtorEq, not_false_eq_true])

theorem haveWords_of_readLines? (fuel : Nat) (state : ReadState) (t : Text) (document : Entries)
    (hstate : EntriesHaveWords state.document) (h : readLines? fuel state t = some document) :
    EntriesHaveWords document := by
  induction fuel generalizing state t with
  | zero => exact absurd h (by simp only [readLines?, reduceCtorEq, not_false_eq_true])
  | succ fuel ih =>
      rw [readLines?] at h
      split at h
      · rw [← Option.some.inj h]
        exact hstate
      · obtain ⟨⟨after, rest⟩, hline, h⟩ := Option.bind_eq_some_iff.1 h
        exact ih after rest (haveWords_of_readLine? state after _ rest hstate hline) h

/-- The integers of a document are signed words. -/
theorem haveWords_of_ofText? (t : Text) (document : Entries) (h : ofText? t = some document) :
    EntriesHaveWords document :=
  haveWords_of_readLines? _ ⟨[], []⟩ _ document haveWords_nil h

end Reading

end Toml

end FileSignatures
