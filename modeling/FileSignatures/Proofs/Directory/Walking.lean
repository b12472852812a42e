import FileSignatures.Directory.Walk
import FileSignatures.Proofs.Directory.Paths
import Mathlib.Data.List.Sort

/-!
# Walks list the files of a tree

A walk that leaves out nothing lists all files of a file tree, and in one order: depth
first, the entries of each directory by name. This is the lexicographic order of the names
that lead to the files, and as it is strict, every file is listed once. Both together
leave only one list (`eq_of_lists`).

Any other walk lists some of these files in the same order (`files_eq_filter`): those that
neither are hidden nor lie in something hidden, and that do not lie too deep. Leaving out
a directory as a whole comes to the same as leaving out each file in it, because of all
files below a directory one name is that of the directory.

## Main definitions

* `Directory.Walk.admits`: What a walk lists.
* `Directory.Lists`: The files of a tree in the order of a walk.

## Theorems

* `joinByName_filter`: Listings can be filtered before or after they are joined.
* `branches_eq_filter`, `files_eq_filter`: What a walk leaves out.
* `mem_files_iff`: The walk that leaves out nothing finds every file.
* `pairwise_files`: It lists them in order.
* `eq_of_lists`: There is only one such list.
-/

namespace FileSignatures

namespace Directory

variable {α : Type}

/-- Whether a walk lists a file that the names lead to: it has to skip none of them, and
    to go into as many directories as there are names before the last one. -/
def Walk.admits (walk : Walk) (names : List Path) : Bool :=
  names.all (fun name => !walk.skips name)
    && match walk.depth with
      | none => true
      | some depth => names.length ≤ depth + 1

/-- What a walk lists in a directory inside is what the walk there lists. -/
theorem admits_cons (walk : Walk) (name next : Path) (rest : List Path) :
    walk.admits (name :: next :: rest)
      = (!walk.skips name
        && match walk.inner? with
          | none => false
          | some inner => inner.admits (next :: rest)) := by
  unfold Walk.admits Walk.inner?
  -- One level less is left inside, and none at all below depth one.
  cases hdepth : walk.depth with
  | none => simp only [hdepth, List.all_cons, Bool.and_true]
  | some depth =>
      cases depth with
      | zero => simp
      | succ depth =>
          have hlength : (name :: next :: rest).length ≤ depth + 1 + 1
              ↔ (next :: rest).length ≤ depth + 1 := by
            simp only [List.length_cons]
            omega
          simp only [List.all_cons, Bool.and_assoc, Walk.skips, hlength]

/-- A file directly in the directory is only left out for its name. -/
theorem admits_singleton (walk : Walk) (name : Path) : walk.admits [name] = !walk.skips name := by
  unfold Walk.admits
  cases walk.depth <;> simp

section Joining

variable {β : Type} (listings : List (Path × List β))

theorem mem_joinByName_iff (x : β) :
    x ∈ joinByName listings ↔ ∃ listing ∈ listings, x ∈ listing.2 := by
  unfold joinByName
  simp only [List.mem_flatMap, List.mem_mergeSort]

/-- Listings can be filtered before or after they are joined, since their order only
    depends on the names. -/
theorem joinByName_filter (p : β → Bool) :
    joinByName (listings.map fun listing => (listing.1, listing.2.filter p))
      = (joinByName listings).filter p := by
  unfold joinByName
  have hnames : ∀ a ∈ listings, ∀ b ∈ listings, nameLe a b
      = nameLe (a.1, a.2.filter p) (b.1, b.2.filter p) := fun _ _ _ _ => rfl
  rw [← List.map_mergeSort hnames, List.filter_flatMap, List.flatMap_map]

/-- Listings under different names are put in strict order. -/
theorem pairwise_mergeSort_nameLe (h : (listings.map Prod.fst).Nodup) :
    (listings.mergeSort nameLe).Pairwise fun a b => a.1 < b.1 := by
  have hle : ∀ a b : Path × List β, nameLe a b = true ↔ ¬ b.1 < a.1 := by
    intro a b
    simp only [nameLe, Bool.not_eq_true', decide_eq_false_iff_not]
  have htrans : ∀ a b c : Path × List β, nameLe a b = true → nameLe b c = true →
      nameLe a c = true := fun a b c hab hbc =>
    (hle a c).2 (List.not_lt.2
      (List.le_trans (List.not_lt.1 ((hle a b).1 hab)) (List.not_lt.1 ((hle b c).1 hbc))))
  have htotal : ∀ a b : Path × List β, (nameLe a b || nameLe b a) = true := by
    intro a b
    rw [Bool.or_eq_true, hle, hle]
    by_cases hba : b.1 < a.1
    · exact Or.inr (List.lt_asymm hba)
    · exact Or.inl hba
  have hsorted := List.pairwise_mergeSort htrans htotal listings
  have hdistinct : ((listings.mergeSort nameLe).map Prod.fst).Nodup :=
    ((List.mergeSort_perm listings nameLe).map Prod.fst).nodup_iff.2 h
  refine (hsorted.and (List.pairwise_map.1 hdistinct)).imp fun {a b} hab => ?_
  -- Of two different names one comes first, and it is not the second one.
  by_contra hlt
  exact hab.2 (List.le_antisymm (List.not_lt.1 ((hle a b).1 hab.1)) (List.not_lt.1 hlt))

end Joining

/-- Listings whose elements begin with their names, and that are in order themselves, are
    in order when they are joined. -/
theorem pairwise_joinByName (listings : List (Path × List (List Path)))
    (hdistinct : (listings.map Prod.fst).Nodup)
    (hnames : ∀ listing ∈ listings, ∀ names ∈ listing.2, ∃ rest, names = listing.1 :: rest)
    (hordered : ∀ listing ∈ listings, listing.2.Pairwise (· < ·)) :
    (joinByName listings).Pairwise (· < ·) := by
  unfold joinByName
  rw [List.pairwise_flatMap]
  refine ⟨fun listing hmem => hordered listing (List.mem_mergeSort.1 hmem), ?_⟩
  refine (pairwise_mergeSort_nameLe listings hdistinct).imp_of_mem ?_
  intro a b ha hb hlt first hfirst second hsecond
  -- The names in front differ and are in order, and they decide.
  obtain ⟨rest, rfl⟩ := hnames a (List.mem_mergeSort.1 ha) first hfirst
  obtain ⟨more, rfl⟩ := hnames b (List.mem_mergeSort.1 hb) second hsecond
  exact List.Lex.rel hlt

/-- There is a branch for every entry. -/
theorem names_branches (walk : Walk) (d : Directory α) :
    (d.branches walk).map Prod.fst = d.names := by
  induction d with
  | empty => rfl
  | file name content others ih => rw [branches, names, List.map_cons, ih]
  | directory name inside others _ ih => rw [branches, names, List.map_cons, ih]

/-- The files of a branch are below its name. -/
theorem exists_cons_of_mem_branches (walk : Walk) (d : Directory α) :
    ∀ branch ∈ d.branches walk, ∀ names ∈ branch.2, ∃ rest, names = branch.1 :: rest := by
  induction d with
  | empty => exact fun branch hmem => absurd hmem List.not_mem_nil
  | file name content others ih =>
      refine List.forall_mem_cons.2 ⟨fun names hmem => ?_, ih⟩
      simp only at hmem
      split at hmem
      · exact absurd hmem List.not_mem_nil
      · exact ⟨[], List.mem_singleton.1 hmem⟩
  | directory name inside others _ ih =>
      refine List.forall_mem_cons.2 ⟨fun names hmem => ?_, ih⟩
      simp only at hmem
      split at hmem
      · -- A name that is skipped has no files.
        exact absurd hmem List.not_mem_nil
      · split at hmem
        · exact absurd hmem List.not_mem_nil
        · obtain ⟨rest, -, rfl⟩ := List.mem_map.1 hmem
          exact ⟨rest, rfl⟩

theorem exists_cons_of_mem_files (walk : Walk) (d : Directory α) (names : List Path)
    (h : names ∈ d.files walk) : ∃ name rest, names = name :: rest := by
  obtain ⟨branch, hbranch, hmem⟩ := (mem_joinByName_iff _ _).1 h
  obtain ⟨rest, heq⟩ := exists_cons_of_mem_branches walk d branch hbranch names hmem
  exact ⟨branch.1, rest, heq⟩

/-- The files below a directory inside that a walk lists, among all that are there. -/
theorem filter_map_cons (walk : Walk) (name : Path) (files : List (List Path))
    (hnonempty : ∀ names ∈ files, ∃ next rest, names = next :: rest) :
    (files.map (name :: ·)).filter walk.admits
      = if walk.skips name then []
        else match walk.inner? with
          | none => []
          | some inner => (files.filter inner.admits).map (name :: ·) := by
  have hcons : ∀ names ∈ files, (walk.admits ∘ (name :: ·)) names
      = (!walk.skips name
        && match walk.inner? with
          | none => false
          | some inner => inner.admits names) := by
    intro names hmem
    obtain ⟨next, rest, rfl⟩ := hnonempty names hmem
    exact admits_cons walk name next rest
  -- What is asked of the name does not depend on the file.
  rw [List.filter_map, List.filter_congr hcons]
  cases walk.skips name with
  | true => simp
  | false =>
      cases walk.inner? with
      | none => simp
      | some inner => simp

/-- A walk leaves out files and keeps the order, by induction on the directory. -/
theorem branches_eq_filter (walk : Walk) (d : Directory α) :
    d.branches walk
      = (d.branches .unrestricted).map fun branch => (branch.1, branch.2.filter walk.admits) := by
  induction d generalizing walk with
  | empty => rfl
  | file name content others ih =>
      have hall : Walk.unrestricted.skips name = false := rfl
      rw [branches, branches, List.map_cons, ← ih walk, hall]
      cases hskips : walk.skips name with
      | true => simp [admits_singleton, hskips]
      | false => simp [admits_singleton, hskips]
  | directory name inside others ihinside ih =>
      have hall : Walk.unrestricted.skips name = false := rfl
      have hinner : Walk.unrestricted.inner? = some .unrestricted := rfl
      rw [branches, branches, List.map_cons, ← ih walk, hall, hinner]
      simp only [Bool.false_eq_true, if_false]
      -- Below the name the walk is one that goes a level less deep.
      have hfiltered := filter_map_cons walk name (joinByName (inside.branches .unrestricted))
        (exists_cons_of_mem_files .unrestricted inside)
      rw [hfiltered]
      cases walk.inner? with
      | none => rfl
      | some inner =>
          simp only
          rw [ihinside inner, joinByName_filter]

/-- The files that a walk lists are those of all that it admits, in the same order. -/
theorem files_eq_filter (walk : Walk) (d : Directory α) :
    d.files walk = (d.files .unrestricted).filter walk.admits := by
  unfold files
  rw [branches_eq_filter walk d, joinByName_filter]

/-- The walk that leaves out nothing finds every file of a file tree. -/
theorem mem_files_iff (d : Directory α) (hd : d.Proper) (names : List Path) :
    names ∈ d.files .unrestricted ↔ ∃ content, d.Holds names content := by
  have hall : ∀ name, Walk.unrestricted.skips name = false := fun _ => rfl
  unfold files
  rw [mem_joinByName_iff]
  induction d generalizing names with
  | empty =>
      refine ⟨fun ⟨_, hmem, _⟩ => absurd hmem List.not_mem_nil, fun ⟨content, h⟩ => ?_⟩
      obtain ⟨name, rest, rfl⟩ := exists_cons_of_holds _ names content h
      rw [holds_cons_iff] at h
      simp [entry?_empty] at h
  | file name own others ih =>
      obtain ⟨-, hname, hothers⟩ := hd
      -- The first entry has a name that no other one has.
      simp only [branches, hall, List.mem_cons, exists_eq_or_imp, ih hothers,
        holds_file_iff name own others names _ hname, exists_or, Bool.false_eq_true, if_false,
        List.not_mem_nil, or_false, exists_and_left, exists_eq, and_true]
  | directory name inside others ihinside ih =>
      obtain ⟨-, hname, hinside, hothers⟩ := hd
      have hinner : Walk.unrestricted.inner? = some .unrestricted := rfl
      have hfound : ∀ rest, rest ∈ joinByName (inside.branches .unrestricted)
          ↔ ∃ content, inside.Holds rest content := by
        intro rest
        rw [mem_joinByName_iff]
        exact ihinside hinside rest
      simp only [branches, hall, hinner, List.mem_cons, exists_eq_or_imp, ih hothers,
        holds_directory_iff name inside others names _ hname, exists_or, Bool.false_eq_true,
        if_false, List.mem_map, hfound]
      refine or_congr_left ⟨?_, ?_⟩
      · rintro ⟨rest, ⟨content, h⟩, rfl⟩
        exact ⟨content, rest, rfl, h⟩
      · rintro ⟨content, rest, rfl, h⟩
        exact ⟨rest, ⟨content, h⟩, rfl⟩

theorem nodup_names (d : Directory α) (hd : d.Proper) : d.names.Nodup := by
  induction d with
  | empty => exact List.nodup_nil
  | file name content others ih => exact List.nodup_cons.2 ⟨hd.2.1, ih hd.2.2⟩
  | directory name inside others _ ih => exact List.nodup_cons.2 ⟨hd.2.1, ih hd.2.2.2⟩

/-- The walk that leaves out nothing lists the files of a file tree in order. -/
theorem pairwise_files (d : Directory α) (hd : d.Proper) :
    (d.files .unrestricted).Pairwise (· < ·) := by
  have hjoined : ∀ e : Directory α, e.Proper →
      (∀ branch ∈ e.branches .unrestricted, branch.2.Pairwise (· < ·)) →
      (e.files .unrestricted).Pairwise (· < ·) := fun e he =>
    pairwise_joinByName _ ((names_branches _ e).symm ▸ nodup_names e he)
      (exists_cons_of_mem_branches _ e)
  refine hjoined d hd ?_
  induction d with
  | empty => exact fun branch hmem => absurd hmem List.not_mem_nil
  | file name content others ih =>
      exact List.forall_mem_cons.2 ⟨List.pairwise_singleton _ _, ih hd.2.2⟩
  | directory name inside others ihinside ih =>
      obtain ⟨-, -, hinside, hothers⟩ := hd
      refine List.forall_mem_cons.2 ⟨?_, ih hothers⟩
      -- A name in front of all does not change their order.
      have hfiles := hjoined inside hinside (ihinside hinside)
      exact List.pairwise_map.2 (hfiles.imp fun hlt => List.Lex.cons hlt)

/-- All files of a file tree, depth first and the entries of every directory in the order
    of their names: this is the order of the names that lead to the files. -/
structure Lists (d : Directory α) (files : List (List Path)) : Prop where
  members : ∀ names, names ∈ files ↔ ∃ content, d.Holds names content
  ordered : files.Pairwise (· < ·)

theorem lists_files (d : Directory α) (hd : d.Proper) : d.Lists (d.files .unrestricted) :=
  ⟨mem_files_iff d hd, pairwise_files d hd⟩

/-- There is only one such list. -/
theorem eq_of_lists (d : Directory α) (first second : List (List Path)) (hfirst : d.Lists first)
    (hsecond : d.Lists second) : first = second := by
  refine hfirst.ordered.eq_of_mem_iff hsecond.ordered fun names => ?_
  rw [hfirst.members, hsecond.members]

end Directory

end FileSignatures
