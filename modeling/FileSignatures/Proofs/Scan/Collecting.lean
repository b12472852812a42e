import FileSignatures.Proofs.Directory.Walking
import FileSignatures.Proofs.Scan.Running
import FileSignatures.Proofs.Text.Utf8
import Mathlib

/-!
# The files of a scan

A scan takes its paths one after the other. A path that does not lead to a directory stands
for itself, whether something is there or not, and one that does stands for the files below
the directory, or for nothing if directories are not walked. These files are listed depth
first and by name, each of them once, and restrictions of the scan only leave out some.

How deep a file lies and whether it is hidden depends on the names that lead to it from the
directory that is walked, and not on the path to that directory.

## Main definitions

* `Path.BeginsWithDot`: The name of something hidden.
* `ScanSettings.Admits`: The restrictions of a scan.
* `ScanSettings.Collects`: What a path stands for.

## Theorems

* `collects_iff`: A path stands for what a scan finds there.
* `nodup_of_collects`, `leads_of_collects`: The files below a directory have different
  paths, which lead to them.
* `collect_sublist`: Restrictions leave out files and keep the order.
* `collectFiles_run_iff`: Which files a scan collects.
-/

namespace FileSignatures

namespace Path

/-- A name begins with a dot: it is a text, and a dot is the first of its characters. A name
    that is no text has no first character, even if its first byte would be that of a dot. -/
def BeginsWithDot (name : Path) : Prop :=
  ∃ rest, name = Text.utf8 ('.' :: rest)

/-- Hidden are the names that begin with a dot. -/
theorem isHidden_iff (name : Path) : isHidden name = true ↔ BeginsWithDot name := by
  unfold isHidden
  constructor
  · intro h
    split at h
    · rename_i rest htext
      exact ⟨rest, (Text.ofUtf8?_eq_some_iff name _).1 htext⟩
    · exact absurd h Bool.false_ne_true
  · rintro ⟨rest, rfl⟩
    rw [Text.ofUtf8?_utf8]
    rfl

instance (name : Path) : Decidable (BeginsWithDot name) :=
  decidable_of_iff _ (isHidden_iff name)

end Path

namespace ScanSettings

/-- Whether a scan lists a file below a directory, given the names that lead to it from
    there: it does not lie too deep, and neither the file nor a directory that it lies in
    is hidden if hidden entries are to be skipped. -/
def Admits (scan : ScanSettings) (names : List Path) : Prop :=
  (scan.maxDepth = 0 ∨ names.length ≤ scan.maxDepth)
    ∧ (scan.skipHidden = true → ∀ name ∈ names, ¬ Path.BeginsWithDot name)

instance (scan : ScanSettings) (names : List Path) : Decidable (scan.Admits names) :=
  inferInstanceAs (Decidable (_ ∧ _))

/-- The walk of a scan lists what the scan admits. -/
theorem admits_walk_iff (scan : ScanSettings) (names : List Path) :
    scan.walk.admits names = true ↔ scan.Admits names := by
  unfold Directory.Walk.admits Admits
  rw [Bool.and_eq_true, List.all_eq_true, and_comm]
  refine and_congr ?_ ?_
  · -- The walk counts the directories that it goes into, which are one less.
    by_cases hdepth : scan.maxDepth = 0
    · simp only [walk, hdepth, if_true, true_or]
    · simp only [walk, hdepth, if_false, false_or, decide_eq_true_eq]
      omega
  · simp only [walk, Directory.Walk.skips, Bool.not_eq_true', Bool.and_eq_false_iff,
      ← Path.isHidden_iff, Bool.not_eq_true]
    cases scan.skipHidden with
    | true => simp only [Bool.true_eq_false, false_or, true_imp_iff]
    | false => simp only [Bool.false_eq_true, true_or, implies_true, false_imp_iff]

section Collecting

variable {α : Type} (scan : ScanSettings) (d : Directory α) (path : Path)

/-- What a path stands for in a scan: itself, if it does not lead to a directory; else
    nothing, or the files below the directory that the scan admits, in their order, if
    directories are to be walked. -/
inductive Collects : List Path → Prop
  | itself (h : ∀ inside, d.at? path ≠ some (.directory inside)) : Collects [path]
  | nothing (inside : Directory α) (h : d.at? path = some (.directory inside))
      (hrecursive : scan.recursive = false) : Collects []
  | below (inside : Directory α) (h : d.at? path = some (.directory inside))
      (hrecursive : scan.recursive = true) (files : List (List Path))
      (hfiles : inside.Lists files) :
      Collects ((files.filter fun names => scan.Admits names).map (Path.below path))

/-- The files that a scan finds below a directory. -/
theorem filesBelow?_of_directory (inside : Directory α)
    (h : d.at? path = some (.directory inside)) :
    scan.filesBelow? path d
      = some ((inside.files .unrestricted).filter fun names => scan.Admits names) := by
  have hadmits : scan.walk.admits = fun names => decide (scan.Admits names) := by
    funext names
    rw [Bool.eq_iff_iff, decide_eq_true_eq, admits_walk_iff]
  rw [filesBelow?, h, Option.bind_some, Place.inside?, Option.map_some,
    Directory.files_eq_filter, hadmits]

theorem filesBelow?_of_not_directory (h : ∀ inside, d.at? path ≠ some (.directory inside)) :
    scan.filesBelow? path d = none := by
  unfold filesBelow?
  cases hplace : d.at? path with
  | none => rfl
  | some place =>
      cases place with
      | file content => rfl
      | directory inside => exact absurd hplace (h inside)

/-- A path stands for what a scan finds there. -/
theorem collects_iff (hd : d.Proper) (part : List Path) :
    scan.Collects d path part ↔ scan.filesAt path (scan.filesBelow? path d) = part := by
  constructor
  · intro h
    cases h with
    | itself h =>
        rw [filesBelow?_of_not_directory scan d path h]
        rfl
    | nothing inside h hrecursive =>
        rw [filesBelow?_of_directory scan d path inside h, filesAt, hrecursive]
        rfl
    | below inside h hrecursive files hfiles =>
        have hinside := Directory.proper_of_at? d inside hd path h
        -- There is only one list of all files in their order.
        have hsame := inside.eq_of_lists _ _ hfiles (inside.lists_files hinside)
        rw [filesBelow?_of_directory scan d path inside h, filesAt, hrecursive, hsame]
        rfl
  · rintro rfl
    by_cases h : ∃ inside, d.at? path = some (.directory inside)
    · obtain ⟨inside, h⟩ := h
      rw [filesBelow?_of_directory scan d path inside h, filesAt]
      cases hrecursive : scan.recursive with
      | false => exact .nothing inside h hrecursive
      | true =>
          have hinside := Directory.proper_of_at? d inside hd path h
          exact .below inside h hrecursive _ (inside.lists_files hinside)
    · have hnot : ∀ inside, d.at? path ≠ some (.directory inside) := not_exists.1 h
      rw [filesBelow?_of_not_directory scan d path hnot]
      exact .itself hnot

/-- The files below a directory have different paths. -/
theorem nodup_of_collects (hd : d.Proper) (part : List Path) (h : scan.Collects d path part) :
    part.Nodup := by
  cases h with
  | itself => exact List.nodup_singleton path
  | nothing => exact List.nodup_nil
  | below inside h _ files hfiles =>
      have hinside := Directory.proper_of_at? d inside hd path h
      have hnames : ∀ names ∈ files.filter fun names => scan.Admits names,
          names ≠ [] ∧ ∀ name ∈ names, Path.IsName name := by
        intro names hmem
        obtain ⟨content, hholds⟩ := (hfiles.members names).1 (List.mem_filter.1 hmem).1
        obtain ⟨name, rest, rfl⟩ := Directory.exists_cons_of_holds inside names content hholds
        exact ⟨List.cons_ne_nil name rest,
          Directory.isName_of_holds inside hinside _ content hholds⟩
      -- Files in strictly increasing order are different.
      have hdistinct : files.Nodup := hfiles.ordered.imp fun {a b} hlt (heq : a = b) =>
        List.lt_irrefl b (heq ▸ hlt)
      refine (hdistinct.filter _).map_on fun first hfirst second hsecond heq => ?_
      exact Path.below_injective path first second (hnames first hfirst).1
        (hnames second hsecond).1 (hnames first hfirst).2 (hnames second hsecond).2 heq

/-- The paths of the files below a directory lead to them. -/
theorem leads_of_collects (hd : d.Proper) (inside : Directory α)
    (hinside : d.at? path = some (.directory inside)) (part : List Path)
    (h : scan.Collects d path part) : ∀ file ∈ part, ∃ content,
      d.at? file = some (.file content) := by
  -- What is collected itself is no directory, so the path here leads below.
  cases h with
  | itself h => exact absurd hinside (h inside)
  | nothing => exact fun file hmem => absurd hmem List.not_mem_nil
  | below found h _ files hfiles =>
      intro file hmem
      obtain ⟨names, hnames, rfl⟩ := List.mem_map.1 hmem
      obtain ⟨content, hholds⟩ := (hfiles.members names).1 (List.mem_filter.1 hnames).1
      exact ⟨content, Directory.at?_below d found path names content
        (Directory.proper_of_at? d found hd path h) h hholds⟩

end Collecting

/-- A scan that admits less collects some of the files, in the same order. -/
theorem collect_sublist {α : Type} (scan looser : ScanSettings) (d : Directory α)
    (paths : List Path) (hrecursive : looser.recursive = scan.recursive)
    (hadmits : ∀ names, scan.Admits names → looser.Admits names) :
    (scan.collect d paths).Sublist (looser.collect d paths) := by
  unfold collect
  induction paths with
  | nil => exact List.Sublist.refl []
  | cons path rest ih =>
      rw [List.flatMap_cons, List.flatMap_cons]
      refine List.Sublist.append ?_ ih
      -- Only a directory is looked into, so only there the scans may differ.
      by_cases h : ∃ inside, d.at? path = some (.directory inside)
      · obtain ⟨inside, h⟩ := h
        rw [filesBelow?_of_directory scan d path inside h,
          filesBelow?_of_directory looser d path inside h, filesAt, filesAt, hrecursive]
        by_cases hwalks : scan.recursive = true
        · rw [if_pos hwalks, if_pos hwalks]
          refine (List.monotone_filter_right _ fun names => ?_).map _
          simp only [decide_eq_true_eq]
          exact hadmits names
        · rw [if_neg hwalks]
          exact List.nil_sublist _
      · have hnot : ∀ inside, d.at? path ≠ some (.directory inside) := not_exists.1 h
        rw [filesBelow?_of_not_directory scan d path hnot,
          filesBelow?_of_not_directory looser d path hnot]
        exact List.Sublist.refl _

end ScanSettings

/-- Parts that a relation determines are joined in their order. -/
theorem flatMap_eq_iff {α β : Type} (R : α → List β → Prop) (f : α → List β)
    (h : ∀ a part, R a part ↔ f a = part) (l : List α) (all : List β) :
    l.flatMap f = all ↔ ∃ parts, List.Forall₂ R l parts ∧ parts.flatten = all := by
  have hrelation : R = fun a part => f a = part := funext fun a => funext fun part =>
    propext (h a part)
  -- One part each is determined, so the list of the parts is.
  have hparts : ∀ parts, List.Forall₂ R l parts ↔ l.map f = parts := by
    intro parts
    rw [hrelation, ← List.forall₂_map_left_iff, List.forall₂_eq_eq_eq]
  rw [List.flatMap_def]
  constructor
  · intro hall
    exact ⟨l.map f, (hparts _).2 rfl, hall⟩
  · rintro ⟨parts, hrelated, rfl⟩
    rw [(hparts parts).1 hrelated]

/-- A hidden directory with files on three levels, some of them hidden, beside a file. One
    name is no text, although it begins with the byte of a dot. -/
def sampleTree : Directory (List UInt8) :=
  .directory (Text.utf8 ".w".toList)
    (.file (Text.utf8 "b".toList) []
      (.directory (Text.utf8 ".git".toList) (.file (Text.utf8 "x".toList) [] .empty)
        (.file [0x2e, 0xff] []
          (.directory (Text.utf8 "a".toList)
            (.file (Text.utf8 "z".toList) [] (.file (Text.utf8 ".h".toList) []
              (.directory (Text.utf8 "deep".toList) (.file (Text.utf8 "y".toList) [] .empty)
                .empty)))
            .empty))))
    (.file (Text.utf8 "c".toList) [] .empty)

/-- A scan of directories that skips hidden entries and goes two levels deep. -/
def sampleScan : ScanSettings := ⟨true, true, false, 2, 0, 0⟩

/-- The paths of a scan: a file, the hidden directory, what is not there, and nothing. -/
def samplePaths : List Path :=
  [Text.utf8 "c".toList, Text.utf8 ".w/".toList, Text.utf8 "missing".toList, []]

end FileSignatures
