import FileSignatures.Directory.Basic
import FileSignatures.Proofs.Text.Splitting

/-!
# Paths in a file tree

In a file tree the entries of a directory have different names, and none of them can be
mistaken for a path. A file is then reached in one way: by the names of the directories
that it lies in, from the outside inwards, and its own (`Directory.Holds`).

The path of something below a directory is put together from the path of the directory
and from such names. Splitting it at its slashes gives the names back
(`pieces_below`), so different names make different paths, and it leads from the directory
to where the names lead (`at?_below`).

## Main definitions

* `Path.IsName`: A name that an entry can have.
* `Directory.Proper`: A file tree.
* `Directory.Holds`: Names that lead to a file.
* `Path.stem`: The pieces of a path in front of what lies below it.

## Theorems

* `holds_front_iff`: What an entry in front of others adds.
* `proper_of_at?`: Every directory in a file tree is one.
* `pieces_below`: The names of a path below another one.
* `below_injective`: Different names make different paths.
* `at?_below`: Where a path below a directory leads.
-/

namespace FileSignatures

/-- A name that an entry of a directory can have: it is not empty, has no slash, and does
    not stand for the directory itself or for the one around it. -/
structure Path.IsName (name : Path) : Prop where
  leads : isSamePlace name = false
  inwards : isEnclosing name = false
  slash : Path.slash ∉ name

instance (name : Path) : Decidable (Path.IsName name) :=
  decidable_of_iff
    (Path.isSamePlace name = false ∧ Path.isEnclosing name = false ∧ Path.slash ∉ name)
    ⟨fun h => ⟨h.1, h.2.1, h.2.2⟩, fun h => ⟨h.leads, h.inwards, h.slash⟩⟩

theorem Path.IsName.ne_nil {name : Path} (h : IsName name) : name ≠ [] := by
  rintro rfl
  exact absurd h.leads (by decide)

namespace Directory

variable {α : Type}

/-- The names of the entries. -/
def names : Directory α → List Path
  | empty => []
  | file name _ others => name :: names others
  | directory name _ others => name :: names others

/-- A file tree: no name is used twice in a directory, and all of them can be names. -/
def Proper : Directory α → Prop
  | empty => True
  | file name _ others => Path.IsName name ∧ name ∉ names others ∧ Proper others
  | directory name inside others =>
    Path.IsName name ∧ name ∉ names others ∧ Proper inside ∧ Proper others

instance decidableProper : (d : Directory α) → Decidable d.Proper
  | empty => .isTrue trivial
  | file name _ others =>
    have := decidableProper others
    inferInstanceAs (Decidable (Path.IsName name ∧ name ∉ names others ∧ Proper others))
  | directory name inside others =>
    have := decidableProper inside
    have := decidableProper others
    inferInstanceAs
      (Decidable (Path.IsName name ∧ name ∉ names others ∧ Proper inside ∧ Proper others))

/-- The names lead to a file with the content, from the outside inwards. -/
inductive Holds : Directory α → List Path → α → Prop
  | file (d : Directory α) (name : Path) (content : α)
      (h : d.entry? name = some (.file content)) : Holds d [name] content
  | inside (d inner : Directory α) (name : Path) (names : List Path) (content : α)
      (h : d.entry? name = some (.directory inner)) (hinner : Holds inner names content) :
      Holds d (name :: names) content

section Entries

variable (n name : Path) (others : Directory α)

theorem entry?_empty : entry? name (empty : Directory α) = none := rfl

theorem entry?_file (content : α) :
    entry? name (file n content others)
      = if n = name then some (.file content) else entry? name others := rfl

theorem entry?_directory (inside : Directory α) :
    entry? name (directory n inside others)
      = if n = name then some (.directory inside) else entry? name others := rfl

end Entries

theorem mem_names_of_entry (d : Directory α) (name : Path) (place : Place α)
    (h : d.entry? name = some place) : name ∈ d.names := by
  induction d with
  | empty => exact absurd h (by simp only [entry?_empty, reduceCtorEq, not_false_eq_true])
  | file n content others ih =>
      rw [entry?_file] at h
      by_cases hname : n = name
      · exact hname ▸ List.mem_cons_self
      · rw [if_neg hname] at h
        exact List.mem_cons_of_mem _ (ih h)
  | directory n inside others _ ih =>
      rw [entry?_directory] at h
      by_cases hname : n = name
      · exact hname ▸ List.mem_cons_self
      · rw [if_neg hname] at h
        exact List.mem_cons_of_mem _ (ih h)

/-- The first name is that of an entry, from which the others lead on. -/
theorem holds_cons_iff (d : Directory α) (name : Path) (rest : List Path) (content : α) :
    d.Holds (name :: rest) content
      ↔ (rest = [] ∧ d.entry? name = some (.file content))
        ∨ ∃ inner, d.entry? name = some (.directory inner) ∧ inner.Holds rest content := by
  constructor
  · intro h
    cases h with
    | file _ _ _ hentry => exact Or.inl ⟨rfl, hentry⟩
    | inside _ inner _ _ _ hentry hinner => exact Or.inr ⟨inner, hentry, hinner⟩
  · rintro (⟨rfl, hentry⟩ | ⟨inner, hentry, hinner⟩)
    · exact .file d name content hentry
    · exact .inside d inner name rest content hentry hinner

theorem exists_cons_of_holds (d : Directory α) (names : List Path) (content : α)
    (h : d.Holds names content) : ∃ name rest, names = name :: rest := by
  cases h with
  | file _ name _ _ => exact ⟨name, [], rfl⟩
  | inside _ _ name rest _ _ _ => exact ⟨name, rest, rfl⟩

/-- An entry in front of others adds what is reached through its name. -/
theorem holds_front_iff (d others : Directory α) (name : Path) (names : List Path)
    (content : α) (hother : ∀ n, name ≠ n → d.entry? n = others.entry? n)
    (hname : name ∉ others.names) :
    d.Holds names content
      ↔ (∃ rest, names = name :: rest ∧ d.Holds (name :: rest) content)
        ∨ others.Holds names content := by
  have hsame : ∀ n rest, name ≠ n →
      (d.Holds (n :: rest) content ↔ others.Holds (n :: rest) content) := by
    intro n rest hn
    rw [holds_cons_iff, holds_cons_iff, hother n hn]
  -- The name is not used again, so the others have nothing under it.
  have hnone : others.entry? name = none := Option.eq_none_iff_forall_ne_some.2
    fun place hplace => hname (mem_names_of_entry others name place hplace)
  constructor
  · intro h
    obtain ⟨n, rest, rfl⟩ := exists_cons_of_holds d names content h
    by_cases hn : name = n
    · exact Or.inl ⟨rest, by rw [hn], hn ▸ h⟩
    · exact Or.inr ((hsame n rest hn).1 h)
  · rintro (⟨rest, rfl, h⟩ | h)
    · exact h
    · obtain ⟨n, rest, rfl⟩ := exists_cons_of_holds others names content h
      refine (hsame n rest fun hn => ?_).2 h
      rw [holds_cons_iff, ← hn, hnone] at h
      simp at h

/-- A file in front of other entries is reached by its name. -/
theorem holds_file_iff (name : Path) (own : α) (others : Directory α) (names : List Path)
    (content : α) (hname : name ∉ others.names) :
    (file name own others).Holds names content
      ↔ (names = [name] ∧ content = own) ∨ others.Holds names content := by
  have hentry : entry? name (file name own others) = some (.file own) := by
    rw [entry?_file, if_pos rfl]
  rw [holds_front_iff _ others name names content
    (fun n hn => by rw [entry?_file, if_neg hn]) hname]
  -- Nothing lies below a file, so the path ends with it.
  refine or_congr_left ⟨?_, ?_⟩
  · rintro ⟨rest, rfl, h⟩
    rw [holds_cons_iff, hentry] at h
    simp only [Option.some.injEq, Place.file.injEq, reduceCtorEq, false_and, exists_false,
      or_false] at h
    exact ⟨by rw [h.1], h.2.symm⟩
  · rintro ⟨rfl, rfl⟩
    exact ⟨[], rfl, .file _ name content hentry⟩

/-- What lies in a directory in front of other entries is reached through its name. -/
theorem holds_directory_iff (name : Path) (inside others : Directory α) (names : List Path)
    (content : α) (hname : name ∉ others.names) :
    (directory name inside others).Holds names content
      ↔ (∃ rest, names = name :: rest ∧ inside.Holds rest content)
        ∨ others.Holds names content := by
  have hentry : entry? name (directory name inside others) = some (.directory inside) := by
    rw [entry?_directory, if_pos rfl]
  rw [holds_front_iff _ others name names content
    (fun n hn => by rw [entry?_directory, if_neg hn]) hname]
  refine or_congr_left (exists_congr fun rest => and_congr_right fun _ => ?_)
  rw [holds_cons_iff, hentry]
  simp only [Option.some.injEq, Place.directory.injEq, reduceCtorEq, and_false, false_or,
    exists_eq_left']

/-- The entries of a file tree have names and are file trees. -/
theorem proper_of_entry (d : Directory α) (hd : d.Proper) (name : Path) (place : Place α)
    (h : d.entry? name = some place) :
    Path.IsName name ∧ ∀ inside, place = .directory inside → inside.Proper := by
  induction d with
  | empty => exact absurd h (by simp only [entry?_empty, reduceCtorEq, not_false_eq_true])
  | file n content others ih =>
      obtain ⟨hn, -, hothers⟩ := hd
      rw [entry?_file] at h
      by_cases hname : n = name
      · rw [if_pos hname, Option.some.injEq] at h
        refine ⟨hname ▸ hn, fun inside hinside => ?_⟩
        exact absurd (h.trans hinside) (by simp only [reduceCtorEq, not_false_eq_true])
      · rw [if_neg hname] at h
        exact ih hothers h
  | directory n inner others _ ih =>
      -- Only here may the entry be a directory, and it is the inner one.
      obtain ⟨hn, -, hinner, hothers⟩ := hd
      rw [entry?_directory] at h
      by_cases hname : n = name
      · rw [if_pos hname, Option.some.injEq] at h
        refine ⟨hname ▸ hn, fun inside hinside => ?_⟩
        rw [← h, Place.directory.injEq] at hinside
        exact hinside ▸ hinner
      · rw [if_neg hname] at h
        exact ih hothers h

theorem isName_of_holds (d : Directory α) (hd : d.Proper) (names : List Path) (content : α)
    (h : d.Holds names content) : ∀ name ∈ names, Path.IsName name := by
  induction h with
  | file d name content hentry =>
      intro n hn
      rw [List.mem_singleton.1 hn]
      exact (proper_of_entry d hd name _ hentry).1
  | inside d inner name names content hentry _ ih =>
      obtain ⟨hname, hinner⟩ := proper_of_entry d hd name _ hentry
      exact List.forall_mem_cons.2 ⟨hname, ih (hinner inner rfl)⟩

section Following

variable (outer : List (Directory α)) (here : Directory α) (piece : Path) (rest : List Path)

theorem follow?_stays (h : Path.isSamePlace piece = true) :
    follow? outer here (piece :: rest) = follow? outer here rest := by
  unfold follow?
  rw [if_pos h]
  cases rest <;> rfl

theorem follow?_outwards (hleads : Path.isSamePlace piece = false)
    (h : Path.isEnclosing piece = true) :
    follow? outer here (piece :: rest) = follow? outer.tail (outer.headD here) rest := by
  rw [follow?.eq_def]
  simp only [hleads, h, if_true]
  cases outer <;> rfl

theorem follow?_inwards (hleads : Path.isSamePlace piece = false)
    (h : Path.isEnclosing piece = false) :
    follow? outer here (piece :: rest)
      = match here.entry? piece with
        | none => none
        | some (.directory inside) => follow? (here :: outer) inside rest
        | some (.file content) => if rest.isEmpty then some (.file content) else none := by
  cases hentry : here.entry? piece with
  | none =>
      -- Neither a dot nor two of them, so the entry of this name decides.
      rw [follow?.eq_def]
      simp only [hleads, h, hentry, Bool.false_eq_true, if_false]
  | some place =>
      rw [follow?.eq_def]
      cases place with
      | file content => simp only [hleads, h, hentry, Bool.false_eq_true, if_false]
      | directory inside => simp only [hleads, h, hentry, Bool.false_eq_true, if_false]

end Following

/-- A path to a directory goes through directories. -/
theorem exists_of_follow?_inwards (outer : List (Directory α)) (here inside : Directory α)
    (piece : Path) (rest : List Path) (hleads : Path.isSamePlace piece = false)
    (hinwards : Path.isEnclosing piece = false)
    (h : follow? outer here (piece :: rest) = some (.directory inside)) :
    ∃ inner, here.entry? piece = some (.directory inner)
      ∧ follow? (here :: outer) inner rest = some (.directory inside) := by
  rw [follow?_inwards outer here piece rest hleads hinwards] at h
  split at h
  · exact absurd h (by simp only [reduceCtorEq, not_false_eq_true])
  · rename_i inner hentry
    exact ⟨inner, hentry, h⟩
  · split at h
    · -- A file is no directory, even at the end of the pieces.
      rw [Option.some.injEq] at h
      exact absurd h (by simp only [reduceCtorEq, not_false_eq_true])
    · exact absurd h (by simp only [reduceCtorEq, not_false_eq_true])

/-- Every directory that pieces lead to in a file tree is one. -/
theorem proper_of_follow? (pieces : List Path) (outer : List (Directory α))
    (here inside : Directory α) (houter : ∀ d ∈ outer, d.Proper) (hhere : here.Proper)
    (h : follow? outer here pieces = some (.directory inside)) : inside.Proper := by
  induction pieces generalizing outer here with
  | nil =>
      rw [follow?, Option.some.injEq, Place.directory.injEq] at h
      exact h ▸ hhere
  | cons piece rest ih =>
      cases hleads : Path.isSamePlace piece with
      | true =>
          rw [follow?_stays outer here piece rest hleads] at h
          exact ih outer here houter hhere h
      | false =>
          cases hinwards : Path.isEnclosing piece with
          | true =>
              rw [follow?_outwards outer here piece rest hleads hinwards] at h
              refine ih _ _ (fun d hd => houter d (List.mem_of_mem_tail hd)) ?_ h
              -- The parent of the root is the root itself.
              cases outer with
              | nil => exact hhere
              | cons enclosing more => exact houter enclosing List.mem_cons_self
          | false =>
              obtain ⟨inner, hentry, hrest⟩ :=
                exists_of_follow?_inwards outer here inside piece rest hleads hinwards h
              have hinner := (proper_of_entry here hhere piece _ hentry).2 inner rfl
              exact ih (here :: outer) inner (List.forall_mem_cons.2 ⟨hhere, houter⟩) hinner hrest

/-- Only a path that is not empty leads somewhere: to where its pieces lead. -/
theorem at?_eq_some_iff (d : Directory α) (path : Path) (place : Place α) :
    d.at? path = some place
      ↔ path ≠ [] ∧ follow? [] d (Text.pieces Path.slash path) = some place := by
  unfold at?
  cases path with
  | nil => simp
  | cons byte rest => simp

theorem proper_of_at? (d inside : Directory α) (hd : d.Proper) (path : Path)
    (h : d.at? path = some (.directory inside)) : inside.Proper :=
  proper_of_follow? _ [] d inside (fun _ hmem => absurd hmem List.not_mem_nil) hd
    ((at?_eq_some_iff d path _).1 h).2

/-- The first pieces of a path to a directory lead to a directory, too, and the others
    from there on. -/
theorem follow?_through (first second : List Path) (outer : List (Directory α))
    (here inside : Directory α)
    (h : follow? outer here (first ++ second) = some (.directory inside)) :
    ∃ around between, ∀ others,
      follow? outer here (first ++ others) = follow? around between others := by
  induction first generalizing outer here with
  | nil => exact ⟨outer, here, fun _ => rfl⟩
  | cons piece rest ih =>
      simp only [List.cons_append] at h ⊢
      -- All that has to be known of the second part is that no piece before it ends at a file.
      cases hleads : Path.isSamePlace piece with
      | true =>
          simp only [follow?_stays _ _ _ _ hleads] at h ⊢
          exact ih outer here h
      | false =>
          cases hinwards : Path.isEnclosing piece with
          | true =>
              simp only [follow?_outwards _ _ _ _ hleads hinwards] at h ⊢
              exact ih _ _ h
          | false =>
              obtain ⟨inner, hentry, hrest⟩ :=
                exists_of_follow?_inwards outer here inside piece _ hleads hinwards h
              simp only [follow?_inwards _ _ _ _ hleads hinwards, hentry]
              exact ih (here :: outer) inner hrest

/-- Names lead on from a directory, whatever it lies in. -/
theorem follow?_of_holds (d : Directory α) (hd : d.Proper) (names : List Path) (content : α)
    (h : d.Holds names content) (outer : List (Directory α)) :
    follow? outer d names = some (.file content) := by
  induction h generalizing outer with
  | file d name content hentry =>
      obtain ⟨hname, -⟩ := proper_of_entry d hd name _ hentry
      rw [follow?_inwards outer d name [] hname.leads hname.inwards, hentry]
      rfl
  | inside d inner name names content hentry _ ih =>
      obtain ⟨hname, hinner⟩ := proper_of_entry d hd name _ hentry
      rw [follow?_inwards outer d name names hname.leads hname.inwards, hentry]
      exact ih (hinner inner rfl) (d :: outer)

end Directory

namespace Path

/-- The pieces of a path in front of what lies below it: all of them but an empty one at
    the end. -/
def stem (path : Path) : List Path :=
  if (Text.pieces slash path).getLast? = some [] then (Text.pieces slash path).dropLast
  else Text.pieces slash path

theorem stem_of_empty (path : Path) (before : List Path)
    (h : Text.pieces slash path = before ++ [[]]) : stem path = before := by
  unfold stem
  rw [h, if_pos List.getLast?_concat, List.dropLast_concat]

theorem stem_of_nonempty (path : Path) (before : List Path) (last : Path)
    (h : Text.pieces slash path = before ++ [last]) (hlast : last ≠ []) :
    stem path = Text.pieces slash path := by
  unfold stem
  rw [if_neg]
  rw [h, List.getLast?_concat, Option.some.injEq]
  exact hlast

theorem exists_pieces_append_singleton (t : Path) (c : UInt8) (hc : c ≠ slash) :
    ∃ before last, Text.pieces slash (t ++ [c]) = before ++ [last ++ [c]] := by
  induction t with
  | nil => exact ⟨[], [], by rw [List.nil_append, Text.pieces, if_neg hc]; rfl⟩
  | cons d t ih =>
      obtain ⟨before, last, hpieces⟩ := ih
      rw [List.cons_append, Text.pieces]
      -- A slash begins a new first piece; any other byte lengthens the one there is.
      by_cases hd : d = slash
      · rw [if_pos hd, hpieces]
        exact ⟨[] :: before, last, rfl⟩
      · rw [if_neg hd, hpieces]
        cases before with
        | nil => exact ⟨[], d :: last, rfl⟩
        | cons first more => exact ⟨(d :: first) :: more, last, rfl⟩

/-- A slash is only put where there is none. -/
theorem entry_concat (before name : Path) (c : UInt8) :
    entry (before ++ [c]) name
      = if c = slash then before ++ c :: name else before ++ [c] ++ slash :: name := by
  unfold entry
  rw [List.getLast?_concat]
  simp only
  rw [List.append_assoc, List.singleton_append]

/-- The pieces of a path are those in front of it and the name. -/
theorem pieces_entry (path name : Path) (hname : slash ∉ name) :
    Text.pieces slash (entry path name) = stem path ++ [name] := by
  have hpiece := pieces_eq_singleton slash name hname
  rcases List.eq_nil_or_concat path with rfl | ⟨before, c, hpath⟩
  · exact hpiece
  · rw [List.concat_eq_append] at hpath
    subst hpath
    rw [entry_concat]
    -- A slash at the end leaves an empty piece behind it, whose place the name takes.
    by_cases hc : c = slash
    · subst hc
      rw [if_pos rfl, pieces_join, hpiece,
        stem_of_empty _ (Text.pieces slash before) (pieces_join slash before [])]
    · obtain ⟨front, last, hpieces⟩ := exists_pieces_append_singleton before c hc
      have hlast : last ++ [c] ≠ [] := List.append_ne_nil_of_right_ne_nil _ (List.cons_ne_nil c [])
      rw [if_neg hc, pieces_join, hpiece, stem_of_nonempty _ front _ hpieces hlast]

/-- The pieces of a path below another one are those in front of it and the names. -/
theorem pieces_below (path name : Path) (rest : List Path) (hname : IsName name)
    (hrest : ∀ n ∈ rest, IsName n) :
    Text.pieces slash (below path (name :: rest)) = stem path ++ name :: rest := by
  induction rest generalizing path name with
  | nil => exact pieces_entry path name hname.slash
  | cons next rest ih =>
      obtain ⟨hnext, hrest⟩ := List.forall_mem_cons.1 hrest
      have hpieces := pieces_entry path name hname.slash
      -- A path below a path is one below its first entry.
      have hbelow : below path (name :: next :: rest) = below (entry path name) (next :: rest) :=
        rfl
      rw [hbelow, ih (entry path name) next hnext hrest,
        stem_of_nonempty _ (stem path) name hpieces hname.ne_nil, hpieces,
        List.append_assoc, List.singleton_append]

/-- Different names make different paths. -/
theorem below_injective (path : Path) (first second : List Path) (hfirst : first ≠ [])
    (hsecond : second ≠ []) (hnames : ∀ n ∈ first, IsName n) (hothers : ∀ n ∈ second, IsName n)
    (h : below path first = below path second) : first = second := by
  obtain ⟨name, rest, rfl⟩ := List.exists_cons_of_ne_nil hfirst
  obtain ⟨other, more, rfl⟩ := List.exists_cons_of_ne_nil hsecond
  obtain ⟨hname, hrest⟩ := List.forall_mem_cons.1 hnames
  obtain ⟨hother, hmore⟩ := List.forall_mem_cons.1 hothers
  have hpieces := congrArg (Text.pieces slash) h
  rw [pieces_below path name rest hname hrest, pieces_below path other more hother hmore] at hpieces
  exact List.append_cancel_left hpieces

end Path

namespace Directory

variable {α : Type}

/-- The pieces in front of what lies below a path lead to the directory there. -/
theorem follow?_stem (d inside : Directory α) (path : Path)
    (h : d.at? path = some (.directory inside)) :
    ∃ around, ∀ others, follow? [] d (Path.stem path ++ others) = follow? around inside others := by
  rcases (at?_eq_some_iff d path _).1 h with ⟨-, h⟩
  -- What the stem leaves out is at most an empty piece, and that stays where it is.
  obtain ⟨tail, hpieces, htail⟩ : ∃ tail, Text.pieces Path.slash path = Path.stem path ++ tail
      ∧ ∀ around between, follow? around between tail = some (.directory between) := by
    obtain ⟨first, more, hcons⟩ := pieces_eq_cons Path.slash path
    rcases List.eq_nil_or_concat (Text.pieces Path.slash path) with hnil | ⟨before, last, hconcat⟩
    · exact absurd (hnil.symm.trans hcons) (by simp only [reduceCtorEq, not_false_eq_true])
    · rw [List.concat_eq_append] at hconcat
      by_cases hlast : last = []
      · subst hlast
        exact ⟨[[]], by rw [Path.stem_of_empty path before hconcat, hconcat], fun _ _ => rfl⟩
      · refine ⟨[], ?_, fun _ _ => rfl⟩
        rw [Path.stem_of_nonempty path before last hconcat hlast, List.append_nil]
  rw [hpieces] at h
  obtain ⟨around, between, hthrough⟩ := follow?_through _ _ [] d inside h
  rw [hthrough, htail, Option.some.injEq, Place.directory.injEq] at h
  exact ⟨around, h ▸ hthrough⟩

/-- A path below a directory leads to the file that the names lead to there. -/
theorem at?_below (d inside : Directory α) (path : Path) (names : List Path) (content : α)
    (hinside : inside.Proper) (h : d.at? path = some (.directory inside))
    (hholds : inside.Holds names content) :
    d.at? (Path.below path names) = some (.file content) := by
  have hnames := isName_of_holds inside hinside names content hholds
  obtain ⟨name, rest, rfl⟩ := exists_cons_of_holds inside names content hholds
  obtain ⟨hname, hrest⟩ := List.forall_mem_cons.1 hnames
  obtain ⟨around, hfollow⟩ := follow?_stem d inside path h
  have hpieces := Path.pieces_below path name rest hname hrest
  refine (at?_eq_some_iff d _ _).2 ⟨fun hempty => ?_, ?_⟩
  · -- The empty path has only an empty piece, and that is no name.
    rw [hempty] at hpieces
    have hmem : name ∈ Text.pieces Path.slash [] :=
      hpieces ▸ List.mem_append_right _ List.mem_cons_self
    exact hname.ne_nil (List.mem_singleton.1 hmem)
  · rw [hpieces, hfollow]
    exact follow?_of_holds inside hinside _ content hholds around

end Directory

end FileSignatures
