import FileSignatures.Proofs.Toml.Lines

/-!
# Documents of tables

A text of headers, each followed by the entries of its table, is read back as those tables if
no name and no key in a table comes twice. The reader goes on line by line from the document
that it has so far, so the statement that is carried through a text begins with any document
(`Reaches`): what is read of a text leaves a document and the rest of the text, and enough of
the fuel for it.

## Main definitions

* `Toml.Reaches`: Reading a text comes to a state in front of the rest of it.
* `Toml.WritesEntries`, `Toml.WritesTables`: A text writes entries, or tables.
* `Toml.ofTables`: The document of tables.

## Theorems

* `addTable?_new`, `addKey?_new`: New tables and keys come behind all others.
* `reaches_line`: One line is read, with the empty lines in front of it.
* `reaches_entries`, `reaches_tables`: So are the lines of a table, and those of all tables.
* `ofText?_of_writesTables`: Tables are read back from a text that writes them.
-/

namespace FileSignatures

namespace Toml

section Filling

variable (key : Text)

theorem alter?_new (change : Option Toml → Option Toml) (entries : Entries)
    (h : ∀ entry ∈ entries, entry.1 ≠ key) :
    alter? key change entries = (change none).map fun value => entries ++ [(key, value)] := by
  induction entries with
  | nil => rfl
  | cons entry entries ih =>
      obtain ⟨hentry, hentries⟩ := List.forall_mem_cons.1 h
      rw [alter?, if_neg hentry, ih hentries, Option.map_map]
      rfl

theorem alter?_last (change : Option Toml → Option Toml) (entries : Entries) (value : Toml)
    (h : ∀ entry ∈ entries, entry.1 ≠ key) :
    alter? key change (entries ++ [(key, value)])
      = (change (some value)).map fun value => entries ++ [(key, value)] := by
  induction entries with
  | nil => rw [List.nil_append, alter?, if_pos rfl]; rfl
  | cons entry entries ih =>
      obtain ⟨hentry, hentries⟩ := List.forall_mem_cons.1 h
      rw [List.cons_append, alter?, if_neg hentry, ih hentries, Option.map_map]
      rfl

/-- A header begins an empty table behind all others. -/
theorem addTable?_new (document : Entries) (h : ∀ entry ∈ document, entry.1 ≠ key) :
    addTable? [] key document = some (document ++ [(key, .table .header [])]) := by
  rw [addTable?, alterAt?, alter?_new key _ document h]
  rfl

/-- A key is set behind all others of the last table. -/
theorem addKey?_new (name : Text) (value : Toml) (document entries : Entries)
    (hname : ∀ entry ∈ document, entry.1 ≠ name) (hkey : ∀ entry ∈ entries, entry.1 ≠ key) :
    addKey? [name] [] key value (document ++ [(name, .table .header entries)])
      = some (document ++ [(name, .table .header (entries ++ [(key, value)]))]) := by
  have hset : setDotted? key value [] entries = some (entries ++ [(key, value)]) := by
    rw [setDotted?, setNew?, alter?_new key _ entries hkey]
    rfl
  rw [addKey?, alterAt?, alter?_last name _ document _ hname]
  simp only [alterAt?, hset, Option.map_some]

end Filling

section Runs

variable {state middle after : ReadState} {t between rest : Text}

/-- Reading a text comes to a state in front of the rest of the text, and the fuel that is
    enough for the text leaves enough for the rest. -/
def Reaches (state : ReadState) (t : Text) (after : ReadState) (rest : Text) : Prop :=
  ∀ fuel, t.length < fuel → ∃ left, rest.length < left
    ∧ readLines? fuel state t = readLines? left after rest

theorem reaches_refl (state : ReadState) (t : Text) : Reaches state t state t :=
  fun fuel hfuel => ⟨fuel, hfuel, rfl⟩

theorem reaches_trans (h : Reaches state t middle between)
    (hnext : Reaches middle between after rest) : Reaches state t after rest := by
  intro fuel hfuel
  obtain ⟨left, hleft, heq⟩ := h fuel hfuel
  obtain ⟨last, hlast, hsame⟩ := hnext left hleft
  exact ⟨last, hlast, heq.trans hsame⟩

/-- A text that begins a line with something to read. -/
def BeginsLine (t : Text) : Prop :=
  ∃ c more, t = c :: more ∧ isSpace c = false ∧ c ≠ '#' ∧ c ≠ '\n' ∧ c ≠ '\r'

theorem beginsLine_append (t rest : Text) (h : BeginsLine t) : BeginsLine (t ++ rest) := by
  obtain ⟨c, more, rfl, hc⟩ := h
  exact ⟨c, more ++ rest, rfl, hc⟩

theorem beginsLine_headerLine (name : Text) : BeginsLine (headerLine name) :=
  ⟨'[', _, rfl, by decide⟩

theorem beginsLine_entryLine (key own : Text) (h : IsBareKey key) :
    BeginsLine (entryLine key own) := by
  obtain ⟨c, more, rfl, hspace, hother⟩ := exists_cons_of_isBareKey key h
  simp only [List.mem_cons, List.not_mem_nil, or_false, not_or] at hother
  exact ⟨c, _, rfl, hspace, hother.2.2.2⟩

theorem skipLines_append (fuel blanks : Nat) (own : Text) (hfuel : blanks ≤ fuel)
    (h : BeginsLine own) : skipLines fuel (List.replicate blanks '\n' ++ own) = own := by
  induction blanks generalizing fuel with
  | zero =>
      obtain ⟨c, more, rfl, hspace, hhash, hnewline, hreturn⟩ := h
      -- The line itself begins with something that is no space, comment or line break.
      have hskip : skipSpace (c :: more) = c :: more :=
        skipSpace_of_stops _ fun d hd => by rw [← Option.some.inj hd, hspace]
      have hcomment : skipComment (c :: more) = c :: more := by
        unfold skipComment
        split
        · rename_i heq
          exact absurd (List.cons.inj heq).1 hhash
        · rfl
      cases fuel with
      | zero => rfl
      | succ fuel =>
          rw [List.replicate_zero, List.nil_append, skipLines, hskip, hcomment]
          split
          · rename_i heq
            exact absurd (List.cons.inj heq).1 hnewline
          · rename_i heq
            exact absurd (List.cons.inj heq).1 hreturn
          · rfl
  | succ blanks ih =>
      cases fuel with
      | zero => exact absurd hfuel (Nat.not_succ_le_zero _)
      | succ fuel => exact ih fuel (Nat.le_of_succ_le_succ hfuel)

/-- A line is read, with the empty lines in front of it. -/
theorem reaches_line (blanks : Nat) (line : Text) (hline : BeginsLine line)
    (hread : readLine? state (line ++ rest) = some (after, rest)) :
    Reaches state (List.replicate blanks '\n' ++ (line ++ rest)) after rest := by
  intro fuel hfuel
  have hskip := skipLines_append (List.replicate blanks '\n' ++ (line ++ rest)).length blanks
    (line ++ rest) (by rw [List.length_append, List.length_replicate]; omega)
    (beginsLine_append line rest hline)
  obtain ⟨c, more, rfl, -⟩ := hline
  -- The line uses up one unit of fuel, and it has at least one character.
  cases fuel with
  | zero => exact absurd hfuel (Nat.not_lt_zero _)
  | succ fuel =>
      rw [List.length_append, List.length_append, List.length_cons] at hfuel
      refine ⟨fuel, by omega, ?_⟩
      rw [readLines?, hskip]
      simp only [List.cons_append]
      rw [← List.cons_append, hread]
      rfl

end Runs

section Tables

/-- A text writes entries of a table, one a line. -/
inductive WritesEntries : Entries → Text → Prop
  | nil : WritesEntries [] []
  | cons (key : Text) (value : Toml) (own : Text) (entries : Entries) (body : Text)
      (hkey : IsBareKey key) (hvalue : Writes value own) (hentries : WritesEntries entries body) :
      WritesEntries ((key, value) :: entries) (entryLine key own ++ body)

/-- A text writes tables with headers of their own. Empty lines may stand in front of a
    header. -/
inductive WritesTables : List (Text × Entries) → Text → Prop
  | nil : WritesTables [] []
  | cons (blanks : Nat) (name : Text) (entries : Entries) (body : Text)
      (tables : List (Text × Entries)) (t : Text) (hname : IsBareKey name)
      (hentries : WritesEntries entries body) (htables : WritesTables tables t) :
      WritesTables ((name, entries) :: tables)
        (List.replicate blanks '\n' ++ (headerLine name ++ (body ++ t)))

/-- A document of tables with headers of their own. -/
def ofTables (tables : List (Text × Entries)) : Entries :=
  tables.map fun table => (table.1, .table .header table.2)

/-- In front of a key that no other entry has there are none with it. -/
theorem ne_of_nodup (before after : Entries) (key : Text) (value : Toml)
    (h : ((before ++ (key, value) :: after).map Prod.fst).Nodup) :
    ∀ entry ∈ before, entry.1 ≠ key := by
  intro entry hentry
  rw [List.map_append, List.nodup_append] at h
  refine h.2.2 entry.1 (List.mem_map_of_mem hentry) key ?_
  rw [List.map_cons]
  exact List.mem_cons_self

theorem reaches_entries (document set entries : Entries) (name body rest : Text)
    (hname : ∀ entry ∈ document, entry.1 ≠ name) (h : WritesEntries entries body)
    (hdistinct : ((set ++ entries).map Prod.fst).Nodup) :
    Reaches ⟨document ++ [(name, .table .header set)], [name]⟩ (body ++ rest)
      ⟨document ++ [(name, .table .header (set ++ entries))], [name]⟩ rest := by
  induction h generalizing set with
  | nil =>
      rw [List.append_nil, List.nil_append]
      exact reaches_refl _ _
  | cons key value own entries body hkey hvalue hentries ih =>
      -- The key is not among those that the table has already.
      have hset := ne_of_nodup set entries key value hdistinct
      have hread := readLine?_entry ⟨document ++ [(name, .table .header set)], [name]⟩
        (body ++ rest) _ key own value hkey hvalue
        (addKey?_new key name value document set hname hset)
      have hline := reaches_line 0 _ (beginsLine_entryLine key own hkey) hread
      rw [List.replicate_zero, List.nil_append] at hline
      have hnext := ih (set ++ [(key, value)])
        (by rw [List.append_assoc, List.singleton_append]; exact hdistinct)
      rw [List.append_assoc, List.singleton_append] at hnext
      rw [List.append_assoc]
      exact reaches_trans hline hnext

theorem reaches_tables (document : Entries) (current : List Text)
    (tables : List (Text × Entries)) (t : Text) (h : WritesTables tables t)
    (hkeys : ∀ table ∈ tables, (table.2.map Prod.fst).Nodup)
    (hnames : ((document ++ ofTables tables).map Prod.fst).Nodup) :
    ∃ last, Reaches ⟨document, current⟩ t ⟨document ++ ofTables tables, last⟩ [] := by
  induction h generalizing document current with
  | nil =>
      rw [ofTables, List.map_nil, List.append_nil]
      exact ⟨current, reaches_refl _ _⟩
  | cons blanks name entries body tables t hname hentries htables ih =>
      -- The header opens a new table, and the entries behind it belong to that one.
      have hnew := ne_of_nodup document (ofTables tables) name (.table .header entries) hnames
      have hread := readLine?_header ⟨document, current⟩ (body ++ t) _ name hname
        (addTable?_new name document hnew)
      have hline := reaches_line blanks _ (beginsLine_headerLine name) hread
      obtain ⟨hentry, hothers⟩ := List.forall_mem_cons.1 hkeys
      have hbody := reaches_entries document [] entries name body t hnew hentries hentry
      obtain ⟨last, hrest⟩ := ih (document ++ [(name, .table .header entries)]) [name] hothers
        (by rw [List.append_assoc, List.singleton_append]; exact hnames)
      refine ⟨last, reaches_trans hline (reaches_trans hbody ?_)⟩
      rw [List.append_assoc, List.singleton_append] at hrest
      exact hrest

/-- No mark of an encoding stands in front of tables. -/
theorem head?_of_writesTables (tables : List (Text × Entries)) (t : Text)
    (h : WritesTables tables t) : t.head? ≠ some '\ufeff' := by
  cases h with
  | nil => exact fun hmark => absurd hmark (by decide)
  | cons blanks name entries body tables t hname hentries htables =>
      cases blanks with
      | zero => exact fun hmark => absurd (Option.some.inj hmark) (by decide)
      | succ blanks => exact fun hmark => absurd (Option.some.inj hmark) (by decide)

/-- Tables are read back from a text that writes them. -/
theorem ofText?_of_writesTables (tables : List (Text × Entries)) (t : Text)
    (h : WritesTables tables t) (hnames : (tables.map Prod.fst).Nodup)
    (hkeys : ∀ table ∈ tables, (table.2.map Prod.fst).Nodup) :
    ofText? t = some (ofTables tables) := by
  have hmark : dropEncodingMark t = t := by
    unfold dropEncodingMark
    split
    · exact absurd rfl (head?_of_writesTables tables _ h)
    · rfl
  have hsame : ((ofTables tables).map Prod.fst) = tables.map Prod.fst := by
    rw [ofTables, List.map_map]
    rfl
  -- There is more fuel than the text has characters, so it is read to its end.
  obtain ⟨last, hrun⟩ := reaches_tables [] [] tables t h hkeys
    (by rw [List.nil_append, hsame]; exact hnames)
  obtain ⟨left, hleft, heq⟩ := hrun (t.length + 1) (Nat.lt_succ_self _)
  rw [ofText?, hmark, heq]
  cases left with
  | zero => exact absurd hleft (Nat.lt_irrefl 0)
  | succ left => rfl

end Tables

end Toml

end FileSignatures
