import FileSignatures.Proofs.Settings.Stated
import FileSignatures.Proofs.Toml.Integers
import FileSignatures.Proofs.Toml.Tables

/-!
# Settings that are read back

The text of settings states each of them, but for the path of a database if the built-in one
is used. A text may hold anything between its quotes, so there is nothing in the settings
that could keep them from being read back, with one exception: a count must fit in a signed
word, because that is what a document can say. Counts that have been read from a document do
(`fits_of_ofText?`), so settings that have been read can be written and read again.

## Main definitions

* `Settings.tables`: The tables that the text of settings consists of.
* `Settings.Fits`: The counts fit in signed words.

## Theorems

* `writesTables_text`: The text of settings writes their tables.
* `ofText?_text`: Settings that fit are read back from their text.
* `fits_of_ofText?`: Settings that have been read fit.
* `text_of_ofText?`: Settings that have been read are read back, and those that the document
  does not state have their defaults.
-/

namespace FileSignatures

namespace Settings

section Writing

/-- The settings of a section, in the order in which they are written. -/
def Section.all : Section → List Setting
  | general => [.logLevel]
  | database => [.path]
  | scan => [.recursive, .skipHidden, .followLinks, .maxDepth, .workers, .markLimit]
  | output => [.brief, .format]

variable (settings : Settings)

/-- What a setting is written as, if it is: its value in a document, and the text of that. -/
def Setting.written? : Setting → Option (Toml × Text)
  | logLevel => some (.string settings.general.logLevel, Toml.stringText settings.general.logLevel)
  | path => settings.database.path.map fun path => (.string path, Toml.stringText path)
  | recursive => some (.boolean settings.scan.recursive, Toml.boolText settings.scan.recursive)
  | skipHidden => some (.boolean settings.scan.skipHidden, Toml.boolText settings.scan.skipHidden)
  | followLinks =>
    some (.boolean settings.scan.followLinks, Toml.boolText settings.scan.followLinks)
  | maxDepth => some (.integer settings.scan.maxDepth, Text.ofNat settings.scan.maxDepth)
  | workers => some (.integer settings.scan.workers, Text.ofNat settings.scan.workers)
  | markLimit => some (.integer settings.scan.markLimit, Text.ofNat settings.scan.markLimit)
  | brief => some (.boolean settings.output.brief, Toml.boolText settings.output.brief)
  | format =>
    some (.string (formatKeyword settings.output.format),
      Toml.stringText (formatKeyword settings.output.format))

/-- The entry of a setting, if it is written. -/
def Setting.entry? (setting : Setting) : Option (Text × Toml) :=
  (setting.written? settings).map fun written => (setting.key, written.1)

/-- The line of a setting, if it is written. -/
def Setting.line (setting : Setting) : Text :=
  match setting.written? settings with
  | none => []
  | some written => Toml.entryLine setting.key written.2

/-- The table of a section. -/
def Section.table (home : Section) : Text × Toml.Entries :=
  (home.name, home.all.filterMap (Setting.entry? settings))

/-- The lines of a section, without its header. -/
def Section.body (home : Section) : Text :=
  home.all.flatMap (Setting.line settings)

/-- The tables that the text of settings consists of. -/
def tables : List (Text × Toml.Entries) :=
  [Section.general, Section.database, Section.scan, Section.output].map (Section.table settings)

/-- The counts fit in signed words. -/
structure Fits : Prop where
  maxDepth : (settings.scan.maxDepth : Int) < Literal.signedBound
  workers : (settings.scan.workers : Int) < Literal.signedBound
  markLimit : (settings.scan.markLimit : Int) < Literal.signedBound

theorem isBareKey_name (home : Section) : Toml.IsBareKey home.name := by
  cases home <;> exact ⟨by decide, List.all_eq_true.1 (by decide)⟩

theorem isBareKey_key (setting : Setting) : Toml.IsBareKey setting.key := by
  cases setting <;> exact ⟨by decide, List.all_eq_true.1 (by decide)⟩

/-- Whatever a setting is, it is written as a value that can be read. -/
theorem writes_of_written? (h : settings.Fits) (setting : Setting) (value : Toml) (own : Text)
    (hwritten : setting.written? settings = some (value, own)) : Toml.Writes value own := by
  have hstring : ∀ t : Text, Toml.Writes (.string t) (Toml.stringText t) :=
    fun t => .string t _ (Toml.holds_formOf t)
  -- The path is the one setting that may be missing from the text.
  cases setting
  case path =>
    obtain ⟨path, -, heq⟩ := Option.map_eq_some_iff.1 hwritten
    cases heq
    exact hstring path
  all_goals cases hwritten
  case logLevel => exact hstring _
  case recursive => exact .boolean _
  case skipHidden => exact .boolean _
  case followLinks => exact .boolean _
  case maxDepth => exact .count _ h.maxDepth
  case workers => exact .count _ h.workers
  case markLimit => exact .count _ h.markLimit
  case brief => exact .boolean _
  case format => exact hstring _

theorem writesEntries_lines (h : settings.Fits) (all : List Setting) :
    Toml.WritesEntries (all.filterMap (Setting.entry? settings))
      (all.flatMap (Setting.line settings)) := by
  induction all with
  | nil => exact .nil
  | cons setting all ih =>
      rw [List.filterMap_cons, List.flatMap_cons, Setting.entry?, Setting.line]
      cases hwritten : setting.written? settings with
      | none => exact ih
      | some written =>
          exact .cons _ _ _ _ _ (isBareKey_key setting)
            (writes_of_written? settings h setting _ _ hwritten) ih

/-- The text of settings is one table after another, with empty lines between them. -/
theorem text_eq : settings.text
    = Toml.headerLine Section.general.name ++ (Section.general.body settings
      ++ '\n' :: (Toml.headerLine Section.database.name ++ (Section.database.body settings
      ++ '\n' :: (Toml.headerLine Section.scan.name ++ (Section.scan.body settings
      ++ '\n' :: (Toml.headerLine Section.output.name ++ Section.output.body settings)))))) := by
  simp only [text, Section.body, Section.all, List.flatMap_cons, List.flatMap_nil,
    List.append_assoc, List.append_nil, List.cons_append]
  obtain ⟨general, ⟨path⟩, scan, output⟩ := settings
  cases path <;> rfl

theorem writesTables_text (h : settings.Fits) :
    Toml.WritesTables settings.tables settings.text := by
  have hbody : ∀ home : Section,
      Toml.WritesEntries (home.table settings).2 (home.body settings) :=
    fun home => writesEntries_lines settings h home.all
  -- From the last section to the first, each in front of those that follow.
  have houtput := Toml.WritesTables.cons 1 _ _ _ [] [] (isBareKey_name .output) (hbody .output) .nil
  have hscan := Toml.WritesTables.cons 1 _ _ _ _ _ (isBareKey_name .scan) (hbody .scan) houtput
  have hdatabase :=
    Toml.WritesTables.cons 1 _ _ _ _ _ (isBareKey_name .database) (hbody .database) hscan
  have hgeneral :=
    Toml.WritesTables.cons 0 _ _ _ _ _ (isBareKey_name .general) (hbody .general) hdatabase
  rw [List.append_nil] at hgeneral
  rw [text_eq]
  exact hgeneral

end Writing

section Reading

variable (settings : Settings)

/-- The keys of written settings are among those of all settings. -/
theorem keys_sublist (all : List Setting) :
    ((all.filterMap (Setting.entry? settings)).map Prod.fst).Sublist (all.map Setting.key) := by
  induction all with
  | nil => exact List.Sublist.refl []
  | cons setting all ih =>
      rw [List.filterMap_cons, List.map_cons, Setting.entry?]
      cases setting.written? settings with
      | none => exact ih.cons _
      | some written => exact ih.cons_cons _

theorem nodup_keys (home : Section) : ((home.table settings).2.map Prod.fst).Nodup := by
  refine (keys_sublist settings home.all).nodup ?_
  cases home <;> decide

theorem values?_ofTables (home : Section) :
    home.values? (Toml.ofTables settings.tables) = some (.keyed (home.table settings).2) := by
  cases home <;> rfl

/-- The document of settings states each of them as it is written. -/
theorem stated?_ofTables (setting : Setting) :
    setting.stated? (Toml.ofTables settings.tables)
      = (setting.written? settings).map Prod.fst := by
  rw [Setting.stated?, values?_ofTables, Option.bind_some]
  obtain ⟨general, ⟨path⟩, scan, output⟩ := settings
  cases setting
  case path => cases path <;> rfl
  all_goals rfl

/-- What is written for a setting is read as its value. -/
theorem takes_written? (setting : Setting) :
    Takes ((setting.written? settings).map Prod.fst) setting.read? (setting.of default)
      (setting.of settings) := by
  obtain ⟨general, ⟨path⟩, scan, ⟨brief, format⟩⟩ := settings
  have hcount : ∀ n : Nat, countOf? (.integer n) = some n := by
    intro n
    rw [countOf?, if_pos (Int.natCast_nonneg n), Int.toNat_natCast]
  cases setting
  -- A path that is missing is written as nothing and is missing when it is read.
  case path => cases path <;> rfl
  case format => cases format <;> rfl
  case maxDepth => exact hcount _
  case workers => exact hcount _
  case markLimit => exact hcount _
  all_goals rfl

/-- Settings are read back from their document. -/
theorem ofToml?_ofTables : ofToml? (Toml.ofTables settings.tables) = some settings := by
  refine (ofToml?_eq_some_iff _ settings).2 ⟨fun home => ?_, fun setting => ?_⟩
  · rw [values?_ofTables]
    rfl
  · rw [Setting.TakesFrom, stated?_ofTables]
    exact takes_written? settings setting

/-- Settings whose counts fit in signed words are read back from their text. -/
theorem ofText?_text (h : settings.Fits) : ofText? settings.text = some settings := by
  have hnames : (settings.tables.map Prod.fst).Nodup :=
    (by decide : ([Section.general, .database, .scan, .output].map Section.name).Nodup)
  have hkeys : ∀ table ∈ settings.tables, (table.2.map Prod.fst).Nodup := by
    intro table htable
    obtain ⟨home, -, rfl⟩ := List.mem_map.1 htable
    exact nodup_keys settings home
  rw [ofText?, Toml.ofText?_of_writesTables _ _ (writesTables_text settings h) hnames hkeys,
    Option.bind_some, ofToml?_ofTables]

end Reading

section Counts

/-- The integers that a section states are signed words. -/
def ValuesHaveWords : SectionValues → Prop
  | .keyed entries => Toml.EntriesHaveWords entries
  | .listed elements => ∀ element ∈ elements, element.HasWords

theorem valuesHaveWords_of_ofToml? (value : Toml) (values : SectionValues) (h : value.HasWords)
    (hvalues : SectionValues.ofToml? value = some values) : ValuesHaveWords values := by
  unfold SectionValues.ofToml? at hvalues
  split at hvalues
  · rw [← Option.some.inj hvalues]
    exact (Toml.hasWords_table_iff _ _).1 h
  · rw [← Option.some.inj hvalues]
    exact (Toml.hasWords_array_iff _).1 h
  · rw [← Option.some.inj hvalues]
    intro element helement
    obtain ⟨entries, hentries, rfl⟩ := List.mem_map.1 helement
    exact .table _ entries ((Toml.hasWords_tables_iff _).1 h entries hentries)
  · rw [← Option.some.inj hvalues]
    exact Toml.haveWords_nil
  · exact absurd hvalues (by simp only [reduceCtorEq, not_false_eq_true])

theorem hasWords_of_get? (values : SectionValues) (key : Text) (place : Nat) (value : Toml)
    (h : ValuesHaveWords values) (hvalue : values.get? key place = some value) :
    value.HasWords := by
  cases values with
  | keyed entries => exact Toml.hasWords_of_lookup? key entries value h hvalue
  | listed elements => exact h value (List.mem_of_getElem? hvalue)

/-- What a document states for a setting has words if the document has. -/
theorem hasWords_of_stated? (document : Toml.Entries) (h : Toml.EntriesHaveWords document)
    (setting : Setting) (value : Toml) (hstated : setting.stated? document = some value) :
    value.HasWords := by
  obtain ⟨values, hvalues, hget⟩ := Option.bind_eq_some_iff.1 hstated
  refine hasWords_of_get? values _ _ value ?_ hget
  unfold Section.values? at hvalues
  -- A section that is missing states nothing.
  cases hlookup : Toml.lookup? setting.home.name document with
  | none =>
      rw [hlookup] at hvalues
      rw [← Option.some.inj hvalues]
      exact Toml.haveWords_nil
  | some own =>
      rw [hlookup] at hvalues
      exact valuesHaveWords_of_ofToml? own values
        (Toml.hasWords_of_lookup? _ document own h hlookup) hvalues

/-- A count that is taken from words fits in one if the default does. -/
theorem lt_of_takes (stated : Option Toml) (byDefault n : Nat)
    (hwords : ∀ value, stated = some value → value.HasWords)
    (hdefault : (byDefault : Int) < Literal.signedBound)
    (h : Takes stated countOf? byDefault n) : (n : Int) < Literal.signedBound := by
  -- A count that is stated is not negative and so is the word itself.
  cases stated with
  | none =>
      rw [show n = byDefault from h]
      exact hdefault
  | some value =>
      have hvalue := hwords value rfl
      have hcount : countOf? value = some n := h
      unfold countOf? at hcount
      split at hcount
      · rename_i m
        split at hcount
        · rename_i hm
          cases hvalue with
          | integer _ hword =>
              rw [← Option.some.inj hcount, Int.toNat_of_nonneg hm]
              exact hword.2
        · exact absurd hcount (by simp only [reduceCtorEq, not_false_eq_true])
      · exact absurd hcount (by simp only [reduceCtorEq, not_false_eq_true])

/-- Settings that have been read from a text fit in signed words. -/
theorem fits_of_ofText? (t : Text) (settings : Settings) (h : ofText? t = some settings) :
    settings.Fits := by
  obtain ⟨document, hdocument, hsettings⟩ := Option.bind_eq_some_iff.1 h
  have hwords := Toml.haveWords_of_ofText? t document hdocument
  have htakes := ((ofToml?_eq_some_iff document settings).1 hsettings).2
  constructor
  · exact lt_of_takes _ _ _ (hasWords_of_stated? document hwords .maxDepth) (by decide)
      (htakes .maxDepth)
  · exact lt_of_takes _ _ _ (hasWords_of_stated? document hwords .workers) (by decide)
      (htakes .workers)
  · exact lt_of_takes _ _ _ (hasWords_of_stated? document hwords .markLimit) (by decide)
      (htakes .markLimit)

end Counts

section Loading

/-- Settings that have been read from a text are read back from their own text, and written
    again as the same. They have their defaults where the document has no section or states
    nothing, whatever else it states: if settings are left out of it, those are set back and
    no others change. -/
theorem text_of_ofText? (t : Text) (settings : Settings) (h : ofText? t = some settings) :
    (∃ again, ofText? settings.text = some again ∧ again = settings
        ∧ again.text = settings.text)
      ∧ ∃ document, Toml.ofText? t = some document
        ∧ (∀ setting : Setting, Toml.lookup? setting.home.name document = none →
            setting.of settings = setting.of default)
        ∧ (∀ setting : Setting, setting.stated? document = none →
            setting.of settings = setting.of default)
        ∧ ∀ other part, Toml.ofText? other = some part →
          (∀ home : Section, (home.values? part).isSome = true) →
          (∀ setting : Setting, setting.stated? part = none
            ∨ setting.stated? part = setting.stated? document) →
          ∃ left, ofText? other = some left ∧ ∀ setting : Setting,
            (setting.stated? part = none → setting.of left = setting.of default)
              ∧ (setting.stated? part = setting.stated? document →
                setting.of left = setting.of settings) := by
  -- Settings that have been read fit, so their text is read back by the general result.
  have hback := ofText?_text settings (fits_of_ofText? t settings h)
  obtain ⟨document, hdocument, hsettings⟩ := Option.bind_eq_some_iff.1 h
  refine ⟨⟨settings, hback, rfl, rfl⟩, document, hdocument, fun setting hsection => ?_,
    of_eq_default document settings hsettings, fun other part hother hsections hpart => ?_⟩
  · exact of_eq_default document settings hsettings setting
      (stated?_eq_none_of_lookup? document setting hsection)
  · rw [ofText?, hother, Option.bind_some]
    exact ofToml?_of_part document settings part hsettings hsections hpart

/-- A text that states three settings, one of them with escapes and one with the largest count
    that there is. -/
def strangeText : Text :=
  ("[general]\nlog_level = \"\\\"\\\\ \\u0001\\r\\n'''\"\n"
    ++ "[database]\npath = ''\n[scan]\nmax_depth = 9_223_372_036_854_775_807\n").toList

/-- The document that it is. -/
def strangeDocument : Toml.Entries :=
  [("general".toList,
      .table .header [("log_level".toList, .string "\"\\ \x01\r\n'''".toList)]),
    ("database".toList, .table .header [("path".toList, .string [])]),
    ("scan".toList, .table .header [("max_depth".toList, .integer 9223372036854775807)])]

/-- The settings that it has. -/
def strange : Settings :=
  { default with
    general := { logLevel := "\"\\ \x01\r\n'''".toList }
    database := { path := some [] }
    scan := { default.scan with maxDepth := 9223372036854775807 } }

/-- A text that states one of them and nothing else. -/
def strangePart : Text :=
  "[database]\npath = ''\n[scan]\n".toList

theorem text_of_ofText?_strange :
    ofText? strangeText = some strange
      ∧ (∃ again, ofText? strange.text = some again ∧ again = strange
        ∧ again.text = strange.text)
      ∧ Setting.format.of strange = .human
      ∧ Setting.markLimit.of strange = MarkedStream.defaultLimit
      ∧ ∃ left, ofText? strangePart = some left ∧ Setting.logLevel.of left = "info".toList
        ∧ Setting.path.of left = some [] ∧ Setting.maxDepth.of left = 0 := by
  have hstrange : ofText? strangeText = some strange := by decide +kernel
  have hstated : Toml.ofText? strangeText = some strangeDocument := rfl
  have hpart : Toml.ofText? strangePart
      = some [("database".toList, .table .header [("path".toList, .string [])]),
        ("scan".toList, .table .header [])] := rfl
  obtain ⟨hback, document, hdocument, hsection, hkey, hleft⟩ :=
    text_of_ofText? strangeText strange hstrange
  obtain rfl := Option.some.inj (hstated.symm.trans hdocument)
  -- The other document keeps the path and leaves out all the rest.
  obtain ⟨left, hread, hvalues⟩ := hleft strangePart _ hpart
    (fun home => by cases home <;> rfl)
    fun setting => by
      cases setting
      case path => exact Or.inr rfl
      all_goals exact Or.inl rfl
  exact ⟨hstrange, hback, hsection .format rfl, hkey .markLimit rfl, left, hread,
    (hvalues .logLevel).1 rfl, (hvalues .path).2 rfl, (hvalues .maxDepth).1 rfl⟩

end Loading

end Settings

end FileSignatures
