import FileSignatures.Settings.Document

/-!
# What a document says of each setting

Settings are read section by section, but none of them has to do with any other: each one
takes what the document states for it, and its default if the document states nothing. A
section that is not given is read like an empty one, so a setting without its section is no
special case.

A document is one of settings exactly if its sections can be read as sections and every
setting takes what is stated for it (`ofToml?_eq_some_iff`). So leaving out settings, or
whole sections, sets those back to their defaults and touches no other.

## Main definitions

* `Section`, `Setting`: The sections, and the settings in them.
* `Setting.of`: The value of a setting.
* `Section.values?`: The values that a document states in a section.
* `Setting.stated?`: What a document states for a setting.
* `Takes`: A value is taken from what is stated, or the default.

## Theorems

* `ofToml?_eq_some_iff`: The settings of a document, one by one.
* `ofToml?_of_part`: Settings that are left out are set back, and no others.
-/

namespace FileSignatures

namespace Settings

/-- The sections of the settings. -/
inductive Section where
  | general
  | database
  | scan
  | output
  deriving DecidableEq

/-- The name of a section. -/
def Section.name : Section → Text
  | general => "general".toList
  | database => "database".toList
  | scan => "scan".toList
  | output => "output".toList

/-- The settings. -/
inductive Setting where
  | logLevel
  | path
  | recursive
  | skipHidden
  | followLinks
  | maxDepth
  | workers
  | markLimit
  | brief
  | format
  deriving DecidableEq

namespace Setting

/-- What a setting is set to. -/
abbrev Value : Setting → Type
  | logLevel => Text
  | path => Option Text
  | recursive | skipHidden | followLinks | brief => Bool
  | maxDepth | workers | markLimit => Nat
  | format => ReportFormat

/-- The section that a setting belongs to. -/
def home : Setting → Section
  | logLevel => .general
  | path => .database
  | recursive | skipHidden | followLinks | maxDepth | workers | markLimit => .scan
  | brief | format => .output

/-- The key of a setting. -/
def key : Setting → Text
  | logLevel => "log_level".toList
  | path => "path".toList
  | recursive => "recursive".toList
  | skipHidden => "skip_hidden".toList
  | followLinks => "follow_links".toList
  | maxDepth => "max_depth".toList
  | workers => "workers".toList
  | markLimit => "mark_limit".toList
  | brief => "brief".toList
  | format => "format".toList

/-- The place of a setting in a section without keys. -/
def place : Setting → Nat
  | logLevel | path | recursive | brief => 0
  | skipHidden | format => 1
  | followLinks => 2
  | maxDepth => 3
  | workers => 4
  | markLimit => 5

/-- What a value in a document sets a setting to. -/
def read? : (setting : Setting) → Toml → Option setting.Value
  | logLevel => textOf?
  | path => fun value => (textOf? value).map some
  | recursive | skipHidden | followLinks | brief => boolOf?
  | maxDepth | workers | markLimit => countOf?
  | format => formatOf?

/-- The value of a setting. -/
def of (settings : Settings) : (setting : Setting) → setting.Value
  | logLevel => settings.general.logLevel
  | path => settings.database.path
  | recursive => settings.scan.recursive
  | skipHidden => settings.scan.skipHidden
  | followLinks => settings.scan.followLinks
  | maxDepth => settings.scan.maxDepth
  | workers => settings.scan.workers
  | markLimit => settings.scan.markLimit
  | brief => settings.output.brief
  | format => settings.output.format

end Setting

/-- The settings with given values. -/
def ofValues (value : (setting : Setting) → setting.Value) : Settings where
  general := { logLevel := value .logLevel }
  database := { path := value .path }
  scan := {
    recursive := value .recursive
    skipHidden := value .skipHidden
    followLinks := value .followLinks
    maxDepth := value .maxDepth
    workers := value .workers
    markLimit := value .markLimit }
  output := { brief := value .brief, format := value .format }

theorem of_ofValues (value : (setting : Setting) → setting.Value) (setting : Setting) :
    setting.of (ofValues value) = value setting := by
  cases setting <;> rfl

/-- A value is taken from what is stated, or it is the default if nothing is. -/
def Takes {α : Type} (stated : Option Toml) (ofToml? : Toml → Option α) (byDefault a : α) : Prop :=
  match stated with
  | none => a = byDefault
  | some value => ofToml? value = some a

/-- The values that a document states in a section, none if it does not have the section. -/
def Section.values? (document : Toml.Entries) (home : Section) : Option SectionValues :=
  match Toml.lookup? home.name document with
  | none => some (.keyed [])
  | some value => SectionValues.ofToml? value

/-- What a document states for a setting. -/
def Setting.stated? (document : Toml.Entries) (setting : Setting) : Option Toml :=
  (setting.home.values? document).bind fun values => values.get? setting.key setting.place

/-- A setting takes what a document states for it. -/
def Setting.TakesFrom (document : Toml.Entries) (settings : Settings) (setting : Setting) : Prop :=
  Takes (setting.stated? document) setting.read? (setting.of default) (setting.of settings)

theorem read?_eq_some_iff {α : Type} (values : SectionValues) (key : Text) (place : Nat)
    (ofToml? : Toml → Option α) (byDefault a : α) :
    values.read? key place ofToml? byDefault = some a
      ↔ Takes (values.get? key place) ofToml? byDefault a := by
  unfold SectionValues.read? Takes
  cases values.get? key place with
  | none => exact ⟨fun h => (Option.some.inj h).symm, fun h => congrArg some h.symm⟩
  | some value => exact Iff.rfl

section Sections

/-- A setting takes what the values of its section state. -/
def Setting.TakesIn (values : SectionValues) (settings : Settings) (setting : Setting) : Prop :=
  Takes (values.get? setting.key setting.place) setting.read? (setting.of default)
    (setting.of settings)

/-- So do all settings of a section. -/
def Section.TakesIn (values : SectionValues) (settings : Settings) (home : Section) : Prop :=
  ∀ setting : Setting, setting.home = home → setting.TakesIn values settings

variable (values : SectionValues) (settings : Settings)

theorem generalOf?_eq_some_iff :
    generalOf? values = some settings.general ↔ Section.general.TakesIn values settings := by
  obtain ⟨general, database, scan, output⟩ := settings
  simp only [generalOf?, Option.bind_eq_bind, Option.bind_eq_some_iff, Option.pure_def,
    Option.some.injEq, read?_eq_some_iff]
  constructor
  · rintro ⟨_, hlevel, rfl⟩ setting hhome
    cases setting
    case logLevel => exact hlevel
    all_goals exact absurd hhome (by decide)
  · exact fun h => ⟨_, h .logLevel rfl, rfl⟩

theorem databaseOf?_eq_some_iff :
    databaseOf? values = some settings.database ↔ Section.database.TakesIn values settings := by
  obtain ⟨general, database, scan, output⟩ := settings
  simp only [databaseOf?, Option.bind_eq_bind, Option.bind_eq_some_iff, Option.pure_def,
    Option.some.injEq, read?_eq_some_iff]
  constructor
  · rintro ⟨_, hpath, rfl⟩ setting hhome
    cases setting
    case path => exact hpath
    all_goals exact absurd hhome (by decide)
  · exact fun h => ⟨_, h .path rfl, rfl⟩

theorem scanOf?_eq_some_iff :
    scanOf? values = some settings.scan ↔ Section.scan.TakesIn values settings := by
  obtain ⟨general, database, scan, output⟩ := settings
  simp only [scanOf?, Option.bind_eq_bind, Option.bind_eq_some_iff, Option.pure_def,
    Option.some.injEq, read?_eq_some_iff]
  -- Each field of the section is read by itself, and each belongs to one setting.
  constructor
  · rintro ⟨_, hrecursive, _, hhidden, _, hlinks, _, hdepth, _, hworkers, _, hlimit, rfl⟩ setting
      hhome
    cases setting
    case recursive => exact hrecursive
    case skipHidden => exact hhidden
    case followLinks => exact hlinks
    case maxDepth => exact hdepth
    case workers => exact hworkers
    case markLimit => exact hlimit
    all_goals exact absurd hhome (by decide)
  · exact fun h => ⟨_, h .recursive rfl, _, h .skipHidden rfl, _, h .followLinks rfl,
      _, h .maxDepth rfl, _, h .workers rfl, _, h .markLimit rfl, rfl⟩

theorem outputOf?_eq_some_iff :
    outputOf? values = some settings.output ↔ Section.output.TakesIn values settings := by
  obtain ⟨general, database, scan, output⟩ := settings
  simp only [outputOf?, Option.bind_eq_bind, Option.bind_eq_some_iff, Option.pure_def,
    Option.some.injEq, read?_eq_some_iff]
  constructor
  · rintro ⟨_, hbrief, _, hformat, rfl⟩ setting hhome
    cases setting
    case brief => exact hbrief
    case format => exact hformat
    all_goals exact absurd hhome (by decide)
  · exact fun h => ⟨_, h .brief rfl, _, h .format rfl, rfl⟩

end Sections

section Documents

variable (document : Toml.Entries) (settings : Settings)

/-- A section that is not given is read like an empty one. -/
theorem sectionOf?_eq {α : Type} (home : Section) (ofValues? : SectionValues → Option α)
    (byDefault : α) (h : ofValues? (.keyed []) = some byDefault) :
    sectionOf? document home.name ofValues? byDefault
      = (home.values? document).bind ofValues? := by
  unfold sectionOf? Section.values?
  cases Toml.lookup? home.name document with
  | none => exact h.symm
  | some value => rfl

/-- What the document states for a setting is what the values of its section state. -/
theorem takesFrom_iff (values : SectionValues) (setting : Setting)
    (h : setting.home.values? document = some values) :
    setting.TakesFrom document settings ↔ setting.TakesIn values settings := by
  rw [Setting.TakesFrom, Setting.stated?, h, Option.bind_some, Setting.TakesIn]

/-- A section of a document is read if it can be and all settings in it take what is stated
    for them. -/
theorem sectionOf?_eq_some_iff {α : Type} (home : Section) (ofValues? : SectionValues → Option α)
    (byDefault a : α) (hdefault : ofValues? (.keyed []) = some byDefault)
    (htakes : ∀ values, ofValues? values = some a ↔ home.TakesIn values settings) :
    sectionOf? document home.name ofValues? byDefault = some a
      ↔ (home.values? document).isSome = true
        ∧ ∀ setting : Setting, setting.home = home → setting.TakesFrom document settings := by
  rw [sectionOf?_eq document home ofValues? byDefault hdefault, Option.bind_eq_some_iff]
  -- The values of the section are shared by all of its settings.
  constructor
  · rintro ⟨values, hvalues, h⟩
    refine ⟨Option.isSome_of_eq_some hvalues, ?_⟩
    rintro setting rfl
    exact (takesFrom_iff document settings values setting hvalues).2
      ((htakes values).1 h setting rfl)
  · rintro ⟨hsome, h⟩
    obtain ⟨values, hvalues⟩ := Option.isSome_iff_exists.1 hsome
    refine ⟨values, hvalues, (htakes values).2 ?_⟩
    rintro setting rfl
    exact (takesFrom_iff document settings values setting hvalues).1 (h setting rfl)

theorem ofToml?_eq_some_iff_sections :
    ofToml? document = some settings
      ↔ sectionOf? document Section.general.name generalOf? default.general
            = some settings.general
        ∧ sectionOf? document Section.database.name databaseOf? default.database
            = some settings.database
        ∧ sectionOf? document Section.scan.name scanOf? default.scan = some settings.scan
        ∧ sectionOf? document Section.output.name outputOf? default.output
            = some settings.output := by
  obtain ⟨general, database, scan, output⟩ := settings
  simp only [ofToml?, Option.bind_eq_bind, Option.bind_eq_some_iff, Option.pure_def,
    Option.some.injEq]
  constructor
  · rintro ⟨_, hgeneral, _, hdatabase, _, hscan, _, houtput, heq⟩
    -- The record is the one of the four sections that have been read.
    cases heq
    exact ⟨hgeneral, hdatabase, hscan, houtput⟩
  · rintro ⟨hgeneral, hdatabase, hscan, houtput⟩
    exact ⟨general, hgeneral, database, hdatabase, scan, hscan, output, houtput, rfl⟩

/-- A document is one of settings exactly if its sections are ones and every setting takes
    what is stated for it. -/
theorem ofToml?_eq_some_iff :
    ofToml? document = some settings
      ↔ (∀ home : Section, (home.values? document).isSome = true)
        ∧ ∀ setting : Setting, setting.TakesFrom document settings := by
  rw [ofToml?_eq_some_iff_sections,
    sectionOf?_eq_some_iff document settings .general generalOf? _ _ rfl
      fun values => generalOf?_eq_some_iff values settings,
    sectionOf?_eq_some_iff document settings .database databaseOf? _ _ rfl
      fun values => databaseOf?_eq_some_iff values settings,
    sectionOf?_eq_some_iff document settings .scan scanOf? _ _ rfl
      fun values => scanOf?_eq_some_iff values settings,
    sectionOf?_eq_some_iff document settings .output outputOf? _ _ rfl
      fun values => outputOf?_eq_some_iff values settings]
  constructor
  · rintro ⟨⟨hgeneral, general⟩, ⟨hdatabase, database⟩, ⟨hscan, scan⟩, ⟨houtput, output⟩⟩
    refine ⟨fun home => ?_, fun setting => ?_⟩
    · cases home with
      | general => exact hgeneral
      | database => exact hdatabase
      | scan => exact hscan
      | output => exact houtput
    · -- Every setting has a home, and that section takes it in.
      cases hhome : setting.home with
      | general => exact general setting hhome
      | database => exact database setting hhome
      | scan => exact scan setting hhome
      | output => exact output setting hhome
  · rintro ⟨hsections, hsettings⟩
    exact ⟨⟨hsections .general, fun setting _ => hsettings setting⟩,
      ⟨hsections .database, fun setting _ => hsettings setting⟩,
      ⟨hsections .scan, fun setting _ => hsettings setting⟩,
      ⟨hsections .output, fun setting _ => hsettings setting⟩⟩

/-- A setting that a document does not state has its default. -/
theorem of_eq_default (h : ofToml? document = some settings) (setting : Setting)
    (hstated : setting.stated? document = none) : setting.of settings = setting.of default := by
  have htakes := ((ofToml?_eq_some_iff document settings).1 h).2 setting
  rw [Setting.TakesFrom, hstated] at htakes
  exact htakes

/-- A section that is not given states nothing. -/
theorem stated?_eq_none_of_lookup? (setting : Setting)
    (h : Toml.lookup? setting.home.name document = none) : setting.stated? document = none := by
  rw [Setting.stated?, Section.values?, h]
  rfl

/-- Settings that are left out of a document are set back to their defaults, and no others
    change. -/
theorem ofToml?_of_part (part : Toml.Entries) (h : ofToml? document = some settings)
    (hsections : ∀ home : Section, (home.values? part).isSome = true)
    (hpart : ∀ setting : Setting, setting.stated? part = none
      ∨ setting.stated? part = setting.stated? document) :
    ∃ left, ofToml? part = some left
      ∧ ∀ setting : Setting, (setting.stated? part = none → setting.of left = setting.of default)
        ∧ (setting.stated? part = setting.stated? document →
          setting.of left = setting.of settings) := by
  have htakes := ((ofToml?_eq_some_iff document settings).1 h).2
  -- The settings that are expected: the default of what is left out and all the rest as it was.
  have hleft : ofToml? part = some (ofValues fun setting =>
      if (setting.stated? part).isNone then setting.of default else setting.of settings) := by
    refine (ofToml?_eq_some_iff part _).2 ⟨hsections, fun setting => ?_⟩
    rw [Setting.TakesFrom, of_ofValues]
    cases hstated : setting.stated? part with
    | none => exact rfl
    | some value =>
        have hsame := (hpart setting).resolve_left
          (by rw [hstated]; exact Option.some_ne_none value)
        have hown := htakes setting
        rw [Setting.TakesFrom, ← hsame, hstated] at hown
        exact hown
  refine ⟨_, hleft, fun setting => ⟨fun hnone => of_eq_default part _ hleft setting hnone, ?_⟩⟩
  intro hsame
  rw [of_ofValues]
  cases hstated : setting.stated? part with
  | none =>
      rw [hsame] at hstated
      exact (of_eq_default document settings h setting hstated).symm
  | some value => rfl

end Documents

end Settings

end FileSignatures
