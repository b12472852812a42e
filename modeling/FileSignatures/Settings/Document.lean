import FileSignatures.Settings.Basic
import FileSignatures.Toml.Printer
import FileSignatures.Toml.Reader

/-!
# Settings as documents

Settings are kept in a TOML document of four tables. What the document does not
state has its default, and what it states besides does not count. A section may
also be an array of its values in order, of which any number may be missing at
the end.

## Main definitions

* `Settings.ofToml?`: The settings of a document.
* `Settings.ofText?`: The settings of a text.
* `Settings.text`: The text of settings.
-/

namespace FileSignatures

/-- The values of a section, by key or by place. -/
inductive SectionValues where
  | keyed (entries : Toml.Entries)
  | listed (elements : List Toml)

namespace SectionValues

/-- The values of a section. A date is a table of its parts, none of which is a
    setting. -/
def ofToml? : Toml → Option SectionValues
  | .table _ entries => some (keyed entries)
  | .array elements => some (listed elements)
  | .tables elements => some (listed (elements.map (.table .header)))
  | .datetime => some (keyed [])
  | _ => none

/-- The value of a setting, given its key and its place. -/
def get? (values : SectionValues) (key : Text) (place : Nat) : Option Toml :=
  match values with
  | keyed entries => Toml.lookup? key entries
  | listed elements => elements[place]?

/-- Reads a setting. One that is not given has its default. -/
def read? {α : Type} (values : SectionValues) (key : Text) (place : Nat)
    (ofToml? : Toml → Option α) (byDefault : α) : Option α :=
  match values.get? key place with
  | none => some byDefault
  | some value => ofToml? value

end SectionValues

namespace Settings

/-- A text. -/
def textOf? : Toml → Option Text
  | .string t => some t
  | _ => none

/-- A truth value. -/
def boolOf? : Toml → Option Bool
  | .boolean b => some b
  | _ => none

/-- A count. -/
def countOf? : Toml → Option Nat
  | .integer n => if 0 ≤ n then some n.toNat else none
  | _ => none

/-- The keyword of a report format. -/
def formatKeyword : ReportFormat → Text
  | .human => "human".toList
  | .json => "json".toList

/-- The report format that a keyword names. -/
def formatOfKeyword? (keyword : Text) : Option ReportFormat :=
  [ReportFormat.human, ReportFormat.json].find? fun format => formatKeyword format = keyword

/-- Whether a value holds nothing. -/
def isEmptyValue : Toml → Bool
  | .table _ entries => entries.isEmpty
  | .array elements => elements.isEmpty
  | _ => false

/-- A report format: its keyword, or a table with the keyword as its only key
    and no further content. -/
def formatOf? : Toml → Option ReportFormat
  | .string keyword => formatOfKeyword? keyword
  | .table _ [(keyword, value)] =>
    if isEmptyValue value then formatOfKeyword? keyword else none
  | _ => none

/-- General settings. -/
def generalOf? (values : SectionValues) : Option GeneralSettings := do
  return { logLevel := ← values.read? "log_level".toList 0 textOf? default.general.logLevel }

/-- The choice of a database. -/
def databaseOf? (values : SectionValues) : Option DatabaseSettings := do
  return {
    path := ← values.read? "path".toList 0 (fun value => (textOf? value).map some)
      default.database.path }

/-- Settings of a scan. -/
def scanOf? (values : SectionValues) : Option ScanSettings := do
  let scan := default.scan
  return {
    recursive := ← values.read? "recursive".toList 0 boolOf? scan.recursive
    skipHidden := ← values.read? "skip_hidden".toList 1 boolOf? scan.skipHidden
    followLinks := ← values.read? "follow_links".toList 2 boolOf? scan.followLinks
    maxDepth := ← values.read? "max_depth".toList 3 countOf? scan.maxDepth
    workers := ← values.read? "workers".toList 4 countOf? scan.workers
    markLimit := ← values.read? "mark_limit".toList 5 countOf? scan.markLimit }

/-- Settings of reports. -/
def outputOf? (values : SectionValues) : Option OutputSettings := do
  return {
    brief := ← values.read? "brief".toList 0 boolOf? default.output.brief
    format := ← values.read? "format".toList 1 formatOf? default.output.format }

/-- Reads a section of a document. One that is not given has its defaults. -/
def sectionOf? {α : Type} (document : Toml.Entries) (name : Text)
    (ofValues? : SectionValues → Option α) (byDefault : α) : Option α :=
  match Toml.lookup? name document with
  | none => some byDefault
  | some value => (SectionValues.ofToml? value).bind ofValues?

/-- The settings of a document. -/
def ofToml? (document : Toml.Entries) : Option Settings := do
  return {
    general := ← sectionOf? document "general".toList generalOf? default.general
    database := ← sectionOf? document "database".toList databaseOf? default.database
    scan := ← sectionOf? document "scan".toList scanOf? default.scan
    output := ← sectionOf? document "output".toList outputOf? default.output }

/-- The settings of a text. -/
def ofText? (t : Text) : Option Settings :=
  (Toml.ofText? t).bind ofToml?

/-- The text of settings: all of them, whether they are defaults or not. -/
def text (settings : Settings) : Text :=
  let scan := settings.scan
  Toml.headerLine "general".toList
    ++ Toml.entryLine "log_level".toList (Toml.stringText settings.general.logLevel)
    ++ '\n' :: Toml.headerLine "database".toList
    ++ (match settings.database.path with
        | some path => Toml.entryLine "path".toList (Toml.stringText path)
        | none => [])
    ++ '\n' :: Toml.headerLine "scan".toList
    ++ Toml.entryLine "recursive".toList (Toml.boolText scan.recursive)
    ++ Toml.entryLine "skip_hidden".toList (Toml.boolText scan.skipHidden)
    ++ Toml.entryLine "follow_links".toList (Toml.boolText scan.followLinks)
    ++ Toml.entryLine "max_depth".toList (Text.ofNat scan.maxDepth)
    ++ Toml.entryLine "workers".toList (Text.ofNat scan.workers)
    ++ Toml.entryLine "mark_limit".toList (Text.ofNat scan.markLimit)
    ++ '\n' :: Toml.headerLine "output".toList
    ++ Toml.entryLine "brief".toList (Toml.boolText settings.output.brief)
    ++ Toml.entryLine "format".toList (Toml.stringText (formatKeyword settings.output.format))

end Settings

end FileSignatures
