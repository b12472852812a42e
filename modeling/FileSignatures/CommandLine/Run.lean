import FileSignatures.CommandLine.Basic
import FileSignatures.Database.Builtin
import FileSignatures.Scan
import FileSignatures.Settings.LogLevel

/-!
# Running command lines

What a command line does on a machine: it loads the settings, then performs its
command. All it does besides reading files is to print a text, and where
settings or a database cannot be used, or the machine cannot do what is asked
for, it only says so.

## Main definitions

* `FileAccess`: What a run needs of a file system.
* `Machine`: What a run needs of the machine besides.
* `Computer`: A machine whose files are kept in memory.
* `RunError`: Why a command cannot be performed.
* `Outcome`: How a run ends.
* `loadSettings`, `loadRules`: What a command works with.
* `CommandLine.perform`: Performs a command line.
* `CommandLine.run`: Reads and performs a command line.
-/

namespace FileSignatures

/-- What a run needs of a file system. -/
class FileAccess (m : Type → Type) where
  /-- The bytes of the file at a path, if it can be read. -/
  content? : Path → m (Option (List UInt8))
  /-- The files that a scan finds below the directory at a path, if there is a
      directory. -/
  files? : ScanSettings → Path → m (Option (List (List Path)))

/-- What a run needs of the machine besides its files. -/
class Machine (m : Type → Type) extends FileAccess m where
  /-- The directory that is set aside for the user's settings, if there is one. -/
  configDirectory? : m (Option Path)
  /-- The home of the user, if there is one. -/
  home? : m (Option Path)
  /-- How many processors there are. -/
  processors : m Nat
  /-- Whether so many workers can be started. -/
  canStart : Nat → m Bool

/-- Access to files kept in memory. -/
instance : FileAccess (ReaderM (Directory (List UInt8))) where
  content? path := fun d => (d.at? path).bind Place.content?
  files? scan path := scan.filesBelow? path

/-- A machine whose files are kept in memory. -/
structure Computer where
  files : Directory (List UInt8)
  configDirectory? : Option Path
  home? : Option Path
  processors : Nat
  /-- The greatest count of workers that can be started. -/
  mostWorkers : Nat

instance : Machine (ReaderM Computer) where
  content? path := fun computer => (FileAccess.content? path : ReaderM _ _).run computer.files
  files? scan path := fun computer => (FileAccess.files? scan path : ReaderM _ _).run computer.files
  configDirectory? := fun computer => computer.configDirectory?
  home? := fun computer => computer.home?
  processors := fun computer => computer.processors
  canStart count := fun computer => decide (count ≤ computer.mostWorkers)

/-- Why a command cannot be performed. -/
inductive RunError where
  | settingsUnreadable (path : Path)
  | settingsMalformed (path : Path)
  | logLevelUnknown
  | databaseUnusable (path : Path)
  | builtinUnusable
  | workersUnavailable
  | pathIsNoText
  deriving DecidableEq

/-- The wording of an error. -/
def RunError.message : RunError → Text
  | settingsUnreadable path => "Failed to read config: ".toList ++ Text.ofUtf8Lossy path
  | settingsMalformed path => "Failed to parse config: ".toList ++ Text.ofUtf8Lossy path
  | logLevelUnknown => "invalid filter directive".toList
  | databaseUnusable path => "Failed to load magic database: ".toList ++ Text.ofUtf8Lossy path
  | builtinUnusable => "Built-in magic database is invalid".toList
  | workersUnavailable => "Failed to start worker pool".toList
  | pathIsNoText => "path contains invalid UTF-8 characters".toList

/-- The line that tells the user of an error. -/
def RunError.line (error : RunError) : Text :=
  "Error: ".toList ++ error.message

/-- How a run ends. -/
inductive Outcome where
  /-- The command has been performed and prints a text. -/
  | success (output : Text)
  /-- The command cannot be performed. -/
  | failure (error : RunError)
  /-- The arguments are no command line. -/
  | misuse
  deriving DecidableEq

/-- The exit status of an outcome. -/
def Outcome.status : Outcome → Nat
  | success _ => 0
  | failure _ => 1
  | misuse => 2

section Files

variable {m : Type → Type} [Monad m] [FileAccess m]

/-- The settings of a file. -/
def settingsOfFile (path : Path) : ExceptT RunError m Settings := do
  let some content ← (FileAccess.content? path : m _) | throw (.settingsUnreadable path)
  let some text := Text.ofUtf8? content | throw (.settingsUnreadable path)
  let some settings := Settings.ofText? text | throw (.settingsMalformed path)
  return settings

/-- The rules of a database that has been read. What is wrong with one that cannot
    be read is not told. -/
def usableRules (unusable : RunError) :
    Except FormatError RuleSet → ExceptT RunError m RuleSet
  | .ok rules => return rules
  | .error _ => throw unusable

/-- The rules of a database file, or the built-in ones. -/
def loadRules : Option Path → ExceptT RunError m RuleSet
  | none => usableRules .builtinUnusable RuleSet.builtin
  | some path => do
    let some content ← (FileAccess.content? path : m _) | throw (.databaseUnusable path)
    usableRules (.databaseUnusable path) (RuleSet.ofBytes content)

/-- The result of a scan for the file at a path. -/
def scanFile (rules : RuleSet) (asStream : Bool) (limit : Nat) (path : Path) : m ScanResult := do
  let content ← FileAccess.content? path
  return ⟨path, content.bind (rules.identifyContent? asStream limit)⟩

/-- The files that paths stand for. -/
def collectFiles (scan : ScanSettings) (paths : List Path) : m (List Path) := do
  let files ← paths.mapM fun path => do
    return scan.filesAt path (← FileAccess.files? scan path)
  return files.flatten

/-- Counts the rules of a database, and says what that prints. -/
def performCheck (database? : Option Path) (settings : Settings) : ExceptT RunError m Text := do
  let database? := databaseFile? database? settings
  let rules ← loadRules database?
  let source := (database?.map Text.ofUtf8Lossy).getD "built-in".toList
  return rules.counts.text source ++ ['\n']

end Files

section Machines

variable {m : Type → Type} [Monad m] [Machine m]

/-- The settings of the file that is named. If none is, those of the user's own
    file count, and the default ones where that file cannot be used. -/
def loadSettings : Option Path → ExceptT RunError m Settings
  | some path => settingsOfFile path
  | none => do
    let configDirectory? ← (Machine.configDirectory? : m _)
    let home? ← (Machine.home? : m _)
    tryCatch (settingsOfFile (Settings.usualPath configDirectory? home?)) fun _ => return .default

/-- Starts the workers that settings ask for. -/
def startWorkers (scan : ScanSettings) : ExceptT RunError m Unit := do
  let processors ← (Machine.processors : m _)
  let canStart ← (Machine.canStart (scan.workersOf processors) : m _)
  if !canStart then throw .workersUnavailable

/-- Identifies the files of a scan, and says what it prints. The workers are
    started when the files have been collected, and each of these is identified
    on its own, so it does not show how many workers there are. -/
def performScan (options : ScanOptions) (settings : Settings) : ExceptT RunError m Text := do
  let effective := options.override settings
  let rules ← loadRules (databaseFile? options.database settings)
  let files ← (collectFiles effective.scan options.paths : m _)
  startWorkers effective.scan
  let results ← (files.mapM (scanFile rules options.stream effective.scan.markLimit) : m _)
  match (ScanReport.ofResults results).text? effective.output with
  | some text => return text
  | none => throw .pathIsNoText

namespace CommandLine

/-- The level of the messages that a command line logs, if it is one. -/
def logLevel? (line : CommandLine) (settings : Settings) : Option LogLevel :=
  if line.debug then some .debug else LogLevel.ofText? settings.general.logLevel

/-- Performs a command line, and says what it prints. The settings have to be
    in order even for a command that does not use them. -/
def perform (line : CommandLine) : ExceptT RunError m Text := do
  let settings ← loadSettings line.config
  if (line.logLevel? settings).isNone then throw .logLevelUnknown
  match line.command with
  | .identify options => performScan options settings
  | .check database => performCheck database settings
  | .config => return Settings.sample

/-- Reads and performs a command line. -/
def run (arguments : List Argument) : m Outcome := do
  match ofArguments? arguments with
  | none => return .misuse
  | some line =>
    match ← (perform line).run with
    | .ok output => return .success output
    | .error error => return .failure error

end CommandLine

end Machines

end FileSignatures
