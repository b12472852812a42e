import FileSignatures.CommandLine.Arguments
import FileSignatures.Number.Literal
import FileSignatures.Path
import FileSignatures.Settings.Document

/-!
# Command lines

A command line names one of three commands. Some options belong to all of them
and may stand before or after the command; the others belong to one. Options of
a scan override the settings. Paths are taken as they are given, and everything
else has to be a text.

## Main definitions

* `Command`: The commands, with their options.
* `CommandLine`: A command and the options of all commands.
* `CommandLine.ofArguments?`: The command line that arguments are.
* `ScanOptions.override`: Settings with the options of a scan over them.
* `databaseFile?`: The database that options and settings name.
-/

namespace FileSignatures

/-- The options and operands of a scan. -/
structure ScanOptions where
  paths : List Path
  recursive : Bool
  brief : Bool
  format : Option ReportFormat
  database : Option Path
  /-- Read files as streams. -/
  stream : Bool
  /-- Include hidden files and directories. -/
  hidden : Bool
  depth : Option Nat
  workers : Option Nat
  deriving DecidableEq

/-- The commands. -/
inductive Command where
  /-- Identifies files. -/
  | identify (options : ScanOptions)
  /-- Reads a database and counts its rules. -/
  | check (database : Option Path)
  /-- Prints settings to start from. -/
  | config
  deriving DecidableEq

/-- A command and the options of all commands. -/
structure CommandLine where
  /-- Log every decision. -/
  debug : Bool
  /-- The file of the settings. -/
  config : Option Path
  command : Command
  deriving DecidableEq

namespace CommandLine

/-- The options of all commands. -/
def commonOptions : List OptionName := [.debug, .config]

/-- The options of a scan. -/
def scanOptions : List OptionName :=
  [.recursive, .brief, .format, .database, .stream, .hidden, .depth, .workers]

/-- A path, which is not empty. -/
def pathOf? (argument : Argument) : Option Path :=
  if argument.isEmpty then none else some argument

/-- A report format, by its keyword. -/
def formatOf? (argument : Argument) : Option ReportFormat :=
  (Text.ofUtf8? argument).bind Settings.formatOfKeyword?

/-- A count, in decimal. -/
def countOf? (argument : Argument) : Option Nat :=
  (Text.ofUtf8? argument).bind count?

/-- The value of an option, read by `read?`. An option that is not given has
    none, and one whose value cannot be read is an error. -/
def optional? {α : Type} (given : List Occurrence) (option : OptionName)
    (read? : Argument → Option α) : Option (Option α) :=
  match Arguments.value? given option with
  | none => some none
  | some argument => (read? argument).map some

/-- The options of a scan, of which the paths must not be missing. -/
def scanOf? (given : List Occurrence) (operands : List Argument) : Option ScanOptions := do
  if operands.isEmpty then none
  return {
    paths := ← operands.mapM pathOf?
    recursive := Arguments.hasFlag given .recursive
    brief := Arguments.hasFlag given .brief
    format := ← optional? given .format formatOf?
    database := ← optional? given .database pathOf?
    stream := Arguments.hasFlag given .stream
    hidden := Arguments.hasFlag given .hidden
    depth := ← optional? given .depth countOf?
    workers := ← optional? given .workers countOf? }

/-- The command of a name, and the options given after it. -/
def commandOf? (name : Argument) (arguments : List Argument) :
    Option (Command × List Occurrence) := do
  if name = Text.utf8 "identify".toList then
    let (given, operands) ← Arguments.ofList? (commonOptions ++ scanOptions) none arguments
    return (.identify (← scanOf? given operands), given)
  else if name = Text.utf8 "check".toList then
    let (given, operands) ← Arguments.ofList? (commonOptions ++ [.database]) none arguments
    if !operands.isEmpty then none
    return (.check (← optional? given .database pathOf?), given)
  else if name = Text.utf8 "config".toList then
    let (given, operands) ← Arguments.ofList? commonOptions none arguments
    if !operands.isEmpty then none
    return (.config, given)
  else none

/-- The command line that arguments are. An option may be given once before the
    command and once after it, where the latter counts. -/
def ofArguments? (arguments : List Argument) : Option CommandLine := do
  let (before, rest) ← Arguments.beforeOperand? commonOptions none arguments
  let name ← rest.head?
  let (command, after) ← commandOf? name rest.tail
  if !(Arguments.areDistinct before && Arguments.areDistinct after) then none
  let configBefore ← optional? before .config pathOf?
  let configAfter ← optional? after .config pathOf?
  return {
    debug := Arguments.hasFlag before .debug || Arguments.hasFlag after .debug
    config := configAfter <|> configBefore
    command }

end CommandLine

/-- Settings with the options of a scan over them. Options only add to what the
    settings switch on. Which database they name is said by `databaseFile?`. -/
def ScanOptions.override (options : ScanOptions) (settings : Settings) : Settings where
  general := settings.general
  database := settings.database
  scan := { settings.scan with
    recursive := settings.scan.recursive || options.recursive
    skipHidden := settings.scan.skipHidden && !options.hidden
    maxDepth := options.depth.getD settings.scan.maxDepth
    workers := options.workers.getD settings.scan.workers }
  output := {
    brief := settings.output.brief || options.brief
    format := options.format.getD settings.output.format }

/-- The database file that an option names, or else the one of the settings,
    which is always a text. -/
def databaseFile? (option? : Option Path) (settings : Settings) : Option Path :=
  option? <|> settings.database.path.map Text.utf8

end FileSignatures
