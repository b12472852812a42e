import FileSignatures.Path
import FileSignatures.Resource.Marked
import FileSignatures.Text.Utf8

/-!
# Settings

What a user may choose once for all runs: how much to log, which database to
use, how to walk directories, and how to report.

## Main definitions

* `Settings`: The settings, in four sections.
* `ScanSettings.workersOf`: How many files are read at a time.
* `Settings.default`: What holds unless chosen otherwise.
* `Settings.usualPath`: Where a user keeps settings.
* `Settings.sample`: A document with the defaults and explanations.
-/

namespace FileSignatures

/-- How a scan is reported. -/
inductive ReportFormat where
  | human
  | json
  deriving DecidableEq, Repr

/-- General settings. -/
structure GeneralSettings where
  /-- The least severe messages that are logged. -/
  logLevel : Text
  deriving DecidableEq

/-- Which database to use. -/
structure DatabaseSettings where
  /-- The file, or nothing for the built-in database. -/
  path : Option Text
  deriving DecidableEq

/-- How to walk directories and read files. -/
structure ScanSettings where
  /-- Descend into directories. -/
  recursive : Bool
  /-- Leave out files and directories whose names begin with a dot. -/
  skipHidden : Bool
  followLinks : Bool
  /-- How deep to descend; zero is no limit. -/
  maxDepth : Nat
  /-- How many files to read at a time; zero leaves the choice to the machine. -/
  workers : Nat
  /-- How many bytes of a stream to keep. -/
  markLimit : Nat
  deriving DecidableEq

/-- How many files are read at a time on a machine with some processors. -/
def ScanSettings.workersOf (scan : ScanSettings) (processors : Nat) : Nat :=
  if scan.workers = 0 then processors else scan.workers

/-- How to report. -/
structure OutputSettings where
  /-- One line a file. -/
  brief : Bool
  format : ReportFormat
  deriving DecidableEq

/-- The settings. -/
structure Settings where
  general : GeneralSettings
  database : DatabaseSettings
  scan : ScanSettings
  output : OutputSettings
  deriving DecidableEq

namespace Settings

/-- What holds unless chosen otherwise. -/
def default : Settings where
  general := { logLevel := "info".toList }
  database := { path := none }
  scan := {
    recursive := false
    skipHidden := true
    followLinks := false
    maxDepth := 0
    workers := 0
    markLimit := MarkedStream.defaultLimit }
  output := { brief := false, format := .human }

/-- The file in which a user keeps settings. It lies in the directory that the
    system sets aside for them, or, where there is none, in a hidden directory
    at home; without a home, that is looked for where the user stands. -/
def usualPath (configDirectory? home? : Option Path) : Path :=
  let file := Text.utf8 "config.toml".toList
  match configDirectory? with
  | some directory => Path.entry directory file
  | none => Path.below (home?.getD [Path.dot]) [Text.utf8 ".magicdb".toList, file]

/-- The lines of a document that states the defaults and explains them. -/
def sampleLines : List String :=
  ["# magicdb configuration",
   "# Location: ~/.config/magicdb/config.toml (or %APPDATA%\\magicdb\\config.toml on Windows)",
   "",
   "[general]",
   "# Log level: trace, debug, info, warn, error",
   "log_level = \"info\"",
   "",
   "[database]",
   "# Rule database in FILE_ID DB format (omit to use the built-in database)",
   "# path = \"/usr/local/share/magicdb/magic.db\"",
   "",
   "[scan]",
   "# Descend into directories given on the command line",
   "recursive = false",
   "",
   "# Skip hidden files and directories",
   "skip_hidden = true",
   "",
   "# Follow symbolic links while walking",
   "follow_links = false",
   "",
   "# Maximum scan depth (0 = unlimited)",
   "max_depth = 0",
   "",
   "# Number of parallel workers (0 = auto-detect CPU count)",
   "workers = 0",
   "",
   "# Bytes buffered per file in --stream mode",
   "mark_limit = 1048576",
   "",
   "[output]",
   "# One line per file instead of the full property listing",
   "brief = false",
   "",
   "# Report format: \"human\" or \"json\"",
   "format = \"human\""]

/-- A document that states the defaults and explains them. -/
def sample : Text :=
  sampleLines.flatMap fun line => line.toList ++ ['\n']

end Settings

end FileSignatures
