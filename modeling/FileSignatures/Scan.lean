import FileSignatures.Directory.Walk
import FileSignatures.Matching
import FileSignatures.Report
import FileSignatures.Settings.Basic

/-!
# Scans

A scan goes over paths. A path to a directory stands for the files below it, if
directories are to be walked, and every other path for itself, whether there is
a file or not. Each file is identified on its own; one that cannot be read or
identified is counted and has no report.

## Main definitions

* `ScanSettings.filesBelow?`: The files that a scan finds in a directory.
* `ScanSettings.filesAt`: The files that a path stands for.
* `ScanSettings.collect`: The files that several paths stand for.
* `RuleSet.identifyContent?`: The identification of a file.
* `ScanReport.ofResults`: The report of a scan.
* `ScanReport.text?`: What a scan prints.
-/

namespace FileSignatures

namespace ScanSettings

/-- The walk that settings ask for. Files directly in the directory that is
    walked have the depth one. -/
def walk (scan : ScanSettings) : Directory.Walk where
  skipHidden := scan.skipHidden
  depth := if scan.maxDepth = 0 then none else some (scan.maxDepth - 1)

/-- The files that a scan finds below the directory at a path, if there is a
    directory. -/
def filesBelow? {α : Type} (scan : ScanSettings) (path : Path) (d : Directory α) :
    Option (List (List Path)) :=
  ((d.at? path).bind Place.inside?).map (Directory.files scan.walk)

/-- The files that a path stands for, given the files below the directory at
    the path, or nothing if no directory is there. -/
def filesAt (scan : ScanSettings) (path : Path) : Option (List (List Path)) → List Path
  | none => [path]
  | some files => if scan.recursive then files.map (Path.below path) else []

/-- The files that paths stand for in a directory. -/
def collect {α : Type} (scan : ScanSettings) (d : Directory α) (paths : List Path) :
    List Path :=
  paths.flatMap fun path => scan.filesAt path (scan.filesBelow? path d)

end ScanSettings

/-- The identification of the content of a file, if nothing goes wrong. A
    stream delivers the content, of which at most `limit` bytes count, or else
    all of it is at hand. -/
def RuleSet.identifyContent? (rules : RuleSet) (asStream : Bool) (limit : Nat)
    (content : List UInt8) : Option Identification :=
  let result :=
    if asStream then rules.identifyStream .arithmetic [.chunk content] limit
    else rules.identifyBytes .arithmetic content.toArray
  result.toOption

/-- A file of a scan with its identification, unless it failed. -/
structure ScanResult where
  path : Path
  identification : Option Identification

/-- The report of a file that did not fail. -/
def ScanResult.report? (result : ScanResult) : Option FileReport :=
  result.identification.map fun identification => ⟨result.path, identification⟩

/-- Counts the result of a file. -/
def ScanSummary.add (summary : ScanSummary) (result : ScanResult) : ScanSummary :=
  match result.identification with
  | some identification => summary.record identification.identified
  | none => summary.recordFailure

namespace ScanReport

/-- The report of a scan. -/
def ofResults (results : List ScanResult) : ScanReport where
  files := results.filterMap ScanResult.report?
  summary := results.foldl ScanSummary.add .empty

/-- What a scan prints: the reports of its files, then an empty line and the
    summary, or a document of all that, if there is one. -/
def text? (report : ScanReport) (output : OutputSettings) : Option Text :=
  match output.format with
  | .json => report.toJson?.map fun document => document.pretty ++ ['\n']
  | .human =>
    some ((report.files.flatMap fun file =>
      if output.brief then file.brief ++ ['\n'] else file.listing)
      ++ '\n' :: report.summary.text)

end ScanReport

end FileSignatures
