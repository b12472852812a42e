import FileSignatures.Identification.Document
import FileSignatures.Path
import FileSignatures.Rule
import FileSignatures.Text.Utf8

/-!
# Reports

What is written about the files of a scan: a line or a listing per file and a
summary, or one JSON document for all of them. People are shown every path,
while a document has room only for paths that are texts.

## Main definitions

* `FileReport`: A path with its identification.
* `FileReport.brief`, `FileReport.listing`: The two reports for people.
* `ScanSummary`: Counts of files.
* `ScanReport`: The reports of all files and the summary.
* `RuleCounts.text`: A database and its counts.
-/

namespace FileSignatures

/-- A path and the identification of the file there. -/
structure FileReport where
  path : Path
  identification : Identification

namespace FileReport

/-- The width of the column of file names. -/
def nameWidth : Nat := 32

/-- The indentation of what belongs to a file. -/
def indentation : Text := Text.spaces 16

/-- File name, comment and media type on a line, and a title on a second one.
    Of a file that nothing matches only the name is known. -/
def brief (report : FileReport) : Text :=
  let name := Text.ofUtf8Lossy ((Path.fileName? report.path).getD report.path)
  let column := name ++ Text.spaces (nameWidth - name.length)
  let result := report.identification
  if result.identified then
    column ++ result.comment
      ++ (match result.mime? with
          | some mime => ',' :: ' ' :: mime
          | none => [])
      ++ (match result.title? with
          | some title => '\n' :: (indentation ++ title)
          | none => [])
  else column

/-- The line of a property. -/
def propertyLine (entry : Text × Text) : Text :=
  indentation ++ entry.1 ++ '=' :: entry.2 ++ ['\n']

/-- An empty line, the path, and a line for every property. -/
def listing (report : FileReport) : Text :=
  "\n>> ".toList ++ Text.ofUtf8Lossy report.path ++ ['\n']
    ++ report.identification.properties.entries.flatMap propertyLine

/-- The document of a report, if its path is a text: the path among the fields
    of the identification. -/
def toJson? (report : FileReport) : Option Json :=
  (Text.ofUtf8? report.path).map fun path =>
    .object (("path".toList, .string path) :: report.identification.members)

end FileReport

/-- How many files were read, how many of them a signature matches, and how many
    could not be read. -/
structure ScanSummary where
  read : Nat
  identified : Nat
  failed : Nat
  deriving DecidableEq

namespace ScanSummary

/-- The counts before the first file. -/
def empty : ScanSummary := ⟨0, 0, 0⟩

/-- Counts a file that was read. -/
def record (summary : ScanSummary) (identified : Bool) : ScanSummary :=
  { summary with
    read := summary.read + 1
    identified := summary.identified + (if identified then 1 else 0) }

/-- Counts a file that could not be read. -/
def recordFailure (summary : ScanSummary) : ScanSummary :=
  { summary with failed := summary.failed + 1 }

/-- The share of the files read that a signature matches, in whole percent,
    rounded down. Of no files it is zero. -/
def percent (summary : ScanSummary) : Nat :=
  summary.identified * 100 / summary.read

/-- The summary for people. Failures are mentioned only if there are any. -/
def text (summary : ScanSummary) : Text :=
  Text.ofNat summary.identified ++ '/' :: Text.ofNat summary.read ++ ['\n']
    ++ Text.ofNat summary.percent ++ "% identified.\n".toList
    ++ (if summary.failed = 0 then []
        else Text.ofNat summary.failed ++ " could not be read.\n".toList)

/-- The document of a summary. -/
def toJson (summary : ScanSummary) : Json :=
  .object
    [("read".toList, .integer summary.read),
     ("identified".toList, .integer summary.identified),
     ("failed".toList, .integer summary.failed)]

end ScanSummary

/-- The reports of the files of a scan, in its order, and the summary. -/
structure ScanReport where
  files : List FileReport
  summary : ScanSummary

/-- The document of a scan, if all paths are texts. -/
def ScanReport.toJson? (report : ScanReport) : Option Json :=
  (report.files.mapM FileReport.toJson?).map fun files =>
    .object [("files".toList, .array files), ("summary".toList, report.summary.toJson)]

/-- A database, named by where it comes from, and the counts of its rules. -/
def RuleCounts.text (counts : RuleCounts) (source : Text) : Text :=
  "Magic database ".toList ++ source
    ++ "\n  top-level rules:    ".toList ++ Text.ofNat counts.topLevel
    ++ "\n  continuation rules: ".toList ++ Text.ofNat counts.continuation
    ++ "\n  extra-info rules:   ".toList ++ Text.ofNat counts.extraInfo

end FileSignatures
