import FileSignatures.CommandLine.Run

/-!
# The program

Runs the command line on the machine: reads files and directories, prints, and
ends with the status of the outcome.

## Main definitions

* `contentOnDisk?`, `directoryOnDisk`: What is on the disk.
* `configDirectoryOnDisk?`: Where the user's settings belong.
* `main`: The program.
-/

namespace FileSignatures

/-- The bytes of a file on the disk, if it can be read. Only what lies at a path
    that is a text can be. -/
def contentOnDisk? (path : Path) : IO (Option (List UInt8)) := do
  match Text.ofUtf8? path with
  | none => return none
  | some path =>
    try
      return some (← IO.FS.readBinFile (String.ofList path)).toList
    catch _ =>
      return none

/-- The directory at a path on the disk. Entries that cannot be looked at are
    left out, and so are links, unless they are followed; a link back to one of
    the directories that enclose it, given by their real paths, is left out in
    any case. -/
partial def directoryOnDisk (followLinks : Bool) (enclosing : List String) (path : String) :
    IO (Directory Unit) := do
  let here := (← IO.currentDir) / path
  let real := (← IO.FS.realPath here).toString
  if enclosing.contains real then return .empty
  let mut entries : Directory Unit := .empty
  for entry in ← here.readDir do
    let name := Text.utf8 entry.fileName.toList
    try
      let status ← if followLinks then entry.path.metadata else entry.path.symlinkMetadata
      match status.type with
      | .file => entries := .file name () entries
      | .dir =>
        let inside ← directoryOnDisk followLinks (real :: enclosing) (toString entry.path)
        entries := .directory name inside entries
      | _ => pure ()
    catch _ => pure ()
  return entries

/-- The files below a directory on the disk, if there is one. -/
def filesOnDisk? (scan : ScanSettings) (path : Path) : IO (Option (List (List Path))) := do
  let some place := (Text.ofUtf8? path).map String.ofList | return none
  if place.isEmpty then return none
  if ← ((← IO.currentDir) / place).isDir then
    try
      return some ((← directoryOnDisk scan.followLinks [] place).files scan.walk)
    catch _ => return some []
  else return none

/-- A path in the environment, if it is set. -/
def pathInEnvironment? (variableName : String) : IO (Option Path) := do
  return (← IO.getEnv variableName).map fun value => Text.utf8 value.toList

/-- The directory for the user's settings: in the one that the environment names
    for all programs, or else in the usual one at home. -/
def configDirectoryOnDisk? : IO (Option Path) := do
  let some home ← pathInEnvironment? "HOME" | return none
  let named ← pathInEnvironment? "XDG_CONFIG_HOME"
  let base := (named.filter fun path => path.head? = some Path.slash).getD
    (Path.entry home (Text.utf8 ".config".toList))
  return some (Path.entry base (Text.utf8 "magicdb".toList))

/-- The machine that the program runs on. Files are read one after the other, so
    there is nothing to be started. -/
instance : Machine IO where
  content? := contentOnDisk?
  files? := filesOnDisk?
  configDirectory? := configDirectoryOnDisk?
  home? := pathInEnvironment? "HOME"
  processors := return 1
  canStart _ := return true

end FileSignatures

/-- Runs the command line. -/
def main (arguments : List String) : IO UInt32 := do
  let outcome ← FileSignatures.CommandLine.run
    (arguments.map fun argument => FileSignatures.Text.utf8 argument.toList)
  match outcome with
  | .success output => (← IO.getStdout).putStr (String.ofList output)
  | .failure error => IO.eprintln (String.ofList error.line)
  | .misuse => IO.eprintln "usage: [OPTION]... (identify PATH... | check | config)"
  return UInt32.ofNat outcome.status
