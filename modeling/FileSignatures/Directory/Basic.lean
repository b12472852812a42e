import FileSignatures.Path

/-!
# Directories

A directory is a list of entries, each of them a file with its content or a
directory inside, under a name. What a path leads to is found piece by piece,
from the directory in which one stands; the directories that enclose it are
remembered, since a path may also lead outwards.

## Main definitions

* `Directory`: The entries of a directory.
* `Place`: A file or a directory.
* `Directory.entry?`: The place under a name.
* `Directory.set`: A directory with one entry changed.
* `Directory.addFile`, `Directory.addDirectory`: A directory with a file or a
  directory added somewhere below.
* `Directory.at?`: What a path leads to.
-/

namespace FileSignatures

/-- The entries of a directory: files with a content and directories. -/
inductive Directory (α : Type) where
  | empty
  | file (name : Path) (content : α) (others : Directory α)
  | directory (name : Path) (inside others : Directory α)

/-- What stands under a name. -/
inductive Place (α : Type) where
  | file (content : α)
  | directory (inside : Directory α)

namespace Place

variable {α : Type}

/-- The content of a file. -/
def content? : Place α → Option α
  | file content => some content
  | directory _ => none

/-- The entries of a directory. -/
def inside? : Place α → Option (Directory α)
  | file _ => none
  | directory inside => some inside

end Place

namespace Directory

variable {α : Type}

/-- The place under a name. -/
def entry? (name : Path) : Directory α → Option (Place α)
  | empty => none
  | file n content others => if n = name then some (.file content) else entry? name others
  | directory n inside others =>
    if n = name then some (.directory inside) else entry? name others

/-- An entry before others. -/
def cons (name : Path) (place : Place α) (others : Directory α) : Directory α :=
  match place with
  | .file content => file name content others
  | .directory inside => directory name inside others

/-- The directory with `place` under a name, instead of what has stood there. -/
def set (name : Path) (place : Place α) : Directory α → Directory α
  | empty => cons name place empty
  | file n content others =>
    if n = name then cons name place others else file n content (set name place others)
  | directory n inside others =>
    if n = name then cons name place others else directory n inside (set name place others)

/-- The entries of the directory under a name; there are none if no directory
    stands there. -/
def inside (name : Path) (d : Directory α) : Directory α :=
  ((d.entry? name).bind Place.inside?).getD empty

/-- The directory with `change` done inside of directories of the names given,
    from the outside inwards. Directories that are missing are made. -/
def within (change : Directory α → Directory α) : List Path → Directory α → Directory α
  | [], d => change d
  | name :: rest, d => d.set name (.directory (within change rest (d.inside name)))

/-- The directory with a directory at a path, which keeps what it holds already. -/
def addDirectory (path : Path) (d : Directory α) : Directory α :=
  d.within id (Path.parts path)

/-- The directory with a file at a path. -/
def addFile (path : Path) (content : α) (d : Directory α) : Directory α :=
  let names := Path.parts path
  match names.getLast? with
  | none => d
  | some name => d.within (set name (.file content)) names.dropLast

/-- What the pieces of a path lead to from a directory, which the directories
    `outer` enclose, the closest first. The outermost one encloses itself. -/
def follow? (outer : List (Directory α)) (here : Directory α) : List Path → Option (Place α)
  | [] => some (.directory here)
  | piece :: rest =>
    if Path.isSamePlace piece then follow? outer here rest
    else if Path.isEnclosing piece then
      match outer with
      | [] => follow? [] here rest
      | enclosing :: outer => follow? outer enclosing rest
    else
      match here.entry? piece with
      | none => none
      | some (.directory inside) => follow? (here :: outer) inside rest
      | some (.file content) => if rest.isEmpty then some (.file content) else none

/-- What a path leads to, from the outermost directory. The empty path leads
    nowhere, although it has only an empty piece, which would stay where it is. -/
def at? (d : Directory α) (path : Path) : Option (Place α) :=
  if path.isEmpty then none else follow? [] d (Text.pieces Path.slash path)

end Directory

end FileSignatures
