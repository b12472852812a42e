import FileSignatures.Text.Basic

/-!
# Paths

A path is written with slashes. The slashes only separate: several of them are
as good as one, and a dot stands for the place itself. A file system knows paths
and names as bytes, which need not be a text.

## Main definitions

* `Path`: A path, or a name in it.
* `Path.parts`: What a path names, from the outside inwards.
* `Path.fileName?`: The name at the end of a path.
* `Path.below`: The path of something below another path.
-/

namespace FileSignatures

/-- A path, or a name in it, in bytes. -/
abbrev Path := List UInt8

namespace Path

/-- The byte between the pieces of a path. -/
def slash : UInt8 := 0x2f

/-- The byte that stands for a place itself, and twice for the enclosing one. -/
def dot : UInt8 := 0x2e

/-- Whether a piece of a path stays at the place where it stands. -/
def isSamePlace (piece : Path) : Bool :=
  piece.isEmpty || piece = [dot]

/-- Whether a piece of a path leads to the enclosing directory. -/
def isEnclosing (piece : Path) : Bool :=
  piece = [dot, dot]

/-- The pieces of a path that lead somewhere. -/
def parts (path : Path) : List Path :=
  (Text.pieces slash path).filter fun piece => !isSamePlace piece

/-- The name at the end of a path, if it ends with a name. -/
def fileName? (path : Path) : Option Path :=
  (parts path).getLast?.filter fun piece => !isEnclosing piece

/-- The path of what `name` names in the directory at `path`. -/
def entry (path name : Path) : Path :=
  match path.getLast? with
  | none => name
  | some last => if last = slash then path ++ name else path ++ slash :: name

/-- The path of what lies below the directory at `path`, inside directories of
    the names given, from the outside inwards. -/
def below (path : Path) (names : List Path) : Path :=
  names.foldl entry path

end Path

end FileSignatures
