import FileSignatures.Directory.Basic
import FileSignatures.Text.Utf8

/-!
# Walking directories

A walk lists the files below a directory, each by the names that lead to it. It
takes the entries of a directory in the order of their names, and lists the
files of a directory inside where the directory stands. It may leave out what
is hidden and what lies too deep.

## Main definitions

* `Path.isHidden`: Whether a name is that of a hidden entry.
* `Directory.Walk`: What a walk leaves out.
* `Directory.joinByName`: Listings in the order of their names.
* `Directory.files`: The files that a walk lists.
-/

namespace FileSignatures

/-- Whether a name is that of a hidden entry: it has to be a text and to begin
    with a dot. A name that is no text is not hidden, whatever its bytes are. -/
def Path.isHidden (name : Path) : Bool :=
  match Text.ofUtf8? name with
  | some ('.' :: _) => true
  | _ => false

namespace Directory

/-- What a walk leaves out. -/
structure Walk where
  /-- Leave out entries that are hidden, with all that is in them. -/
  skipHidden : Bool
  /-- Into how many directories to go, one inside of the other, or nothing for
      as many as there are. -/
  depth : Option Nat
  deriving DecidableEq

namespace Walk

/-- The walk that leaves out nothing. -/
def unrestricted : Walk := ⟨false, none⟩

/-- Whether the walk leaves out the entry of a name. -/
def skips (walk : Walk) (name : Path) : Bool :=
  walk.skipHidden && Path.isHidden name

/-- The walk in a directory inside, if it goes there. -/
def inner? (walk : Walk) : Option Walk :=
  match walk.depth with
  | none => some walk
  | some 0 => none
  | some (depth + 1) => some { walk with depth := some depth }

end Walk

variable {α : Type}

/-- Whether a listing may come before another one: not under a later name. -/
def nameLe {β : Type} (a b : Path × List β) : Bool :=
  !(b.1 < a.1)

/-- Listings under names, put in the order of the names and joined. -/
def joinByName {β : Type} (listings : List (Path × List β)) : List β :=
  (listings.mergeSort nameLe).flatMap Prod.snd

/-- The files under every name of a directory: the file of that name, or the
    files below the directory of that name. -/
def branches (walk : Walk) : Directory α → List (Path × List (List Path))
  | empty => []
  | file name _ others =>
    (name, if walk.skips name then [] else [[name]]) :: branches walk others
  | directory name inside others =>
    let files :=
      if walk.skips name then []
      else
        match walk.inner? with
        | none => []
        | some inner => (joinByName (branches inner inside)).map (name :: ·)
    (name, files) :: branches walk others

/-- The files below a directory, each by the names that lead to it. -/
def files (walk : Walk) (d : Directory α) : List (List Path) :=
  joinByName (d.branches walk)

end Directory

end FileSignatures
