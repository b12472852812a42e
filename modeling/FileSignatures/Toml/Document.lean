import FileSignatures.Text.Basic

/-!
# TOML documents

A document is a tree of tables. Its lines come in any order that does not
define anything twice, so a table remembers how it came about: a header may
later name a table that so far only had to exist for its sub-tables, dotted keys
may go on to fill a table that dotted keys began, and nothing else may be
added to.

## Main definitions

* `Toml`: A value or a table.
* `TableOrigin`: How a table came about.
* `Toml.addTable?`, `Toml.addElement?`: What the two kinds of headers do.
* `Toml.addKey?`: What a line with a key and a value does.
-/

namespace FileSignatures

/-- How a table came about. -/
inductive TableOrigin where
  /-- By a header of its own. -/
  | header
  /-- By a header of a table below it. -/
  | implied
  /-- By dotted keys. -/
  | dotted
  /-- Between braces, which leaves nothing to add. -/
  | inline
  deriving DecidableEq, Repr

/-- A value or a table. The kinds of value that no setting has keep only that
    they are there. -/
inductive Toml where
  | string (t : Text)
  | integer (n : Int)
  | boolean (b : Bool)
  | float
  | datetime
  | array (elements : List Toml)
  | table (origin : TableOrigin) (entries : List (Text × Toml))
  /-- An array of tables, every element by a header of its own. -/
  | tables (elements : List (List (Text × Toml)))

namespace Toml

/-- The entries of a table. -/
abbrev Entries := List (Text × Toml)

/-- The value of a key. -/
def lookup? (key : Text) : Entries → Option Toml
  | [] => none
  | (k, value) :: rest => if k = key then some value else lookup? key rest

/-- Replaces the value of a key, which `change` computes from the present one.
    A new key comes last. -/
def alter? (key : Text) (change : Option Toml → Option Toml) : Entries → Option Entries
  | [] => (change none).map fun value => [(key, value)]
  | (k, value) :: rest =>
    if k = key then (change (some value)).map fun value => (k, value) :: rest
    else (alter? key change rest).map fun rest => (k, value) :: rest

/-- Replaces the last of several tables. -/
def alterLast? (change : Entries → Option Entries) : List Entries → Option (List Entries)
  | [] => none
  | [last] => (change last).map fun last => [last]
  | first :: rest => (alterLast? change rest).map fun rest => first :: rest

/-- Replaces the table that a header path leads to. Tables on the way that are
    missing come to exist, and of an array of tables the last one is meant. -/
def alterAt? (change : Entries → Option Entries) : (path : List Text) → Entries → Option Entries
  | [], entries => change entries
  | key :: path, entries =>
    alter? key (fun present =>
      match present with
      | none => (alterAt? change path []).map (table .implied)
      | some (table .inline _) => none
      | some (table origin entries) => (alterAt? change path entries).map (table origin)
      | some (tables elements) => (alterLast? (alterAt? change path) elements).map tables
      | some _ => none) entries

/-- Begins a table with a header. It may have been implied before. -/
def addTable? (path : List Text) (key : Text) (document : Entries) : Option Entries :=
  alterAt? (alter? key fun present =>
    match present with
    | none => some (table .header [])
    | some (table .implied entries) => some (table .header entries)
    | some _ => none) path document

/-- Begins a further element of an array of tables. -/
def addElement? (path : List Text) (key : Text) (document : Entries) : Option Entries :=
  alterAt? (alter? key fun present =>
    match present with
    | none => some (tables [[]])
    | some (tables elements) => some (tables (elements ++ [[]]))
    | some _ => none) path document

/-- Sets a new key. -/
def setNew? (key : Text) (value : Toml) (entries : Entries) : Option Entries :=
  alter? key (fun present => if present.isSome then none else some value) entries

/-- Sets a key in a table that dotted keys lead to. The table itself has to be
    one that dotted keys began; those above it may also be implied ones. -/
def setDotted? (key : Text) (value : Toml) : (path : List Text) → Entries → Option Entries
  | [], entries => setNew? key value entries
  | first :: path, entries =>
    alter? first (fun present =>
      match present with
      | none => (setDotted? key value path []).map (table .dotted)
      | some (table .dotted entries) => (setDotted? key value path entries).map (table .dotted)
      | some (table .implied entries) =>
        if path.isEmpty then none
        else (setDotted? key value path entries).map (table .implied)
      | some (tables elements) =>
        if path.isEmpty then none
        else (alterLast? (setDotted? key value path) elements).map tables
      | some _ => none) entries

/-- Adds a line with a possibly dotted key below the table of the last header,
    which `current` leads to. -/
def addKey? (current path : List Text) (key : Text) (value : Toml) (document : Entries) :
    Option Entries :=
  alterAt? (setDotted? key value path) current document

end Toml

end FileSignatures
