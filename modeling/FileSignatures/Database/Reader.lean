import FileSignatures.Database.Line

/-!
# Reading a database

A database begins with three header lines. After them, empty lines and lines
that begin with a number sign do not count, and every other line is a rule.
Sub-rules belong to the closest top-level rule above them. One faulty line
makes the whole database unusable.

## Main definitions

* `Database.checkHeaders`: The header, and the numbered lines after it.
* `Database.Draft`: The signatures read so far.
* `Database.addLine`: A draft with one more line.
* `RuleSet.ofText`: The rules of a database text.
* `RuleSet.ofBytes`: The rules of a database file.
-/

namespace FileSignatures

namespace Database

/-- The first line of every database. -/
def magicHeader : Text := "# FILE_ID DB".toList

/-- How the second line begins. -/
def dateHeader : Text := "# Date:".toList

/-- How the third line begins. -/
def sourceHeader : Text := "# Source:".toList

/-- Takes one header line, which must satisfy `valid`, from the lines. -/
def takeHeader (number : Nat) (expected : Text) (valid : Text → Bool) :
    List Text → Except FormatError (List Text)
  | [] => .error ⟨number, .missingHeader expected⟩
  | line :: rest => if valid line then .ok rest else .error ⟨number, .badHeader expected⟩

/-- The lines after the three header lines. -/
def checkHeaders (lines : List Text) : Except FormatError (List Text) := do
  let lines ← takeHeader 1 magicHeader (· = magicHeader) lines
  let lines ← takeHeader 2 dateHeader dateHeader.isPrefixOf lines
  takeHeader 3 sourceHeader sourceHeader.isPrefixOf lines

/-- Whether a line is a rule: neither empty nor a comment. -/
def isRuleLine (line : Text) : Bool :=
  !line.isEmpty && line.head? ≠ some '#'

/-- The signatures read so far: those that are complete, and the one that the
    next sub-rule belongs to. -/
structure Draft where
  finished : Array Signature
  current : Option Signature

namespace Draft

/-- Nothing read so far. -/
def empty : Draft := ⟨#[], none⟩

/-- All signatures of a draft. -/
def signatures (draft : Draft) : List Signature :=
  draft.finished.toList ++ draft.current.toList

/-- A draft with one more rule, unless the rule lacks a signature to belong
    to. -/
def add? (draft : Draft) (kind : LineKind) (rule : Rule) : Option Draft :=
  match kind, draft.current with
  | .topLevel, none => some { draft with current := some ⟨rule, [], []⟩ }
  | .topLevel, some done => some ⟨draft.finished.push done, some ⟨rule, [], []⟩⟩
  | .continuation, some s =>
    some { draft with current := some { s with continuations := s.continuations ++ [rule] } }
  | .extraInfo, some s =>
    some { draft with current := some { s with extras := s.extras ++ [rule] } }
  | _, none => none

end Draft

/-- A draft with one more line. -/
def addLine (draft : Draft) (number : Nat) (line : Text) : Except FormatError Draft :=
  if isRuleLine line then
    match ruleOf number line with
    | .error cause => .error ⟨number, cause⟩
    | .ok (kind, rule) =>
      match draft.add? kind rule with
      | some draft => .ok draft
      | none => .error ⟨number, .orphan⟩
  else .ok draft

/-- A draft with all of the lines, the first of which has the given number. -/
def addLines (draft : Draft) (number : Nat) : List Text → Except FormatError Draft
  | [] => .ok draft
  | line :: rest =>
    match addLine draft number line with
    | .error error => .error error
    | .ok draft => addLines draft (number + 1) rest

end Database

namespace RuleSet

/-- The rules of a database text. -/
def ofText (text : Text) : Except FormatError RuleSet := do
  let lines ← Database.checkHeaders text.lines
  let draft ← Database.addLines .empty 4 lines
  .ok ⟨draft.signatures⟩

/-- The rules of a database file. Every byte is read as one character, so that
    any byte can be part of an operand. -/
def ofBytes (bytes : List UInt8) : Except FormatError RuleSet :=
  ofText (Text.ofLatin1 bytes)

end RuleSet

end FileSignatures
