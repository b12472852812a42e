import FileSignatures.Identification
import FileSignatures.Json.Reader

/-!
# Identifications as documents

An identification is written as an object with five fields. It is read from
such an object, whose further fields do not count, or from an array of the five
values in order. No field may be given twice.

## Main definitions

* `Identification.members`, `Identification.toJson`: The document of an
  identification.
* `Identification.ofJson?`: The identification of a document.
* `Identification.ofText?`: The identification of a text.
-/

namespace FileSignatures

namespace Identification

/-- The fields of an identification. -/
def members (result : Identification) : List (Text × Json) :=
  [("identified".toList, .bool result.identified),
   ("description".toList, .string result.description),
   ("comment".toList, .string result.comment),
   ("properties".toList,
     .object (result.properties.entries.map fun entry => (entry.1, .string entry.2))),
   ("matched_line".toList,
     match result.matchedLine with
     | some line => .integer line
     | none => .null)]

/-- The document of an identification. -/
def toJson (result : Identification) : Json :=
  .object result.members

/-- A truth value. -/
def boolOf? : Json → Option Bool
  | .bool b => some b
  | _ => none

/-- A text. -/
def textOf? : Json → Option Text
  | .string t => some t
  | _ => none

/-- Keys with texts. -/
def entriesOf? : List (Text × Json) → Option (List (Text × Text))
  | [] => some []
  | (key, value) :: rest =>
    match textOf? value, entriesOf? rest with
    | some t, some entries => some ((key, t) :: entries)
    | _, _ => none

/-- Properties whose values are all texts. Of a key that is given twice the last
    value counts. -/
def propertiesOf? : Json → Option PropertyMap
  | .object members => (entriesOf? members).map PropertyMap.ofList
  | _ => none

/-- A line number, which may be absent. -/
def lineOf? : Json → Option (Option Nat)
  | .null => some none
  | .integer n => if 0 ≤ n ∧ n < Literal.wordCount then some (some n.toNat) else none
  | _ => none

/-- The identification of five values. -/
def ofFields? (identified description comment properties matchedLine : Json) :
    Option Identification := do
  return {
    identified := ← boolOf? identified
    description := ← textOf? description
    comment := ← textOf? comment
    properties := ← propertiesOf? properties
    matchedLine := ← lineOf? matchedLine }

/-- The names of the fields that must be given. -/
def requiredNames : List Text :=
  ["identified".toList, "description".toList, "comment".toList, "properties".toList]

/-- The names of all fields. -/
def fieldNames : List Text :=
  requiredNames ++ ["matched_line".toList]

/-- Whether a member of an object is a field of an identification. -/
def isField (member : Text × Json) : Bool :=
  fieldNames.contains member.1

/-- The identification of a document. Only the line number may be missing. -/
def ofJson? : Json → Option Identification
  | .object members => do
    if !((members.filter isField).map Prod.fst).Nodup then none
    let identified ← Json.member? "identified".toList members
    let description ← Json.member? "description".toList members
    let comment ← Json.member? "comment".toList members
    let properties ← Json.member? "properties".toList members
    let matchedLine := (Json.member? "matched_line".toList members).getD .null
    ofFields? identified description comment properties matchedLine
  | .array [identified, description, comment, properties, matchedLine] =>
    ofFields? identified description comment properties matchedLine
  | _ => none

/-- The identification that a text says. -/
def ofText? (t : Text) : Option Identification :=
  (Json.ofText? t).bind ofJson?

end Identification

end FileSignatures
