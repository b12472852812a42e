import FileSignatures.Text.Basic

/-!
# Descriptions

A description carries free text and, in brackets, properties. Brackets nest;
only the outermost ones separate groups of properties, inner ones are dropped.

## Main definitions

* `Description.hasGroup`: Whether a description has properties at all.
* `Description.splitAt`: Comment and properties of a text at some depth.
* `Description.split`: Comment and properties of a description.
-/

namespace FileSignatures

namespace Description

/-- Whether an opening bracket comes before the first closing one, which is
    what makes a description have properties. -/
def hasGroup (description : Text) : Bool :=
  let start := description.dropWhile (· ≠ '[')
  start.contains ']' && !(description.takeWhile (· ≠ '[')).contains ']'

/-- Comment and properties of a text that stands inside of `depth` brackets. The
    end of an outermost group becomes a separator, so that groups do not run
    together, and so does a closing bracket at the end or before a separator. A
    closing bracket that closes nothing leaves the depth below zero, and the
    next opening one brings it back. -/
def splitAt (depth : Int) : Text → Text × Text
  | [] => ([], [])
  | '[' :: rest => splitAt (depth + 1) rest
  | ']' :: rest =>
    let (comment, properties) := splitAt (depth - 1) rest
    let separates := match rest with
      | [] => true
      | next :: _ => next = ';' || depth = 1
    (comment, if separates then ';' :: properties else properties)
  | c :: rest =>
    let (comment, properties) := splitAt depth rest
    if 0 < depth then (comment, c :: properties) else (c :: comment, properties)

/-- The comment of a description and the text of its properties. Without a group
    of properties everything is comment. -/
def split (description : Text) : Text × Text :=
  if hasGroup description then splitAt 0 description else (description, [])

end Description

end FileSignatures
