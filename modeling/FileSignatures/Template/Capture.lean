import FileSignatures.Number.Literal
import FileSignatures.Text.Quoted

/-!
# Captures

A rule that accepts any string, or any greater than a character, has to know
how many bytes to read. The conversion in the first bracketed section of its
description says so: `%s` stands for the default and `%.Ns` for exactly `N`.

## Main definitions

* `Template.defaultCapture`: The count of bytes where no conversion bounds it.
* `Template.bracketed?`: The first bracketed section of a description.
* `Template.captureLength`: The count of bytes that a description captures.
-/

namespace FileSignatures

namespace Template

/-- The bytes that a capture reads if its description does not bound them. -/
def defaultCapture : Nat := 255

/-- What is wrong with the conversion that should bound a capture. -/
inductive CaptureError where
  /-- A precision that does not belong to a string conversion. -/
  | notString (description : Text)
  /-- A precision beyond the range of a 64-bit word. -/
  | outOfRange (description : Text)
  deriving DecidableEq

/-- The wording of an error. -/
def CaptureError.message : CaptureError → Text
  | notString description =>
    "invalid string specifier in ".toList ++ description.quoted
  | outOfRange description =>
    "string width out of range in ".toList ++ description.quoted

/-- The first bracketed section of a description, brackets included: from the
    first opening to the first closing bracket, if they come in this order. -/
def bracketed? (description : Text) : Option Text :=
  let start := description.dropWhile (· ≠ '[')
  if (description.takeWhile (· ≠ '[')).contains ']' then none
  else if start.contains ']' then some (start.takeWhile (· ≠ ']') ++ [']'])
  else none

/-- The count of bytes that a rule with the given description captures. An
    unbounded string conversion anywhere in the section outweighs a bounded
    one, and of several precisions the first one counts. -/
def captureLength (description : Text) : Except CaptureError Nat :=
  match bracketed? description with
  | none => .ok defaultCapture
  | some content =>
    if (Text.after? ['%', 's'] content).isSome then .ok defaultCapture
    else
      match Text.after? ['%', '.'] content with
      | none => .ok defaultCapture
      | some rest =>
        let digits := rest.takeWhile isDigit
        if digits.isEmpty || (rest.dropWhile isDigit).head? ≠ some 's' then
          .error (.notString description)
        else
          match (digitsValue? 10 digits).filter (· < Literal.wordCount) with
          | some limit => .ok limit
          | none => .error (.outOfRange description)

end Template

end FileSignatures
