import FileSignatures.Expression.Evaluator
import FileSignatures.Floating.Single
import FileSignatures.Property.Description
import FileSignatures.Property.Key
import FileSignatures.Property.Map

/-!
# Extraction of properties

The properties of a description are a list of `key=value` tokens between
semicolons. Recognised keys get their reported spelling, numeric ones their
value; other keys stay as they are. A later token overrides an earlier one, and
the comment of the description overrides all.

## Main definitions

* `BadNumber`: A numeric property that cannot be evaluated.
* `Property.ofToken?`: The key and the raw value of a token.
* `Property.evaluate`: The reported key and value of a property.
* `Extraction.ofDescription`: Comment and properties of a description.
-/

namespace FileSignatures

/-- A numeric property that cannot be evaluated, and why. -/
structure BadNumber where
  key : Text
  expression : Text
  reason : ExpressionError
  deriving DecidableEq

/-- The wording of an error. -/
def BadNumber.message (error : BadNumber) : Text :=
  "invalid numeric value for property '".toList ++ error.key ++ "': ".toList
    ++ error.expression.quoted ++ " (".toList ++ error.reason.message ++ [')']

/-- Whether a character is trimmed from keys and values: the space and the
    controls before it. -/
def isControlOrSpace (c : Char) : Bool :=
  c ≤ ' '

namespace Property

/-- The key and the raw value of a token, both trimmed. A token without an
    equals sign or with an empty key is no property. -/
def ofToken? (token : Text) : Option (Text × Text) :=
  match Text.cut? '=' token with
  | none => none
  | some (key, value) =>
    let key := key.trimBy isControlOrSpace
    if key.isEmpty then none else some (key, value.trimBy isControlOrSpace)

/-- The reported key and value of a property. -/
def evaluate (evaluator : Evaluator) (key value : Text) : Except BadNumber (Text × Text) :=
  match PropertyKey.lookup? key with
  | none => .ok (key, value)
  | some (name, .text) => .ok (name, value)
  | some (name, .integer) =>
    match evaluator.integer value with
    | .ok n => .ok (name, Text.ofInt n.toInt)
    | .error reason => .error ⟨name, value, reason⟩
  | some (name, .float) =>
    match evaluator.float value with
    | .ok x => .ok (name, Float.singleText x)
    | .error reason => .error ⟨name, value, reason⟩

/-- The properties that a list of tokens adds to a map. The first one that
    cannot be evaluated is an error. -/
def addTokens (evaluator : Evaluator) (map : PropertyMap) :
    List Text → Except BadNumber PropertyMap
  | [] => .ok map
  | token :: rest =>
    match ofToken? token with
    | none => addTokens evaluator map rest
    | some (key, value) =>
      match evaluate evaluator key value with
      | .error error => .error error
      | .ok (name, result) => addTokens evaluator (map.insert name result) rest

end Property

/-- Comment and properties of a description. The comment is one of the
    properties. -/
structure Extraction where
  comment : Text
  properties : PropertyMap

/-- Extracts comment and properties from a description. -/
def Extraction.ofDescription (evaluator : Evaluator) (description : Text) :
    Except BadNumber Extraction :=
  let (comment, raw) := Description.split description
  match Property.addTokens evaluator .empty (Text.pieces ';' raw) with
  | .error error => .error error
  | .ok map => .ok ⟨comment, map.insert PropertyKey.comment comment⟩

end FileSignatures
