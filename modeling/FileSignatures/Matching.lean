import FileSignatures.Identification
import FileSignatures.Resource.Marked
import FileSignatures.Resource.Seekable
import FileSignatures.Rule
import FileSignatures.Template.Basic

/-!
# Matching

A signature matches a resource if its rule and all its continuations hold. Of
the signatures that match, the longest wins, and the first of several that are
as long. The extra-info rules of the winner that hold add their text to its
description, from which comment and properties are extracted.

A rule whose position lies outside of the resource, or whose value does not fit
in it, does not hold. Only a fault of the resource itself and a comparison
without a meaning end the matching.

## Main definitions

* `Offset.seekIn`: Goes to where an offset leads.
* `Rule.readValue`: Reads the value that a rule compares.
* `Rule.test`: The value of a rule that holds.
* `Signature.matchesIn`: Whether a signature matches.
* `RuleSet.identify`: Identifies a resource.
* `RuleSet.identifyBytes`, `RuleSet.identifyStream`: The same for bytes in
  memory and for streams.
-/

namespace FileSignatures

variable {σ : Type} [ByteSource σ]

/-- Reads a number of a type, masked. -/
def readNumber (type : ValueType) (mask : UInt64) : Reading σ Int64 := do
  let content ← ByteSource.read type.width
  match Value.decodeNumber? type mask content with
  | some n => return n
  | none => throw (.endOfData type.width content.length)

/-- Goes to where an offset leads in a resource of the given size, and says
    whether it leads anywhere. -/
def Offset.seekIn (offset : Offset) (size : Nat) : Reading σ Bool := do
  match offset.start? size with
  | none => return false
  | some start =>
    ByteSource.seek start
    match offset with
    | .direct _ => return true
    | .indirect pointer =>
      match ← ByteSource.unlessShort (readNumber pointer.width Value.fullMask) with
      | none => return false
      | some read =>
        match pointer.target? size read with
        | none => return false
        | some target =>
          ByteSource.seek target
          return true

/-- Reads bytes up to and including the first zero byte, at most `limit`. -/
def captureBytes : (limit : Nat) → Reading σ (List UInt8)
  | 0 => return []
  | limit + 1 => do
    let byte ← ByteSource.readByte
    if byte = 0 then return [byte]
    return byte :: (← captureBytes limit)

namespace Rule

/-- Reads the value that a rule compares, from the current position on. -/
def readValue (rule : Rule) : Reading σ Value := do
  if rule.isNumeric then
    return .number (← readNumber rule.type rule.mask)
  let content ←
    if rule.operator = .any || rule.operator = .greater then captureBytes rule.readLength
    else ByteSource.read rule.operand.size
  return .bytes (rule.type.foldCase content)

/-- The value of a rule, if the rule holds in a resource of the given size. -/
def test (rule : Rule) (size : Nat) : Reading σ (Option Value) := do
  if !(← rule.offset.seekIn size) then return none
  match ← ByteSource.unlessShort rule.readValue with
  | none => return none
  | some value =>
    match rule.operator.holds? value rule.operand with
    | some true => return some value
    | some false => return none
    | none => throw (.operatorMismatch rule.line rule.operator rule.type)

/-- Whether all of the rules hold. Rules after the first that does not are not
    looked at. -/
def allHold (size : Nat) : List Rule → Reading σ Bool
  | [] => return true
  | rule :: rest => do
    match ← rule.test size with
    | none => return false
    | some _ => allHold size rest

/-- The text that the rules that hold contribute, one after the other. -/
def contributions (size : Nat) : List Rule → Reading σ Text
  | [] => return []
  | rule :: rest => do
    let fragment := match ← rule.test size with
      | some value => Template.fill rule.description value
      | none => []
    return fragment ++ (← contributions size rest)

end Rule

/-- Whether a signature matches a resource of the given size. -/
def Signature.matchesIn (signature : Signature) (size : Nat) : Reading σ Bool :=
  Rule.allHold size (signature.head :: signature.continuations)

namespace RuleSet

/-- The longest of `best` and the signatures that match, the first of several
    that are as long. -/
def winnerAmong (size : Nat) (best : Option Signature) :
    List Signature → Reading σ (Option Signature)
  | [] => return best
  | signature :: rest => do
    if ← signature.matchesIn size then
      match best with
      | some current =>
        if signature.length ≤ current.length then winnerAmong size best rest
        else winnerAmong size (some signature) rest
      | none => winnerAmong size (some signature) rest
    else winnerAmong size best rest

/-- Identifies a resource. -/
def identify (rules : RuleSet) (evaluator : Evaluator) : Reading σ Identification := do
  let size ← ByteSource.size
  match ← winnerAmong size none rules.signatures with
  | none => return .unidentified
  | some winner =>
    let added ← Rule.contributions size winner.extras
    let description := winner.head.description ++ added
    match Extraction.ofDescription evaluator description with
    | .error error => throw (.badNumber error)
    | .ok extraction =>
      return {
        identified := true
        description
        comment := extraction.comment
        properties := extraction.properties
        matchedLine := some winner.head.line }

/-- The answer of an identification of a source, without the state it leaves. -/
def identifySource (rules : RuleSet) (evaluator : Evaluator) (source : σ) :
    Except Fault Identification :=
  match identify rules evaluator source with
  | .ok result _ => .ok result
  | .error fault _ => .error fault

/-- Identifies bytes in memory. -/
def identifyBytes (rules : RuleSet) (evaluator : Evaluator) (content : Array UInt8) :
    Except Fault Identification :=
  rules.identifySource evaluator (SeekableSource.ofBytes content)

/-- Identifies a stream, of which at most `limit` bytes are kept. -/
def identifyStream (rules : RuleSet) (evaluator : Evaluator) (steps : List StreamStep)
    (limit : Nat) : Except Fault Identification :=
  rules.identifySource evaluator (MarkedStream.mark steps limit)

end RuleSet

end FileSignatures
