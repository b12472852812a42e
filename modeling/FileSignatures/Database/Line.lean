import FileSignatures.Escape
import FileSignatures.Rule
import FileSignatures.Template.Capture

/-!
# Rule lines

A rule line has at least three fields, separated by runs of tabs: offset, type
and comparison, and as a rule a description. The first character of the offset
tells top-level rules from the two kinds of sub-rules.

## Main definitions

* `LineKind`: What a rule line is to the lines around it.
* `LineError`: What can be wrong with a line.
* `Database.fields`: The fields of a line.
* `Database.typeOf`, `Database.comparisonOf`: What the fields denote.
* `Database.ruleOf`: The rule that a line denotes.
-/

namespace FileSignatures

/-- What a rule line is to the lines around it. -/
inductive LineKind where
  | topLevel
  | continuation
  | extraInfo
  deriving DecidableEq, Repr

/-- What can be wrong with a line of a database. -/
inductive LineError where
  | badHeader (expected : Text)
  | missingHeader (expected : Text)
  | emptyOffset
  | tooFewFields (count : Nat)
  | badOffset (error : Offset.SyntaxError)
  | unknownType (keyword : Text)
  | maskOnString (type : ValueType)
  | badMask (text : Text)
  | emptyComparison
  | badNumber (text : Text)
  | missingCharacter
  | badCapture (error : Template.CaptureError)
  | orphan
  deriving DecidableEq

/-- The wording of an error. -/
def LineError.message : LineError → Text
  | badHeader expected => "invalid header, expected ".toList ++ expected.quoted
  | missingHeader expected => "missing header line ".toList ++ expected.quoted
  | emptyOffset => "empty offset field".toList
  | tooFewFields count =>
    "invalid token count ".toList ++ Text.ofNat count ++ " (expected at least 3)".toList
  | badOffset error => error.message
  | unknownType keyword => "unknown type ".toList ++ keyword.quoted
  | maskOnString type => "& mask is not allowed on ".toList ++ type.keyword ++ " types".toList
  | badMask text => "invalid mask ".toList ++ text.quoted
  | emptyComparison => "empty comparison field".toList
  | badNumber text => "invalid numeric value ".toList ++ text.quoted
  | missingCharacter => "'>' needs a character to compare against".toList
  | badCapture error => error.message
  | orphan => "sub-rule before any top-level rule".toList

/-- A faulty line of a database and what is wrong with it. -/
structure FormatError where
  line : Nat
  cause : LineError
  deriving DecidableEq

/-- The wording of an error. -/
def FormatError.message (error : FormatError) : Text :=
  "invalid magic database near line ".toList ++ Text.ofNat error.line ++ ": ".toList
    ++ error.cause.message

namespace Database

/-- The fields of a rule line: what stands between runs of tabs. The offset
    must come first, so the line may not begin with a tab. -/
def fields (line : Text) : Except LineError (List Text) :=
  if line.head? = some '\t' then .error .emptyOffset
  else
    let parts := (Text.pieces '\t' line).filter fun part => !part.isEmpty
    if parts.length < 3 then .error (.tooFewFields parts.length) else .ok parts

/-- The kind of a line, and its offset without the character that marks it. -/
def kindOf : Text → LineKind × Text
  | '&' :: offset => (.continuation, offset)
  | '>' :: offset => (.extraInfo, offset)
  | offset => (.topLevel, offset)

/-- The type that a keyword names. -/
def keywordType (keyword : Text) : Except LineError ValueType :=
  match ValueType.ofKeyword? keyword with
  | some type => .ok type
  | none => .error (.unknownType keyword)

/-- The type that a field denotes, and the mask after an ampersand, which only
    numbers have. -/
def typeOf (token : Text) : Except LineError (ValueType × UInt64) :=
  match Text.cut? '&' token with
  | none => (keywordType token).map fun type => (type, Value.fullMask)
  | some (keyword, mask) => do
    let type ← keywordType keyword
    if type.isNumeric then
      match Literal.word? mask with
      | some word => .ok (type, word.toUInt64)
      | none => .error (.badMask mask)
    else .error (.maskOnString type)

/-- What a rule compares with: the operator, the operand, and how much the
    operand adds to the length of a signature. -/
structure Comparison where
  operator : Operator
  operand : Value
  weight : Nat
  deriving DecidableEq

/-- The number that an operand denotes, escapes in it being decoded first. -/
def numberOf (text : Text) : Except LineError Int64 :=
  match Literal.word? (Text.ofLatin1 (unescape text)) with
  | some n => .ok n
  | none => .error (.badNumber text)

/-- The comparison that a field of a numeric rule denotes. Without an operator
    in front it is equality. -/
def numericComparisonOf : Text → Except LineError Comparison
  | [] => .error .emptyComparison
  | c :: rest =>
    match (Operator.ofSymbol? c).filter (· ≠ .any) with
    | some operator => (numberOf rest).map fun n => ⟨operator, .number n, 0⟩
    | none => (numberOf (c :: rest)).map fun n => ⟨.equal, .number n, 0⟩

/-- The comparison that a field of a string rule denotes. Strings know only two
    operators; what would be another one elsewhere belongs to the string. Of a
    string after `>` only the first byte is kept. -/
def stringComparisonOf (type : ValueType) : Text → Except LineError Comparison
  | [] => .error .emptyComparison
  | '=' :: rest =>
    let content := type.foldCase (unescape rest)
    .ok ⟨.equal, .bytes content, content.length⟩
  | '>' :: rest =>
    match type.foldCase (unescape rest) with
    | [] => .error .missingCharacter
    | first :: _ => .ok ⟨.greater, .bytes [first], 1⟩
  | token =>
    let content := type.foldCase (unescape token)
    .ok ⟨.equal, .bytes content, content.length⟩

/-- The comparison that a field denotes. A single `x` accepts every value. -/
def comparisonOf (type : ValueType) (token : Text) : Except LineError Comparison :=
  if token = ['x'] then
    .ok ⟨.any, Value.placeholder type Template.defaultCapture, 0⟩
  else if type.isNumeric then numericComparisonOf token
  else stringComparisonOf type token

/-- The count of bytes to capture, for the strings whose length the operand
    does not fix. -/
def captureOf (type : ValueType) (operator : Operator) (description : Text) :
    Except LineError (Option Nat) :=
  if !type.isNumeric && (operator = .any || operator = .greater) then
    match Template.captureLength description with
    | .ok limit => .ok (some limit)
    | .error error => .error (.badCapture error)
  else .ok none

/-- The rule that four fields denote. Of several faults the leftmost counts. -/
def ruleOfFields (line : Nat) (offset type comparison description : Text) :
    Except LineError Rule := do
  let offset ← match Offset.ofText? offset with
    | .ok offset => .ok offset
    | .error error => .error (.badOffset error)
  let (type, mask) ← typeOf type
  let comparison ← comparisonOf type comparison
  let capture ← captureOf type comparison.operator description
  .ok {
    line, offset, type, mask, description, capture
    operator := comparison.operator
    operand := comparison.operand
    weight := type.weight + comparison.weight }

/-- The rule that a line denotes, and its kind. Fields after the description do
    not count. -/
def ruleOf (number : Nat) (line : Text) : Except LineError (LineKind × Rule) := do
  match ← fields line with
  | offset :: type :: comparison :: more =>
    let (kind, offset) := kindOf offset
    let rule ← ruleOfFields number offset type comparison (more.headD [])
    .ok (kind, rule)
  | few => .error (.tooFewFields few.length)

end Database

end FileSignatures
