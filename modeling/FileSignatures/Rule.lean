import FileSignatures.Offset
import FileSignatures.Operator

/-!
# Rules

A rule says where to read which type of value and how it must compare with an
operand. A signature is a rule together with the rules that depend on it:
continuations, which must hold as well, and extra-info rules, which add text
after a match. Sub-rules have no sub-rules of their own.

## Main definitions

* `Rule`: One line of a database.
* `Rule.readLength`: The count of bytes that a string rule reads.
* `Signature`: A top-level rule with its sub-rules.
* `Signature.length`: How specific a signature is.
* `RuleSet`: The signatures of a database, in its order.
-/

namespace FileSignatures

/-- One line of a database. -/
structure Rule where
  /-- The number of the line, from 1. -/
  line : Nat
  offset : Offset
  type : ValueType
  /-- The bits of a number that are compared. -/
  mask : UInt64
  operator : Operator
  /-- What the value is compared with. It is in upper case where case does not
      count. -/
  operand : Value
  /-- The template of the text that the rule contributes. -/
  description : Text
  /-- The greatest count of bytes to read, for strings without a fixed length. -/
  capture : Option Nat
  /-- How much the rule adds to the length of a signature. -/
  weight : Nat
  deriving DecidableEq

/-- Whether a rule reads a number. -/
def Rule.isNumeric (rule : Rule) : Bool :=
  rule.type.isNumeric

/-- The count of bytes that a string rule reads: the capture where it looks for
    the end of a string itself, and the length of the operand otherwise. -/
def Rule.readLength (rule : Rule) : Nat :=
  match rule.operator, rule.capture with
  | .any, some limit => limit
  | .greater, some limit => limit
  | _, _ => rule.operand.size

/-- A top-level rule with the rules that depend on it, in database order. -/
structure Signature where
  head : Rule
  /-- Rules that must hold as well. -/
  continuations : List Rule
  /-- Rules that add to the description after a match. -/
  extras : List Rule
  deriving DecidableEq

/-- How specific a signature is: the weight of its rule and of all its
    continuations. Extra information does not make it more specific. -/
def Signature.length (signature : Signature) : Nat :=
  signature.continuations.foldl (fun total rule => total + rule.weight) signature.head.weight

/-- The signatures of a database, in its order. -/
structure RuleSet where
  signatures : List Signature
  deriving DecidableEq

/-- How many rules of each kind a database holds. -/
structure RuleCounts where
  topLevel : Nat
  continuation : Nat
  extraInfo : Nat
  deriving DecidableEq

namespace RuleSet

/-- The count of signatures. -/
def size (rules : RuleSet) : Nat :=
  rules.signatures.length

/-- Whether there are no signatures. -/
def isEmpty (rules : RuleSet) : Bool :=
  rules.signatures.isEmpty

/-- How many rules of each kind there are. -/
def counts (rules : RuleSet) : RuleCounts where
  topLevel := rules.signatures.length
  continuation := (rules.signatures.flatMap Signature.continuations).length
  extraInfo := (rules.signatures.flatMap Signature.extras).length

end RuleSet

end FileSignatures
