import FileSignatures.Operator
import FileSignatures.Property.Extraction

/-!
# Faults

What can go wrong while a resource is read and identified.

## Main definitions

* `Fault`: The kinds of faults.
* `Fault.message`: Their wording.
-/

namespace FileSignatures

/-- What can go wrong while a resource is read and identified. -/
inductive Fault where
  /-- Fewer bytes are left than a read requires. -/
  | endOfData (needed available : Nat)
  /-- The resource itself failed. -/
  | io (reason : Text)
  /-- A comparison that has no meaning for a type. -/
  | operatorMismatch (line : Nat) (operator : Operator) (type : ValueType)
  /-- A numeric property that cannot be evaluated. -/
  | badNumber (error : BadNumber)
  deriving DecidableEq

/-- The wording of a fault. -/
def Fault.message : Fault → Text
  | endOfData needed available =>
    "end of data: needed ".toList ++ Text.ofNat needed ++ " bytes, ".toList
      ++ Text.ofNat available ++ " available".toList
  | io reason => "I/O error: ".toList ++ reason
  | operatorMismatch line operator type =>
    "operator '".toList ++ operator.symbol :: "' cannot be applied to ".toList ++ type.keyword
      ++ " (rule at line ".toList ++ Text.ofNat line ++ [')']
  | badNumber error => error.message

end FileSignatures
