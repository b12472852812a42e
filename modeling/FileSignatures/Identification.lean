import FileSignatures.Property.Key
import FileSignatures.Property.Map

/-!
# Identifications

The result of identifying a resource.

## Main definitions

* `Identification`: Description, comment, properties and the winning line.
* `Identification.unidentified`: The result if nothing matches.
-/

namespace FileSignatures

/-- The result of identifying a resource. -/
structure Identification where
  /-- Whether any signature matched. -/
  identified : Bool
  /-- The description of the winner with all extra information. -/
  description : Text
  /-- The part of the description outside of brackets. -/
  comment : Text
  properties : PropertyMap
  /-- The database line of the winner. -/
  matchedLine : Option Nat

namespace Identification

/-- The result for a resource that no signature matches. -/
def unidentified : Identification where
  identified := false
  description := []
  comment := []
  properties := .empty
  matchedLine := none

/-- The value of a property. -/
def property? (result : Identification) (key : Text) : Option Text :=
  result.properties.get? key

/-- The media type. -/
def mime? (result : Identification) : Option Text :=
  result.property? PropertyKey.mime

/-- The title. -/
def title? (result : Identification) : Option Text :=
  result.property? PropertyKey.title

/-- The comment, as it stands among the properties. -/
def commentProperty? (result : Identification) : Option Text :=
  result.property? PropertyKey.comment

end Identification

end FileSignatures
