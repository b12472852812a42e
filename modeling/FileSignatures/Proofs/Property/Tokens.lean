import FileSignatures.Property.Extraction
import FileSignatures.Proofs.Text.Splitting

/-!
# Rejected tokens

Extraction of properties fails for one reason only: a token names a numeric
property, and the evaluator rejects its value. This module says so of single
tokens first. Which token it is that extraction fails with does not depend on
the properties found so far, so a list of tokens fails with the first one that is
rejected.

Only two of the recognised keys are numeric, so every such fault names one of
them.

## Main definitions

* `Property.rejection?`: Why a token is rejected, if it is.

## Theorems

* `ofToken?_append`: A token is a key and a value, both trimmed.
* `addTokens_eq_error_iff`: A list of tokens fails with its first rejection.
* `ofDescription_eq_error_iff`: So does a description.
* `key_of_evaluate`: Evaluation fails under a numeric key only.
* `key_of_rejection?`: A rejection names a numeric key.
* `key_of_ofDescription`: So does a description that fails.
-/

namespace FileSignatures

namespace Property

/-- Why a token is rejected, if it names a numeric property that the evaluator
    cannot evaluate. -/
def rejection? (evaluator : Evaluator) (token : Text) : Option BadNumber :=
  match ofToken? token with
  | none => none
  | some (key, value) =>
    match evaluate evaluator key value with
    | .ok _ => none
    | .error error => some error

/-- A token is a key and a value, both trimmed. The value may hold more equals signs. -/
theorem ofToken?_append (key value : Text) (hequals : '=' ∉ key)
    (hkey : key.trimBy isControlOrSpace ≠ []) : ofToken? (key ++ '=' :: value)
      = some (key.trimBy isControlOrSpace, value.trimBy isControlOrSpace) := by
  simp only [ofToken?, cut?_append '=' key value hequals, List.isEmpty_eq_false_iff.2 hkey,
    Bool.false_eq_true, if_false]

/-- A list of tokens fails with its first rejection, whatever the map holds. -/
theorem addTokens_eq_error_iff (evaluator : Evaluator) (map : PropertyMap) (tokens : List Text)
    (error : BadNumber) : addTokens evaluator map tokens = .error error ↔
      tokens.findSome? (rejection? evaluator) = some error := by
  induction tokens generalizing map with
  | nil => simp only [addTokens, List.findSome?_nil, reduceCtorEq]
  | cons token rest ih =>
      rw [addTokens, List.findSome?_cons, rejection?]
      cases htoken : ofToken? token with
      | none => exact ih map
      | some pair =>
          rcases pair with ⟨key, value⟩
          simp only
          cases hvalue : evaluate evaluator key value with
          | error other => simp only [Except.error.injEq, Option.some.injEq]
          | ok result =>
              -- The map has grown, which makes no difference to the rest.
              exact ih _

/-- The numeric ones among the recognised keys are two. -/
theorem lookup?_numeric (key name : Text) (kind : PropertyKind)
    (h : PropertyKey.lookup? key = some (name, kind)) (hkind : kind ≠ .text) :
    name = PropertyKey.channels ∨ name = PropertyKey.frameRate := by
  -- The lookup goes through a list, so the entry found is one of those in it.
  have hmem := List.mem_of_find?_eq_some h
  simp only [PropertyKey.known, List.mem_cons, Prod.mk.injEq, List.not_mem_nil, or_false] at hmem
  rcases hmem with h | h | h | h | h | h | h | h | h
  all_goals first
    | exact absurd h.2 hkind
    | exact Or.inl h.1
    | exact Or.inr h.1

/-- Evaluation fails under a numeric key only. -/
theorem key_of_evaluate (evaluator : Evaluator) (key value : Text) (error : BadNumber)
    (h : evaluate evaluator key value = .error error) :
    error.key = PropertyKey.channels ∨ error.key = PropertyKey.frameRate := by
  unfold evaluate at h
  split at h
  -- Unknown keys and texts are kept as they are, and cannot fail.
  · exact absurd h (by simp only [reduceCtorEq, not_false_eq_true])
  · exact absurd h (by simp only [reduceCtorEq, not_false_eq_true])
  · rename_i name hlookup
    have hname := lookup?_numeric key name .integer hlookup (by decide)
    split at h
    · exact absurd h (by simp only [reduceCtorEq, not_false_eq_true])
    · rw [Except.error.injEq] at h
      rw [← h]
      exact hname
  · rename_i name hlookup
    have hname := lookup?_numeric key name .float hlookup (by decide)
    split at h
    · exact absurd h (by simp only [reduceCtorEq, not_false_eq_true])
    · rw [Except.error.injEq] at h
      rw [← h]
      exact hname

/-- A rejection names a numeric key. -/
theorem key_of_rejection? (evaluator : Evaluator) (token : Text) (error : BadNumber)
    (h : rejection? evaluator token = some error) :
    error.key = PropertyKey.channels ∨ error.key = PropertyKey.frameRate := by
  unfold rejection? at h
  split at h
  · exact absurd h (by simp only [reduceCtorEq, not_false_eq_true])
  · rename_i key value _
    split at h
    · exact absurd h (by simp only [reduceCtorEq, not_false_eq_true])
    · rename_i other hevaluate
      rw [Option.some.injEq] at h
      exact key_of_evaluate evaluator key value error (h ▸ hevaluate)

end Property

/-- The tokens of a description: what stands between the separators of its
    property text. -/
def Description.tokens (description : Text) : List Text :=
  Text.pieces ';' (Description.split description).2

/-- A description fails with the first rejection among its tokens. -/
theorem ofDescription_eq_error_iff (evaluator : Evaluator) (description : Text)
    (error : BadNumber) : Extraction.ofDescription evaluator description = .error error ↔
      (Description.tokens description).findSome? (Property.rejection? evaluator) = some error := by
  rw [← Property.addTokens_eq_error_iff evaluator .empty]
  unfold Extraction.ofDescription Description.tokens
  simp only
  cases Property.addTokens evaluator .empty (Text.pieces ';' (Description.split description).2) with
  | error other => simp only [Except.error.injEq]
  | ok map => simp only [reduceCtorEq]

/-- A description that fails does so for a numeric key. -/
theorem key_of_ofDescription (evaluator : Evaluator) (description : Text) (error : BadNumber)
    (h : Extraction.ofDescription evaluator description = .error error) :
    error.key = PropertyKey.channels ∨ error.key = PropertyKey.frameRate := by
  rw [ofDescription_eq_error_iff] at h
  rcases List.exists_of_findSome?_eq_some h with ⟨token, -, hrejection⟩
  exact Property.key_of_rejection? evaluator token error hrejection

end FileSignatures
