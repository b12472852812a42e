import FileSignatures.Proofs.Property.Acceptance

/-!
# Fields that need an argument of their own

Three kinds of groups of properties are accepted for reasons that reading the
template does not show. A count of channels is a decimal, and a frame rate a
quotient of decimals, so both have a value although their keys are numeric. A
field that a resource fills may hold brackets and separators, and so begin a
property of its own; three characters are not enough for that, because a numeric
key has three letters and an equals sign follows.

## Theorems

* `rejection?_channels`, `rejection?_frameRate`: Numeric properties that have a
  value.
* `length_of_rejection?`: A rejected token has at least four characters.
* `length_filter_splitAt_le`: No token is longer than what it is made of.
* `accepts_short_field`: Three characters of a resource are accepted.
-/

namespace FileSignatures

theorem not_control_of_isDigit (c : Char) (h : isDigit c = true) : isControlOrSpace c = false := by
  unfold isDigit at h
  simp only [Bool.and_eq_true, decide_eq_true_eq] at h
  unfold isControlOrSpace
  rw [decide_eq_false_iff_not]
  intro hle
  exact absurd (Char.le_trans h.1 hle) (by decide)

/-- A token in which nothing is to be trimmed is accepted if its property has a
    value. -/
theorem rejection?_of_evaluate (evaluator : Evaluator) (key value : Text) (result : Text × Text)
    (hequals : '=' ∉ key) (hempty : key.isEmpty = false)
    (hkey : Text.trimBy isControlOrSpace key = key)
    (hvalue : Text.trimBy isControlOrSpace value = value)
    (hresult : Property.evaluate evaluator key value = .ok result) :
    Property.rejection? evaluator (key ++ '=' :: value) = none := by
  have hnonempty : key.trimBy isControlOrSpace ≠ [] := by
    rw [hkey]
    exact List.isEmpty_eq_false_iff.1 hempty
  simp only [Property.rejection?, Property.ofToken?_append key value hequals hnonempty, hkey,
    hvalue, hresult]

/-- A count of channels that a rule has read has a value. -/
theorem rejection?_channels (n : Nat) (hlt : n < 2 ^ 63) :
    Property.rejection? .arithmetic (PropertyKey.channels ++ '=' :: Text.ofNat n) = none := by
  have htrimmed := trimBy_eq_self isControlOrSpace (Text.ofNat n)
    (fun c h => not_control_of_isDigit c (isDigit_of_mem_ofNat n c h))
  have hlookup : PropertyKey.lookup? PropertyKey.channels
      = some (PropertyKey.channels, .integer) := by decide +kernel
  -- A natural number in the range of words is an expression for itself.
  have hvalue : Evaluator.arithmetic.integer (Text.ofNat n) = .ok (Int64.ofInt n) :=
    Expression.evaluate_integer_ofNat n hlt
  have hresult : Property.evaluate .arithmetic PropertyKey.channels (Text.ofNat n)
      = .ok (PropertyKey.channels, Text.ofInt (Int64.ofInt n).toInt) := by
    simp only [Property.evaluate, hlookup, hvalue]
  exact rejection?_of_evaluate .arithmetic _ _ _ (by decide +kernel) (by decide +kernel)
    (by decide +kernel) htrimmed hresult

/-- A frame rate that divides by a number other than zero has a value. -/
theorem rejection?_frameRate (dividend divisor : Nat) (hpos : 0 < divisor)
    (hlt : divisor < 2 ^ 53) :
    Property.rejection? .arithmetic
        (PropertyKey.frameRate ++ '=' :: (Text.ofNat dividend ++ '/' :: Text.ofNat divisor))
      = none := by
  -- Digits and a slash, so there is nothing to trim.
  have htrimmed : Text.trimBy isControlOrSpace (Text.ofNat dividend ++ '/' :: Text.ofNat divisor)
      = Text.ofNat dividend ++ '/' :: Text.ofNat divisor := by
    refine trimBy_eq_self isControlOrSpace _ (fun c h => ?_)
    rw [List.mem_append, List.mem_cons] at h
    rcases h with h | rfl | h
    · exact not_control_of_isDigit c (isDigit_of_mem_ofNat dividend c h)
    · decide
    · exact not_control_of_isDigit c (isDigit_of_mem_ofNat divisor c h)
  have hlookup : PropertyKey.lookup? PropertyKey.frameRate
      = some (PropertyKey.frameRate, .float) := by decide +kernel
  rcases Expression.evaluate_float_quotient dividend divisor hpos hlt with ⟨rate, hrate⟩
  have hvalue : Evaluator.arithmetic.float (Text.ofNat dividend ++ '/' :: Text.ofNat divisor)
      = .ok rate := hrate
  have hresult : Property.evaluate .arithmetic PropertyKey.frameRate
        (Text.ofNat dividend ++ '/' :: Text.ofNat divisor)
      = .ok (PropertyKey.frameRate, Float.singleText rate) := by
    simp only [Property.evaluate, hlookup, hvalue]
  exact rejection?_of_evaluate .arithmetic _ _ _ (by decide +kernel) (by decide +kernel)
    (by decide +kernel) htrimmed hresult

/-- A numeric key has at least three characters. -/
theorem length_of_isNumericKey (key : Text) (h : Property.isNumericKey key = true) :
    3 ≤ key.length := by
  obtain ⟨name, kind, hlookup, hkind⟩ : ∃ name kind,
      PropertyKey.lookup? (key.trimBy isControlOrSpace) = some (name, kind) ∧ kind ≠ .text := by
    unfold Property.isNumericKey at h
    split at h
    · exact absurd h Bool.false_ne_true
    · exact absurd h Bool.false_ne_true
    · rename_i name hlookup
      exact ⟨name, .integer, hlookup, by decide⟩
    · rename_i name hlookup
      exact ⟨name, .float, hlookup, by decide⟩
  -- The key that is looked up agrees with the one found up to case.
  have hsame : name.length = (key.trimBy isControlOrSpace).length := by
    have hagrees := List.find?_some hlookup
    simp only [Text.agreesIgnoringCase, decide_eq_true_eq] at hagrees
    have hlength := congrArg List.length hagrees
    rw [List.length_map, List.length_map] at hlength
    exact hlength
  have hname : 3 ≤ name.length := by
    rcases Property.lookup?_numeric _ name kind hlookup hkind with rfl | rfl <;> decide
  have hle := length_trimBy_le isControlOrSpace key
  omega

/-- A rejected token has at least four characters: those of its key, and the equals
    sign. -/
theorem length_of_rejection? (evaluator : Evaluator) (token : Text)
    (h : Property.rejection? evaluator token ≠ none) : 4 ≤ token.length := by
  by_cases hequals : '=' ∈ token
  · -- What stands before the first equals sign is the key.
    rcases List.eq_append_cons_of_mem hequals with ⟨key, value, rfl, hkey⟩
    by_cases hnumeric : Property.isNumericKey key = true
    · have hlength := length_of_isNumericKey key hnumeric
      rw [List.length_append, List.length_cons]
      omega
    · exact absurd (rejection?_of_key evaluator key value hkey (Bool.eq_false_iff.2 hnumeric)) h
  · exact absurd (rejection?_of_no_equals evaluator token hequals) h

/-- Splitting a description drops brackets and adds separators, nothing else. -/
theorem length_filter_splitAt_le (depth : Int) (t : Text) :
    ((Description.splitAt depth t).2.filter fun c => c ≠ ';').length
      ≤ (t.filter fun c => c ≠ ']').length := by
  induction t generalizing depth with
  | nil => exact Nat.le_refl 0
  | cons c rest ih =>
      by_cases hclose : c = ']'
      · -- A closing bracket is dropped, or becomes the separator that is not counted.
        subst hclose
        have hstep := ih (depth - 1)
        rw [List.filter_cons, if_neg (by decide)]
        rcases splitAt_close depth rest with hsplit | ⟨-, hsplit⟩
        · rw [hsplit, List.filter_cons, if_neg (by decide)]
          exact hstep
        · rw [hsplit]
          exact hstep
      · have hkept : (List.filter (fun c => decide (c ≠ ']')) (c :: rest)).length
            = (List.filter (fun c => decide (c ≠ ']')) rest).length + 1 := by
          rw [List.filter_cons, if_pos (by simp only [ne_eq, hclose, not_false_eq_true,
            decide_true]), List.length_cons]
        rw [hkept]
        by_cases hopen : c = '['
        · subst hopen
          exact Nat.le_succ_of_le (ih (depth + 1))
        · -- Any other character is kept inside of brackets, and only there.
          rw [Description.splitAt]
          · have hstep := ih depth
            by_cases hdepth : 0 < depth
            · simp only [hdepth, if_true]
              have hcons := List.length_filter_le (fun c => decide (c ≠ ';')) [c]
              rw [← List.singleton_append, List.filter_append, List.length_append]
              rw [List.length_singleton] at hcons
              omega
            · simp only [hdepth, if_false]
              exact Nat.le_succ_of_le hstep
          · exact hopen
          · exact hclose

/-- A field under another than a numeric key is accepted at the end of a
    description, whatever the resource has put there, if it is no longer than
    three characters. -/
theorem accepts_short_field (evaluator : Evaluator) (key capture : Text)
    (hkey : ∀ c ∈ key, c ≠ '[' ∧ c ≠ ']' ∧ c ≠ ';') (hequals : '=' ∉ key)
    (hnumeric : Property.isNumericKey key = false) (hlength : capture.length ≤ 3) :
    Accepts evaluator 0 [] ('[' :: (key ++ ['=']) ++ (capture ++ [']'])) := by
  have hplain : ∀ c ∈ key ++ ['='], c ≠ '[' ∧ c ≠ ']' ∧ c ≠ ';' := by
    intro c hc
    rw [List.mem_append, List.mem_singleton] at hc
    rcases hc with hc | rfl
    · exact hkey c hc
    · decide
  refine (accepts_open_iff evaluator 0 [] _).2
    (accepts_join evaluator 1 [] _ _ (by omega) hplain ?_)
  -- The first token begins with the key, the others come from the capture alone.
  intro piece hpiece
  rcases pieces_eq_cons ';' (Description.splitAt 1 (capture ++ [']'])).2 with
    ⟨first, more, hpieces⟩
  have hwhole : ';' ∉ key ++ ['='] := fun hmem => (hplain ';' hmem).2.2 rfl
  rw [List.nil_append, pieces_append ';' _ _ first more hwhole hpieces] at hpiece
  rcases List.mem_cons.1 hpiece with rfl | hmem
  · rw [List.append_assoc, List.singleton_append]
    exact rejection?_of_key evaluator key first hequals hnumeric
  · have hbound : piece.length ≤ 3 := by
      have hpiece := length_of_mem_pieces ';' (Description.splitAt 1 (capture ++ [']'])).2 piece
        (hpieces ▸ List.mem_cons_of_mem _ hmem)
      have hsplit := length_filter_splitAt_le 1 (capture ++ [']'])
      have hcapture := List.length_filter_le (fun c => decide (c ≠ ']')) capture
      have hclosing : ([']'].filter fun c => decide (c ≠ ']')).length = 0 := by decide
      rw [List.filter_append, List.length_append, hclosing] at hsplit
      omega
    by_cases hrejected : Property.rejection? evaluator piece = none
    · exact hrejected
    · have hlong := length_of_rejection? evaluator piece hrejected
      omega

end FileSignatures
