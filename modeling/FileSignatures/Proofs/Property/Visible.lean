import FileSignatures.Proofs.Database.Line
import FileSignatures.Proofs.Property.Fields
import FileSignatures.Proofs.Property.Stated

/-!
# Blanks in properties

Only the ends of keys and values are trimmed, so a blank or a control character may well
stand inside of one, and a comment is not even trimmed. But extraction never makes one up.
Recognised keys have none, and numbers are written without any, integers as well as rates
(`isVisible_singleText`). What remains are keys and values as they are stated, and the
comment; all of these are parts of the description (`mem_of_mem_entry`).

## Main definitions

* `Text.IsVisible`: A text without blanks and control characters.

## Theorems

* `isVisible_singleText`: A rate is written without blanks.
* `forall_entries_of_recordAll`: What holds of all that is recorded holds of the entries.
* `mem_of_mem_split`: Comment and properties are parts of the description.
* `mem_of_mem_stated`: A blank that is stated stands in the description.
* `mem_of_mem_entry`: So does a blank in a key or a value that is extracted.
-/

namespace FileSignatures

/-- A text without blanks and control characters. -/
def Text.IsVisible (t : Text) : Prop :=
  ∀ c ∈ t, isControlOrSpace c = false

theorem isVisible_of_all (t : Text) (h : t.all (fun c => !isControlOrSpace c) = true) :
    t.IsVisible := by
  intro c hc
  have hvisible := List.all_eq_true.1 h c hc
  rwa [Bool.not_eq_true'] at hvisible

theorem isVisible_append (s t : Text) (hs : s.IsVisible) (ht : t.IsVisible) :
    Text.IsVisible (s ++ t) := by
  intro c hc
  rcases List.mem_append.1 hc with hc | hc
  · exact hs c hc
  · exact ht c hc

theorem isVisible_cons (c : Char) (t : Text) (hc : isControlOrSpace c = false)
    (ht : t.IsVisible) : Text.IsVisible (c :: t) :=
  List.forall_mem_cons.2 ⟨hc, ht⟩

theorem isVisible_nil : Text.IsVisible [] :=
  fun _ hc => absurd hc List.not_mem_nil

theorem isVisible_ofInt (n : Int) : Text.IsVisible (Text.ofInt n) := by
  have hdigits : ∀ m, Text.IsVisible (Text.ofNat m) := fun m c hc =>
    not_control_of_isDigit c (isDigit_of_mem_ofNat m c hc)
  cases n with
  | ofNat m => exact hdigits m
  | negSucc m => exact isVisible_cons '-' _ (by decide) (hdigits (m + 1))

section Rates

theorem isVisible_ofScaled (n : Nat) (scale : Int) :
    Text.IsVisible (Decimal.ofScaled n scale).digits := by
  intro c hc
  have hall := (List.dropWhile_subset _) (List.mem_reverse.1 hc)
  exact not_control_of_isDigit c (isDigit_of_mem_ofNat n c (List.mem_reverse.1 hall))

theorem isVisible_shortestFrom (interval : RealInterval) (leading : Int) (count more : Nat) :
    Text.IsVisible (interval.shortestFrom leading count more).digits := by
  induction more generalizing count with
  | zero => exact isVisible_ofScaled _ _
  | succ more ih =>
      rw [RealInterval.shortestFrom]
      cases interval.nearestOn? (leading - (count - 1 : Nat)) with
      | some n => exact isVisible_ofScaled _ _
      | none => exact ih (count + 1)

theorem isVisible_shortest (interval : RealInterval) (range digits : Nat) :
    Text.IsVisible (interval.shortest range digits).digits :=
  isVisible_shortestFrom interval _ 1 digits

theorem isVisible_replicate (count : Nat) : Text.IsVisible (List.replicate count '0') := by
  intro c hc
  rw [List.eq_of_mem_replicate hc]
  decide

variable (digits : Text) (h : digits.IsVisible)
include h

theorem isVisible_withPoint (places : Int) :
    Text.IsVisible (SingleLayout.withPoint digits places) := by
  unfold SingleLayout.withPoint
  -- All that is written besides the digits are zeros and the point.
  by_cases hplaces : places ≤ 0
  · rw [if_pos hplaces]
    exact isVisible_cons '0' _ (by decide) (isVisible_cons '.' _ (by decide)
      (isVisible_append _ _ (isVisible_replicate _) h))
  · rw [if_neg hplaces]
    refine isVisible_append _ _ (isVisible_append _ _
      (fun c hc => h c (List.mem_of_mem_take hc)) (isVisible_replicate _))
      (isVisible_cons '.' _ (by decide) ?_)
    by_cases hfraction : (digits.drop places.toNat).isEmpty = true
    · rw [if_pos hfraction]
      exact isVisible_cons '0' _ (by decide) isVisible_nil
    · rw [if_neg hfraction]
      exact fun c hc => h c (List.mem_of_mem_drop hc)

theorem isVisible_withExponent (exponent : Int) :
    Text.IsVisible (SingleLayout.withExponent digits exponent) := by
  unfold SingleLayout.withExponent
  refine isVisible_append _ _ (isVisible_append _ _
    (fun c hc => h c (List.mem_of_mem_take hc)) ?_)
    (isVisible_cons 'e' _ (by decide) (isVisible_ofInt exponent))
  by_cases hfraction : (digits.drop 1).isEmpty = true
  · rw [if_pos hfraction]
    exact isVisible_nil
  · rw [if_neg hfraction]
    exact isVisible_cons '.' _ (by decide) fun c hc => h c (List.mem_of_mem_drop hc)

end Rates

/-- A rate is written without blanks, whatever number it is. -/
theorem isVisible_singleText (x : Float) : Text.IsVisible (Float.singleText x) := by
  have hsign : ∀ negative : Bool, Text.IsVisible (if negative then ['-'] else []) := by
    intro negative
    cases negative with
    | false => exact isVisible_nil
    | true => exact isVisible_cons '-' _ (by decide) isVisible_nil
  have hwords : rateLayout.nan.IsVisible ∧ rateLayout.infinity.IsVisible :=
    ⟨isVisible_of_all _ (by decide), isVisible_of_all _ (by decide)⟩
  unfold Float.singleText
  cases FloatFormat.single.decode x.toFloat32.toBits.toNat with
  | nan => exact hwords.1
  | infinite negative => exact isVisible_append _ _ (hsign negative) hwords.2
  | finite negative significand exponent =>
      refine isVisible_append _ _ (hsign negative) ?_
      -- Zero is laid out by itself; all else has digits and a point or an exponent.
      by_cases hzero : significand = 0
      · rw [if_pos hzero]
        exact isVisible_withPoint ['0'] (isVisible_replicate 1) 1
      · rw [if_neg hzero, SingleLayout.decimal]
        have hdigits := isVisible_shortest
          (SingleLayout.roundingInterval significand exponent) 46 10
        split
        · exact isVisible_withPoint _ hdigits _
        · exact isVisible_withExponent _ hdigits _

/-- An entry after an insertion is the new one or one of the old ones. -/
theorem eq_or_mem_of_mem_insertEntry (key value : Text) (entries : List (Text × Text))
    (e : Text × Text) (h : e ∈ PropertyMap.insertEntry key value entries) :
    e = (key, value) ∨ e ∈ entries := by
  induction entries with
  | nil => exact Or.inl (List.mem_singleton.1 h)
  | cons entry rest ih =>
      rw [PropertyMap.insertEntry] at h
      -- It is put in front, in the place of an entry with its key, or further behind.
      split at h
      · exact List.mem_cons.1 h
      · split at h
        · exact (List.mem_cons.1 h).imp_right (List.mem_cons_of_mem _)
        · rcases List.mem_cons.1 h with rfl | h
          · exact Or.inr List.mem_cons_self
          · exact (ih h).imp_right (List.mem_cons_of_mem _)

/-- What holds of the entries of a map and of all that is recorded holds of the entries
    after that, by induction on the statements. -/
theorem forall_entries_of_recordAll (evaluator : Evaluator) (P : Text × Text → Prop)
    (map final : PropertyMap) (stated : List (Text × Text)) (hmap : ∀ e ∈ map.entries, P e)
    (hstated : ∀ property ∈ stated, ∀ result,
      Property.reading evaluator property.1 property.2 = .ok result → P (property.1, result))
    (h : Property.recordAll evaluator map stated = .ok final) : ∀ e ∈ final.entries, P e := by
  induction stated generalizing map with
  | nil =>
      rw [← Except.ok.inj h]
      exact hmap
  | cons property rest ih =>
      obtain ⟨result, hreading, hrest⟩ :=
        Property.recordAll_cons_eq_ok evaluator map final property rest h
      refine ih _ (fun e he => ?_) (fun other hother => hstated other
        (List.mem_cons_of_mem _ hother)) hrest
      rcases eq_or_mem_of_mem_insertEntry _ _ _ e he with rfl | he
      · exact hstated property List.mem_cons_self result hreading
      · exact hmap e he

/-- A blank in a value that is reported stands in the value that is stated. -/
theorem mem_of_mem_reading (evaluator : Evaluator) (name value result : Text) (c : Char)
    (hblank : isControlOrSpace c = true)
    (h : Property.reading evaluator name value = .ok result) (hc : c ∈ result) : c ∈ value := by
  -- Numbers are written without blanks.
  have hnumber : ∀ t : Text, t.IsVisible → result = t → c ∈ value := by
    intro t ht hresult
    have hvisible := ht c (hresult ▸ hc)
    exact absurd (hblank.symm.trans hvisible) (by decide)
  unfold Property.reading at h
  split at h
  · cases hvalue : evaluator.integer value with
    | error reason =>
        rw [hvalue] at h
        exact absurd h (by simp only [Except.map, reduceCtorEq, not_false_eq_true])
    | ok n =>
        rw [hvalue] at h
        exact hnumber _ (isVisible_ofInt n.toInt) (Except.ok.inj h).symm
  · split at h
    · cases hvalue : evaluator.float value with
      | error reason =>
          rw [hvalue] at h
          exact absurd h (by simp only [Except.map, reduceCtorEq, not_false_eq_true])
      | ok x =>
          rw [hvalue] at h
          exact hnumber _ (isVisible_singleText x) (Except.ok.inj h).symm
    · rw [Except.ok.inj h]
      exact hc

namespace Description

/-- The comment of a text is a part of it, and the properties are but for separators. -/
theorem mem_of_mem_splitAt (depth : Int) (t : Text) (c : Char) :
    (c ∈ (splitAt depth t).1 → c ∈ t) ∧ (c ∈ (splitAt depth t).2 → c = ';' ∨ c ∈ t) := by
  induction t generalizing depth with
  | nil => exact ⟨fun hc => hc, fun hc => absurd hc List.not_mem_nil⟩
  | cons d rest ih =>
      have hmore : ∀ depth, (c ∈ (splitAt depth rest).1 → c ∈ d :: rest)
          ∧ (c ∈ (splitAt depth rest).2 → c = ';' ∨ c ∈ d :: rest) := fun depth =>
        ⟨fun hc => List.mem_cons_of_mem _ ((ih depth).1 hc),
          fun hc => ((ih depth).2 hc).imp_right (List.mem_cons_of_mem _)⟩
      -- Brackets change the level, every other character goes to one side or the other.
      by_cases hopen : d = '['
      · rw [hopen, splitAt_open]
        exact hopen ▸ hmore (depth + 1)
      · by_cases hclose : d = ']'
        · rw [hclose, splitAt_closing]
          refine ⟨(hclose ▸ hmore (depth - 1)).1, fun hc => ?_⟩
          simp only at hc
          split at hc
          · rcases List.mem_cons.1 hc with rfl | hc
            · exact Or.inl rfl
            · exact (hclose ▸ hmore (depth - 1)).2 hc
          · exact (hclose ▸ hmore (depth - 1)).2 hc
        · rw [splitAt_other depth d rest hopen hclose]
          split
          · refine ⟨(hmore depth).1, fun hc => ?_⟩
            rcases List.mem_cons.1 hc with rfl | hc
            · exact Or.inr List.mem_cons_self
            · exact (hmore depth).2 hc
          · refine ⟨fun hc => ?_, (hmore depth).2⟩
            rcases List.mem_cons.1 hc with rfl | hc
            · exact List.mem_cons_self
            · exact (hmore depth).1 hc

/-- The comment of a description is a part of it, and the properties are but for
    separators. -/
theorem mem_of_mem_split (description : Text) (c : Char) :
    (c ∈ (split description).1 → c ∈ description)
    ∧ (c ∈ (split description).2 → c = ';' ∨ c ∈ description) := by
  unfold split
  split
  · exact mem_of_mem_splitAt 0 description c
  · exact ⟨fun hc => hc, fun hc => absurd hc List.not_mem_nil⟩

end Description

theorem isVisible_known : ∀ entry ∈ PropertyKey.known, Text.IsVisible entry.1 := by
  have hall : ∀ entry ∈ PropertyKey.known,
      entry.1.all (fun c => !isControlOrSpace c) = true := by decide +kernel
  exact fun entry hentry => isVisible_of_all _ (hall entry hentry)

/-- A blank in a name that a token states, or in its value, stands in the token. -/
theorem mem_of_mem_stated? (token name value : Text) (c : Char)
    (hblank : isControlOrSpace c = true) (h : Property.stated? token = some (name, value)) :
    (c ∈ name → c ∈ token) ∧ (c ∈ value → c ∈ token) := by
  by_cases hequals : '=' ∈ token
  · obtain ⟨key, rest, rfl, hkey⟩ := List.eq_append_cons_of_mem hequals
    rw [Property.stated?_append key rest hkey] at h
    split at h
    · exact absurd h (by simp only [reduceCtorEq, not_false_eq_true])
    · rw [Option.some.injEq, Prod.mk.injEq] at h
      refine ⟨fun hc => ?_, fun hc => ?_⟩
      · rw [← h.1] at hc
        unfold PropertyKey.reported at hc
        split at hc
        · -- A recognised name has no blanks.
          rename_i found kind hlookup
          have hvisible := isVisible_known _ (List.mem_of_find?_eq_some hlookup) c hc
          exact absurd (hblank.symm.trans hvisible) (by decide)
        · exact List.mem_append_left _ (mem_of_mem_trimBy _ c key hc)
      · rw [← h.2] at hc
        exact List.mem_append_right _ (List.mem_cons_of_mem _ (mem_of_mem_trimBy _ c rest hc))
  · rw [Property.stated?_of_no_equals token hequals] at h
    exact absurd h (by simp only [reduceCtorEq, not_false_eq_true])

/-- A blank that is stated stands in the description. -/
theorem mem_of_mem_stated (description name value : Text) (c : Char)
    (hblank : isControlOrSpace c = true)
    (h : (name, value) ∈ Description.stated description) :
    (c ∈ name → c ∈ description) ∧ (c ∈ value → c ∈ description) := by
  obtain ⟨token, htoken, hstated⟩ := List.mem_filterMap.1 h
  obtain ⟨hname, hvalue⟩ := mem_of_mem_stated? token name value c hblank hstated
  -- What is no separator has not been added by the splitting.
  have hpart : c ∈ token → c ∈ description := by
    intro hc
    rcases (Description.mem_of_mem_split description c).2
      (mem_of_mem_pieces ';' c _ token htoken hc) with rfl | hmem
    · exact absurd hblank (by decide)
    · exact hmem
  exact ⟨fun hc => hpart (hname hc), fun hc => hpart (hvalue hc)⟩

/-- A blank in a key or a value that is extracted stands in the description. -/
theorem mem_of_mem_entry (evaluator : Evaluator) (description : Text)
    (extraction : Extraction) (c : Char) (hblank : isControlOrSpace c = true)
    (h : Extraction.ofDescription evaluator description = .ok extraction) :
    ∀ entry ∈ extraction.properties.entries, (c ∈ entry.1 → c ∈ description)
      ∧ (c ∈ entry.2 → c ∈ description) := by
  rw [ofDescription_eq_recordAll] at h
  obtain ⟨map, hmap, hextraction⟩ := except_bind_eq_ok _ _ _ h
  rw [← Except.ok.inj hextraction]
  intro entry hentry
  -- The entry is the comment, or it has been recorded from what is stated.
  rcases eq_or_mem_of_mem_insertEntry _ _ _ entry hentry with rfl | hentry
  · have hcomment : PropertyKey.comment.IsVisible := isVisible_of_all _ (by decide)
    refine ⟨fun hc => absurd (hblank.symm.trans (hcomment c hc)) (by decide), ?_⟩
    exact (Description.mem_of_mem_split description c).1
  · refine forall_entries_of_recordAll evaluator
      (fun e => (c ∈ e.1 → c ∈ description) ∧ (c ∈ e.2 → c ∈ description)) .empty map _
      (fun e he => absurd he List.not_mem_nil) ?_ hmap entry hentry
    intro property hproperty result hreading
    obtain ⟨hname, hvalue⟩ :=
      mem_of_mem_stated description property.1 property.2 c hblank hproperty
    exact ⟨hname, fun hc =>
      hvalue (mem_of_mem_reading evaluator _ _ result c hblank hreading hc)⟩

end FileSignatures
