import FileSignatures.Proofs.Floating.Rates
import FileSignatures.Proofs.Property.Groups
import FileSignatures.Proofs.Property.Reported
import Mathlib.Data.List.DropRight

/-!
# What a description states

The tokens of a description state properties: each gives a value to a name, unless it has
no equals sign or nothing before it. What is extracted depends on these statements alone.
They are taken one after the other (`addTokens_eq_recordAll`), and the first one with a
value that the evaluator rejects decides that there is no extraction. Otherwise the last
statement about a name counts, and the comment is set after all of them.

A name is a recognised key in its one spelling, or a key that is not recognised as it is
written. Separators, brackets and equals signs never get into a key, and blanks around it
are trimmed, so all keys of a map are clean (`isClean_of_stated`).

## Main definitions

* `Property.stated?`: What a token states.
* `Property.reading`: The reported value of a name.
* `Property.Shows`: How the value of a name is shown.
* `Property.recordAll`: A map after several statements.
* `Property.Rejects`: The evaluator rejects the value of a name.
* `Property.refusal?`: The error about a statement.
* `Description.stated`: What the tokens of a description state.
* `PropertyMap.keys`: The keys of a map.
* `Property.Reports`: A map reports the last statement about every name, and the comment.
* `PropertyKey.IsClean`: How the keys of a map are spelled.

## Theorems

* `trimBy_trimBy`: What has been trimmed is trimmed.
* `evaluate_eq_reading`: A key is evaluated under the name that it is reported under.
* `reading_eq_ok_iff`: What is reported is what is to be shown.
* `addTokens_eq_recordAll`: Tokens add what they state.
* `recordAll_eq_error_iff`: The first statement that is rejected decides.
* `reports_of_recordAll`: Otherwise the last statement about a name counts.
* `extraction_of_stated`: What is extracted from a description, and when nothing is.
-/

namespace FileSignatures

/-- What has been trimmed is trimmed. Trimming the end leaves the beginning as it is. -/
theorem trimBy_trimBy (p : Char → Bool) (t : Text) :
    (t.trimBy p).trimBy p = t.trimBy p := by
  have hend : ∀ s : Text, Text.trimEndBy p s = s.rdropWhile p := fun _ => rfl
  unfold Text.trimBy
  rw [hend, hend]
  -- A prefix that is not empty begins like the text, so there is nothing more to trim.
  have hbegin : ((t.dropWhile p).rdropWhile p).dropWhile p = (t.dropWhile p).rdropWhile p := by
    obtain ⟨after, hafter⟩ := List.rdropWhile_prefix p (t.dropWhile p)
    cases htrimmed : (t.dropWhile p).rdropWhile p with
    | nil => rfl
    | cons c rest =>
        have hhead := List.head?_dropWhile_not p t
        rw [← hafter, htrimmed] at hhead
        exact List.dropWhile_cons_of_neg (Bool.eq_false_iff.1 hhead)
  rw [hbegin, List.rdropWhile_idempotent]

/-- The keys of a map. -/
def PropertyMap.keys (map : PropertyMap) : List Text :=
  map.entries.map Prod.fst

namespace PropertyMap

theorem mem_keys_iff (map : PropertyMap) (key : Text) :
    key ∈ map.keys ↔ map.get? key ≠ none := by
  unfold keys get?
  induction map.entries with
  | nil => simp only [List.map_nil, List.not_mem_nil, lookupEntry, ne_eq, not_true_eq_false]
  | cons entry rest ih =>
      rw [List.map_cons, List.mem_cons, lookupEntry, ih]
      by_cases hkey : key = entry.1
      · simp only [hkey, true_or, if_true, ne_eq, reduceCtorEq, not_false_eq_true]
      · simp only [hkey, false_or, if_false]

theorem mem_keys_insert_iff (map : PropertyMap) (key value other : Text) :
    other ∈ (map.insert key value).keys ↔ other = key ∨ other ∈ map.keys := by
  rw [mem_keys_iff, mem_keys_iff, get?_insert]
  by_cases hkey : other = key
  · simp only [hkey, if_true, ne_eq, reduceCtorEq, not_false_eq_true, true_or]
  · simp only [hkey, if_false, false_or]

end PropertyMap

namespace Property

open PropertyKey

/-- What a token states: a value for the name that its key is reported under. Without an
    equals sign or with an empty key it states nothing. -/
def stated? (token : Text) : Option (Text × Text) :=
  let key : Text := token.takeWhile (· ≠ '=')
  let value : Text := (token.dropWhile (· ≠ '=')).tail
  if '=' ∈ token ∧ key.trimBy isControlOrSpace ≠ [] then
    some (reported key, value.trimBy isControlOrSpace)
  else none

/-- The reported value of a name: the value as it is, or what the evaluator makes of it if
    the name is a numeric one. -/
def reading (evaluator : Evaluator) (name value : Text) : Except ExpressionError Text :=
  if name = channels then (evaluator.integer value).map fun n => Text.ofInt n.toInt
  else if name = frameRate then (evaluator.float value).map Float.singleText
  else .ok value

/-- How the value of a name is shown: as it is, or if the name is a numeric one as the text
    of what the evaluator makes of it, an integer or a number rounded to single precision. -/
def Shows (evaluator : Evaluator) (name value result : Text) : Prop :=
  if name = channels then ∃ n, evaluator.integer value = .ok n ∧ result = Text.ofInt n.toInt
  else if name = frameRate then
    ∃ rate, evaluator.float value = .ok rate ∧ ShowsRate rate.toFloat32.toModel.unpack result
  else result = value

theorem reading_eq_ok_iff (evaluator : Evaluator) (name value result : Text) :
    reading evaluator name value = .ok result ↔ Shows evaluator name value result := by
  unfold reading Shows
  -- Two properties are numeric, with an evaluator and a rendering each.
  by_cases hchannels : name = channels
  · rw [if_pos hchannels, if_pos hchannels]
    cases evaluator.integer value with
    | error reason => simp only [Except.map, reduceCtorEq, false_and, exists_false]
    | ok n => simp only [Except.map, Except.ok.injEq, exists_eq_left', eq_comm]
  rw [if_neg hchannels, if_neg hchannels]
  by_cases hframeRate : name = frameRate
  · rw [if_pos hframeRate, if_pos hframeRate]
    cases evaluator.float value with
    | error reason => simp only [Except.map, reduceCtorEq, false_and, exists_false]
    | ok rate =>
        simp only [Except.map, Except.ok.injEq, exists_eq_left', showsRate_iff]
        exact eq_comm
  · rw [if_neg hframeRate, if_neg hframeRate, Except.ok.injEq, eq_comm]

/-- A map after several statements, of which the first one that is rejected decides. -/
def recordAll (evaluator : Evaluator) (map : PropertyMap) :
    List (Text × Text) → Except BadNumber PropertyMap
  | [] => .ok map
  | (name, value) :: rest =>
    match reading evaluator name value with
    | .error reason => .error ⟨name, value, reason⟩
    | .ok result => recordAll evaluator (map.insert name result) rest

/-- The key of a token is what stands before its first equals sign. -/
theorem stated?_append (key value : Text) (hequals : '=' ∉ key) :
    stated? (key ++ '=' :: value) = if key.trimBy isControlOrSpace = [] then none
      else some (reported key, value.trimBy isControlOrSpace) := by
  have hkey : ∀ c ∈ key, decide (c ≠ '=') = true := fun c hc =>
    decide_eq_true fun heq => hequals (heq ▸ hc)
  have hmem : '=' ∈ key ++ '=' :: value := List.mem_append_right key List.mem_cons_self
  unfold stated?
  rw [List.takeWhile_append_of_pos hkey, List.dropWhile_append_of_pos hkey,
    List.takeWhile_cons_of_neg (by decide), List.dropWhile_cons_of_neg (by decide),
    List.append_nil, List.tail_cons]
  simp only [hmem, true_and, ne_eq, ite_not]

theorem stated?_of_no_equals (token : Text) (h : '=' ∉ token) : stated? token = none := by
  simp only [stated?, h, false_and, if_false]

/-- A key is evaluated under the name that it is reported under, and only the names of
    numeric properties make a difference. -/
theorem evaluate_eq_reading (evaluator : Evaluator) (key value : Text) :
    evaluate evaluator (key.trimBy isControlOrSpace) value
      = match reading evaluator (reported key) value with
        | .error reason => .error ⟨reported key, value, reason⟩
        | .ok result => .ok (reported key, result) := by
  have htable : ∀ entry ∈ known, (entry.1 = channels ↔ entry.2 = .integer)
      ∧ (entry.1 = frameRate ↔ entry.2 = .float) := by decide
  unfold evaluate reading reported
  cases hlookup : lookup? (key.trimBy isControlOrSpace) with
  | none =>
      -- A numeric key is recognised as one.
      have hchannels : lookup? channels ≠ none := by decide +kernel
      have hframeRate : lookup? frameRate ≠ none := by decide +kernel
      simp only
      rw [if_neg, if_neg]
      · exact fun heq => hframeRate (heq ▸ hlookup)
      · exact fun heq => hchannels (heq ▸ hlookup)
  | some entry =>
      rcases entry with ⟨name, kind⟩
      obtain ⟨hinteger, hfloat⟩ := htable _ (List.mem_of_find?_eq_some hlookup)
      simp only at hinteger hfloat ⊢
      cases kind with
      | text =>
          simp only [hinteger, hfloat, reduceCtorEq, if_false]
      | integer =>
          simp only [hinteger, if_true]
          cases evaluator.integer value <;> rfl
      | float =>
          simp only [hinteger, hfloat, reduceCtorEq, if_false, if_true]
          cases evaluator.float value <;> rfl

/-- Tokens add what they state. -/
theorem addTokens_eq_recordAll (evaluator : Evaluator) (map : PropertyMap) (tokens : List Text) :
    addTokens evaluator map tokens = recordAll evaluator map (tokens.filterMap stated?) := by
  induction tokens generalizing map with
  | nil => rfl
  | cons token rest ih =>
      rw [addTokens]
      -- A token without an equals sign or with an empty key states nothing.
      by_cases hequals : '=' ∈ token
      · obtain ⟨key, value, rfl, hkey⟩ := List.eq_append_cons_of_mem hequals
        by_cases hempty : Text.trimBy isControlOrSpace key = []
        · have hnone : ofToken? (key ++ '=' :: value) = none := by
            simp only [ofToken?, cut?_append '=' key value hkey, hempty, List.isEmpty_nil, if_true]
          rw [hnone, List.filterMap_cons_none (by rw [stated?_append key value hkey,
            if_pos hempty])]
          exact ih map
        · rw [ofToken?_append key value hkey hempty, List.filterMap_cons_some
            (by rw [stated?_append key value hkey, if_neg hempty]), recordAll]
          simp only [evaluate_eq_reading]
          cases reading evaluator (reported key) (Text.trimBy isControlOrSpace value) with
          | error reason => rfl
          | ok result => exact ih _
      · have hnone : ofToken? token = none := by
          simp only [ofToken?, cut?_eq_none '=' token hequals]
        rw [hnone, List.filterMap_cons_none (stated?_of_no_equals token hequals)]
        exact ih map

/-- The evaluator rejects the value of a numeric property, and why. -/
def Rejects (evaluator : Evaluator) (name value : Text) (reason : ExpressionError) : Prop :=
  (name = channels ∧ evaluator.integer value = .error reason)
    ∨ (name = frameRate ∧ evaluator.float value = .error reason)

theorem reading_eq_error_iff (evaluator : Evaluator) (name value : Text)
    (reason : ExpressionError) :
    reading evaluator name value = .error reason ↔ Rejects evaluator name value reason := by
  have hdistinct : channels ≠ frameRate := by decide
  unfold reading Rejects
  -- Only a numeric property can be rejected, and its evaluator gives the reason.
  by_cases hchannels : name = channels
  · have hframeRate : name ≠ frameRate := fun heq => hdistinct (hchannels.symm.trans heq)
    simp only [hchannels, if_true, true_and, hdistinct, false_and, or_false]
    cases evaluator.integer value <;> simp only [Except.map, Except.error.injEq, reduceCtorEq]
  · by_cases hframeRate : name = frameRate
    · simp only [hframeRate, hdistinct.symm, if_false, if_true, false_and, true_and, false_or]
      cases evaluator.float value <;> simp only [Except.map, Except.error.injEq, reduceCtorEq]
    · simp only [hchannels, hframeRate, if_false, false_and, or_false, reduceCtorEq]

/-- Why a statement is refused, if it is. -/
def refusal? (evaluator : Evaluator) (property : Text × Text) : Option BadNumber :=
  match reading evaluator property.1 property.2 with
  | .error reason => some ⟨property.1, property.2, reason⟩
  | .ok _ => none

/-- The first statement that is refused decides, whatever the map holds. -/
theorem recordAll_eq_error_iff (evaluator : Evaluator) (map : PropertyMap)
    (stated : List (Text × Text)) (error : BadNumber) :
    recordAll evaluator map stated = .error error ↔
      stated.findSome? (refusal? evaluator) = some error := by
  induction stated generalizing map with
  | nil => simp only [recordAll, List.findSome?_nil, reduceCtorEq]
  | cons property rest ih =>
      rw [recordAll, List.findSome?_cons, refusal?]
      cases reading evaluator property.1 property.2 with
      | error reason => simp only [Except.error.injEq, Option.some.injEq]
      | ok result => exact ih _

theorem refusal?_eq_some_iff (evaluator : Evaluator) (property : Text × Text)
    (error : BadNumber) : refusal? evaluator property = some error ↔
      property = (error.key, error.expression)
        ∧ Rejects evaluator error.key error.expression error.reason := by
  rw [← reading_eq_error_iff]
  unfold refusal?
  constructor
  · intro h
    split at h
    · rename_i reason hreading
      rw [← Option.some.inj h]
      exact ⟨rfl, hreading⟩
    · exact absurd h (by simp only [reduceCtorEq, not_false_eq_true])
  · rintro ⟨rfl, hreading⟩
    simp only [hreading]

theorem refusal?_eq_none_iff (evaluator : Evaluator) (property : Text × Text) :
    refusal? evaluator property = none ↔
      ∀ reason, ¬ Rejects evaluator property.1 property.2 reason := by
  simp only [← reading_eq_error_iff]
  unfold refusal?
  cases reading evaluator property.1 property.2 with
  | error reason =>
      simp only [reduceCtorEq, Except.error.injEq, false_iff, not_forall, not_not, exists_eq']
  | ok result => simp only [reduceCtorEq, not_false_eq_true, implies_true]

/-- A statement that is recorded has a value, and the others follow. -/
theorem recordAll_cons_eq_ok (evaluator : Evaluator) (map final : PropertyMap)
    (property : Text × Text) (rest : List (Text × Text))
    (h : recordAll evaluator map (property :: rest) = .ok final) :
    ∃ result, reading evaluator property.1 property.2 = .ok result
      ∧ recordAll evaluator (map.insert property.1 result) rest = .ok final := by
  rw [recordAll] at h
  split at h
  · exact absurd h (by simp only [reduceCtorEq, not_false_eq_true])
  · rename_i result hreading
    exact ⟨result, hreading, h⟩

theorem recordAll_append_eq_ok (evaluator : Evaluator) (map final : PropertyMap)
    (first second : List (Text × Text))
    (h : recordAll evaluator map (first ++ second) = .ok final) :
    ∃ middle, recordAll evaluator middle second = .ok final := by
  induction first generalizing map with
  | nil => exact ⟨map, h⟩
  | cons property rest ih =>
      obtain ⟨result, -, hrest⟩ := recordAll_cons_eq_ok evaluator map final property _ h
      exact ih _ hrest

/-- What is stated about other names leaves a value as it is, by induction on the
    statements. -/
theorem get?_of_recordAll (evaluator : Evaluator) (map final : PropertyMap)
    (stated : List (Text × Text)) (name : Text) (hother : ∀ property ∈ stated, property.1 ≠ name)
    (h : recordAll evaluator map stated = .ok final) : final.get? name = map.get? name := by
  induction stated generalizing map with
  | nil => rw [Except.ok.inj h]
  | cons property rest ih =>
      obtain ⟨result, -, hrest⟩ := recordAll_cons_eq_ok evaluator map final property rest h
      rw [ih _ (fun p hp => hother p (List.mem_cons_of_mem _ hp)) hrest,
        PropertyMap.get?_insert,
        if_neg fun heq => hother property List.mem_cons_self heq.symm]

/-- The names are those that are stated, by induction on the statements. -/
theorem mem_keys_of_recordAll (evaluator : Evaluator) (map final : PropertyMap)
    (stated : List (Text × Text)) (h : recordAll evaluator map stated = .ok final) (name : Text) :
    name ∈ final.keys ↔ name ∈ map.keys ∨ name ∈ stated.map Prod.fst := by
  induction stated generalizing map with
  | nil =>
      rw [Except.ok.inj h]
      simp only [List.map_nil, List.not_mem_nil, or_false]
  | cons property rest ih =>
      obtain ⟨result, -, hrest⟩ := recordAll_cons_eq_ok evaluator map final property rest h
      rw [ih _ hrest, PropertyMap.mem_keys_insert_iff, List.map_cons, List.mem_cons, or_assoc,
        or_left_comm]

/-- The last statement about a name decides its value. -/
theorem get?_last_of_recordAll (evaluator : Evaluator) (map final : PropertyMap)
    (before after : List (Text × Text)) (name value : Text)
    (hlast : ∀ later ∈ after, later.1 ≠ name)
    (h : recordAll evaluator map (before ++ (name, value) :: after) = .ok final) :
    ∃ result, reading evaluator name value = .ok result ∧ final.get? name = some result := by
  obtain ⟨middle, hrest⟩ := recordAll_append_eq_ok evaluator map final before _ h
  obtain ⟨result, hreading, hafter⟩ := recordAll_cons_eq_ok evaluator middle final _ after hrest
  refine ⟨result, hreading, ?_⟩
  rw [get?_of_recordAll evaluator _ final after name hlast hafter, PropertyMap.get?_insert,
    if_pos rfl]

end Property

/-- What the tokens of a description state, in order. -/
def Description.stated (description : Text) : List (Text × Text) :=
  (Description.tokens description).filterMap Property.stated?

/-- A description is extracted from what it states and from its comment. -/
theorem ofDescription_eq_recordAll (evaluator : Evaluator) (description : Text) :
    Extraction.ofDescription evaluator description
      = Property.recordAll evaluator .empty (Description.stated description) >>= fun map =>
        .ok ⟨(Description.split description).1,
          map.insert PropertyKey.comment (Description.split description).1⟩ := by
  rw [ofDescription_eq, Property.addTokens_eq_recordAll]
  rfl

/-- A map reports what has been stated: the names are those stated and that of the comment,
    the comment has its own value, whatever has been stated about it, and the value of any
    other name is that of the last statement about it. -/
structure Property.Reports (evaluator : Evaluator) (comment : Text)
    (stated : List (Text × Text)) (map : PropertyMap) : Prop where
  keys : ∀ name, name ∈ map.keys ↔ name = PropertyKey.comment ∨ name ∈ stated.map Prod.fst
  comment : map.get? PropertyKey.comment = some comment
  last : ∀ before name value after, stated = before ++ (name, value) :: after →
    (∀ later ∈ after, later.1 ≠ name) → name ≠ PropertyKey.comment →
    ∃ result, Shows evaluator name value result ∧ map.get? name = some result

/-- Statements that are all recorded are reported, once the comment has been set. -/
theorem reports_of_recordAll (evaluator : Evaluator) (comment : Text)
    (stated : List (Text × Text)) (map : PropertyMap)
    (h : Property.recordAll evaluator .empty stated = .ok map) :
    Property.Reports evaluator comment stated (map.insert PropertyKey.comment comment) := by
  -- The comment is set last, so no statement can take its place.
  refine ⟨fun name => ?_, ?_, fun before name value after hsplit hlast hname => ?_⟩
  · have hempty : name ∉ PropertyMap.empty.keys := List.not_mem_nil
    rw [PropertyMap.mem_keys_insert_iff, Property.mem_keys_of_recordAll evaluator _ map stated h]
    simp only [hempty, false_or]
  · rw [PropertyMap.get?_insert, if_pos rfl]
  · obtain ⟨result, hreading, hvalue⟩ :=
      Property.get?_last_of_recordAll evaluator _ map before after name value hlast (hsplit ▸ h)
    exact ⟨result, (Property.reading_eq_ok_iff evaluator name value result).1 hreading,
      by rw [PropertyMap.get?_insert, if_neg hname, hvalue]⟩

namespace PropertyKey

/-- A key as it is reported: a recognised one in its own spelling, not empty, without blanks
    around it, and without the characters that mean something in a description. -/
structure IsClean (key : Text) : Prop where
  spelling : ∀ entry ∈ known, entry.1.agreesIgnoringCase key = true → key = entry.1
  nonempty : key ≠ []
  trimmed : key.trimBy isControlOrSpace = key
  characters : ∀ c ∈ key, c ∉ ['[', ']', ';', '=']

theorem isClean_known : ∀ entry ∈ known, IsClean entry.1 := by
  have hspelling : ∀ entry ∈ known, ∀ other ∈ known,
      other.1.agreesIgnoringCase entry.1 = true → entry.1 = other.1 := by decide +kernel
  have hnonempty : ∀ entry ∈ known, entry.1 ≠ [] := by decide +kernel
  have htrimmed : ∀ entry ∈ known, entry.1.trimBy isControlOrSpace = entry.1 := by
    decide +kernel
  have hcharacters : ∀ entry ∈ known,
      entry.1.all (fun c => !(['[', ']', ';', '='].contains c)) = true := by decide +kernel
  exact fun entry hentry => ⟨hspelling entry hentry, hnonempty entry hentry,
    htrimmed entry hentry, notMem_of_all _ _ (hcharacters entry hentry)⟩

/-- A key without such characters is clean once it is reported. -/
theorem isClean_reported (key : Text) (hnonempty : key.trimBy isControlOrSpace ≠ [])
    (hcharacters : ∀ c ∈ key, c ∉ ['[', ']', ';', '=']) : IsClean (reported key) := by
  unfold reported
  cases hlookup : lookup? (key.trimBy isControlOrSpace) with
  | some entry => exact isClean_known entry (List.mem_of_find?_eq_some hlookup)
  | none =>
      refine ⟨fun entry hentry hagrees => ?_, hnonempty, trimBy_trimBy _ key,
        fun c hc => hcharacters c (mem_of_mem_trimBy _ c key hc)⟩
      exact absurd hagrees (List.find?_eq_none.1 hlookup entry hentry)

end PropertyKey

/-- Every name that a description states is clean. -/
theorem isClean_of_stated (description name value : Text)
    (h : (name, value) ∈ Description.stated description) : PropertyKey.IsClean name := by
  obtain ⟨token, htoken, hstated⟩ := List.mem_filterMap.1 h
  by_cases hequals : '=' ∈ token
  · obtain ⟨key, rest, rfl, hkey⟩ := List.eq_append_cons_of_mem hequals
    rw [Property.stated?_append key rest hkey] at hstated
    split at hstated
    · exact absurd hstated (by simp only [reduceCtorEq, not_false_eq_true])
    · rename_i hnonempty
      rw [Option.some.injEq, Prod.mk.injEq] at hstated
      rw [← hstated.1]
      refine PropertyKey.isClean_reported key hnonempty fun c hc hspecial => ?_
      -- The key is a part of a token, and that a part of the property text.
      have hpart : c ∈ key ++ '=' :: rest := List.mem_append_left _ hc
      have hseparator := separator_notMem_of_mem_pieces ';' _ _ htoken
      have hbrackets := Description.notMem_split description c
        (mem_of_mem_pieces ';' c _ _ htoken hpart)
      simp only [List.mem_cons, List.not_mem_nil, or_false] at hspecial
      rcases hspecial with rfl | rfl | rfl | rfl
      · exact hbrackets.1 rfl
      · exact hbrackets.2 rfl
      · exact hseparator hpart
      · exact hkey hc
  · rw [Property.stated?_of_no_equals token hequals] at hstated
    exact absurd hstated (by simp only [reduceCtorEq, not_false_eq_true])

/-- An extraction has the comment of its description, and reports what is stated. -/
theorem reports_of_ofDescription (evaluator : Evaluator) (description : Text)
    (extraction : Extraction)
    (h : Extraction.ofDescription evaluator description = .ok extraction) :
    extraction.comment = (Description.split description).1
      ∧ Property.Reports evaluator extraction.comment (Description.stated description)
          extraction.properties := by
  rw [ofDescription_eq_recordAll] at h
  cases hmap : Property.recordAll evaluator .empty (Description.stated description) with
  | error error =>
      rw [hmap] at h
      exact absurd h (by simp only [bind, Except.bind, reduceCtorEq, not_false_eq_true])
  | ok map =>
      rw [hmap] at h
      rw [← Except.ok.inj h]
      exact ⟨rfl, reports_of_recordAll evaluator (Description.split description).1 _ map hmap⟩

/-- All keys of an extraction are clean: the one of the comment, and the names that are
    stated. -/
theorem isClean_of_ofDescription (evaluator : Evaluator) (description : Text)
    (extraction : Extraction)
    (h : Extraction.ofDescription evaluator description = .ok extraction) :
    ∀ key ∈ extraction.properties.keys, PropertyKey.IsClean key := by
  obtain ⟨-, hreports⟩ := reports_of_ofDescription evaluator description extraction h
  intro key hkey
  rcases (hreports.keys key).1 hkey with rfl | hmem
  · have hcomment : PropertyKey.reported PropertyKey.comment = PropertyKey.comment := by
      decide +kernel
    exact hcomment ▸ PropertyKey.isClean_reported _ (by decide +kernel)
      (PropertyKey.notMem_of_all _ _ (by decide +kernel))
  · obtain ⟨property, hproperty, rfl⟩ := List.mem_map.1 hmem
    exact isClean_of_stated description property.1 property.2 hproperty

/-- What is extracted from a description, and when nothing is. Extraction fails if and only
    if the evaluator rejects a value that is stated for a numeric property, and then with
    the first of these. Otherwise there is the comment and a map that reports what is
    stated, in which every key is clean. -/
theorem extraction_of_stated (evaluator : Evaluator) (description : Text) :
    ((∃ error, Extraction.ofDescription evaluator description = .error error) ↔
      ∃ property ∈ Description.stated description, ∃ reason,
        Property.Rejects evaluator property.1 property.2 reason)
    ∧ (∀ error, Extraction.ofDescription evaluator description = .error error ↔
      ∃ before after,
        Description.stated description = before ++ (error.key, error.expression) :: after
        ∧ Property.Rejects evaluator error.key error.expression error.reason
        ∧ ∀ earlier ∈ before, ∀ reason,
          ¬ Property.Rejects evaluator earlier.1 earlier.2 reason)
    ∧ ∀ extraction, Extraction.ofDescription evaluator description = .ok extraction →
      extraction.comment = (Description.split description).1
      ∧ Property.Reports evaluator extraction.comment (Description.stated description)
          extraction.properties
      ∧ ∀ key ∈ extraction.properties.keys, PropertyKey.IsClean key := by
  -- The first refusal among what is stated is the error, and there is no other.
  have hfails : ∀ error, Extraction.ofDescription evaluator description = .error error ↔
      (Description.stated description).findSome? (Property.refusal? evaluator) = some error := by
    intro error
    rw [ofDescription_eq_recordAll, ← Property.recordAll_eq_error_iff evaluator .empty]
    cases Property.recordAll evaluator .empty (Description.stated description) with
    | error other => simp only [bind, Except.bind, Except.error.injEq]
    | ok map => simp only [bind, Except.bind, reduceCtorEq]
  refine ⟨?_, fun error => ?_, fun extraction h => ?_⟩
  · simp only [hfails]
    rw [← Option.isSome_iff_exists, List.findSome?_isSome_iff]
    refine exists_congr fun property => and_congr_right fun _ => ?_
    rw [Option.isSome_iff_ne_none, ne_eq, Property.refusal?_eq_none_iff]
    simp only [not_forall, not_not]
  · rw [hfails, List.findSome?_eq_some_iff]
    simp only [Property.refusal?_eq_some_iff, Property.refusal?_eq_none_iff]
    constructor
    · rintro ⟨before, property, after, hsplit, ⟨rfl, hrejected⟩, haccepted⟩
      exact ⟨before, after, hsplit, hrejected, haccepted⟩
    · rintro ⟨before, after, hsplit, hrejected, haccepted⟩
      exact ⟨before, _, after, hsplit, ⟨rfl, hrejected⟩, haccepted⟩
  · obtain ⟨hcomment, hreports⟩ := reports_of_ofDescription evaluator description extraction h
    exact ⟨hcomment, hreports, isClean_of_ofDescription evaluator description extraction h⟩

/-- An evaluator that finds six everywhere, but no rate anywhere. -/
def sixEvaluator : Evaluator := ⟨fun _ => .ok 6, fun _ => .error .empty⟩

/-- Only a rate is rejected. -/
theorem not_rejects_sixEvaluator (stated : List (Text × Text))
    (h : ∀ property ∈ stated, property.1 ≠ PropertyKey.frameRate) :
    ∀ property ∈ stated, ∀ reason,
      ¬ Property.Rejects sixEvaluator property.1 property.2 reason := by
  rintro property hmem reason (⟨-, hinteger⟩ | ⟨hname, -⟩)
  · exact absurd hinteger (by simp only [sixEvaluator, reduceCtorEq, not_false_eq_true])
  · exact h property hmem hname

/-- An evaluator that finds six everywhere, and the same rate. -/
def rateEvaluator (rate : Float) : Evaluator := ⟨fun _ => .ok 6, fun _ => .ok rate⟩

theorem not_rejects_rateEvaluator (rate : Float) (name value : Text) (reason : ExpressionError) :
    ¬ Property.Rejects (rateEvaluator rate) name value reason := by
  rintro (⟨-, hinteger⟩ | ⟨-, hfloat⟩)
  · exact absurd hinteger (by simp only [rateEvaluator, reduceCtorEq, not_false_eq_true])
  · exact absurd hfloat (by simp only [rateEvaluator, reduceCtorEq, not_false_eq_true])

theorem extraction_of_stated_samples :
    Extraction.ofDescription sixEvaluator
        "Tone [CHN=0; x =a=b;;=v;w;framerate=2;FrameRate=3]".toList
      = .error ⟨PropertyKey.frameRate, "2".toList, .empty⟩
    ∧ (∃ extraction, Extraction.ofDescription sixEvaluator
          "Tone [CHN=0;Title=s;comment=no;TITLE= t ]".toList = .ok extraction
        ∧ extraction.properties.get? "comment".toList = some "Tone ".toList
        ∧ extraction.properties.get? "title".toList = some "t".toList
        ∧ extraction.properties.get? "chn".toList = some "6".toList)
    ∧ (∃ extraction, Extraction.ofDescription (rateEvaluator 25) "Film [framerate=r]".toList
          = .ok extraction
        ∧ extraction.properties.get? "frameRate".toList
          = some (rateLayout.content
              (FloatFormat.single.decode (25 : Float).toFloat32.toBits.toNat)))
    ∧ rateLayout.content (FloatFormat.single.decode 0x41c80000) = "25.0".toList
    ∧ rateLayout.content (FloatFormat.single.decode 0xbdcccccd) = "-0.1".toList
    ∧ rateLayout.content (FloatFormat.single.decode 0x5a0e1bca) = "1e16".toList
    ∧ rateLayout.content (FloatFormat.single.decode 0x80000000) = "-0.0".toList
    ∧ rateLayout.content (FloatFormat.single.decode 0x7f800000) = "inf".toList
    ∧ rateLayout.content (FloatFormat.single.decode 0x7fc00000) = "NaN".toList := by
  -- The channels are accepted and the first of two rates is rejected.
  have hrejected : Description.stated "Tone [CHN=0; x =a=b;;=v;w;framerate=2;FrameRate=3]".toList
      = [("chn".toList, "0".toList), ("x".toList, "a=b".toList)]
        ++ ("frameRate".toList, "2".toList) :: [("frameRate".toList, "3".toList)] := by
    decide +kernel
  have hstated : Description.stated "Tone [CHN=0;Title=s;comment=no;TITLE= t ]".toList
      = [("chn".toList, "0".toList), ("title".toList, "s".toList),
        ("comment".toList, "no".toList), ("title".toList, "t".toList)] := by decide +kernel
  have hcomment : (Description.split "Tone [CHN=0;Title=s;comment=no;TITLE= t ]".toList).1
      = "Tone ".toList := by decide +kernel
  have hrate : Description.stated "Film [framerate=r]".toList
      = [("frameRate".toList, "r".toList)] := by decide +kernel
  refine ⟨((extraction_of_stated sixEvaluator _).2.1 _).2 ⟨_, _, hrejected, Or.inr ⟨rfl, rfl⟩,
    not_rejects_sixEvaluator _ (by decide +kernel)⟩, ?_, ?_, by decide +kernel, by decide +kernel,
    by decide +kernel, by decide +kernel, by decide +kernel, by decide +kernel⟩
  · obtain ⟨hfails, -, hreports⟩ := extraction_of_stated sixEvaluator
      "Tone [CHN=0;Title=s;comment=no;TITLE= t ]".toList
    rw [hstated] at hfails hreports
    cases hextracted : Extraction.ofDescription sixEvaluator
        "Tone [CHN=0;Title=s;comment=no;TITLE= t ]".toList with
    | error error =>
        obtain ⟨property, hmem, reason, hrejects⟩ := hfails.1 ⟨error, hextracted⟩
        exact absurd hrejects
          (not_rejects_sixEvaluator _ (by decide +kernel) property hmem reason)
    | ok extraction =>
        obtain ⟨hown, hmap, -⟩ := hreports extraction hextracted
        obtain ⟨title, htitle, hvalue⟩ := hmap.last [("chn".toList, "0".toList),
            ("title".toList, "s".toList), ("comment".toList, "no".toList)] "title".toList
          "t".toList [] rfl (fun _ h => absurd h List.not_mem_nil) (by decide)
        obtain ⟨count, hcount, hchannels⟩ := hmap.last [] "chn".toList "0".toList _ rfl
          (by decide +kernel) (by decide)
        rw [← Property.reading_eq_ok_iff] at htitle hcount
        refine ⟨extraction, rfl, ?_, ?_, ?_⟩
        · rw [← hcomment, ← hown]
          exact hmap.comment
        · rw [hvalue, ← Except.ok.inj htitle]
        · rw [hchannels, ← Except.ok.inj hcount]
          rfl
  · obtain ⟨hfails, -, hreports⟩ := extraction_of_stated (rateEvaluator 25)
      "Film [framerate=r]".toList
    rw [hrate] at hfails hreports
    cases hextracted : Extraction.ofDescription (rateEvaluator 25) "Film [framerate=r]".toList with
    | error error =>
        obtain ⟨property, hmem, reason, hrejects⟩ := hfails.1 ⟨error, hextracted⟩
        exact absurd hrejects (not_rejects_rateEvaluator 25 _ _ reason)
    | ok extraction =>
        obtain ⟨-, hmap, -⟩ := hreports extraction hextracted
        obtain ⟨shown, hshown, hvalue⟩ := hmap.last [] "frameRate".toList "r".toList [] rfl
          (fun _ h => absurd h List.not_mem_nil) (by decide)
        rw [← Property.reading_eq_ok_iff] at hshown
        rw [← Float.singleText, Except.ok.inj hshown]
        exact ⟨extraction, rfl, hvalue⟩

end FileSignatures
