import FileSignatures.Identification.Document
import FileSignatures.Proofs.Json.Printed
import Mathlib.Algebra.Group.Nat.Defs

/-!
# Identifications that are read back

An identification is read back from every text of its document. Of an object only the
fields count that an identification has: others may stand among them, in any number, and
the order does not matter as long as no field is given twice. The line may be left out if
there is none. In an array the values take the places of their fields instead.

Properties are read one after the other. Because they are written in the order of their
keys, each is set behind all of the earlier ones, and what comes out is what was written
(`PropertyMap.ofList_entries`).

## Main definitions

* `Identification.HasFields`: An object with the fields of an identification and others.
* `Identification.LacksField`: A document without one of the fields that must be given.

## Theorems

* `member?_filter`: Members with other keys do not count.
* `ofJson?_of_hasFields`, `ofJson?_values`: The identification of an object and of an array.
* `ofJson?_of_lacksField`: A document that lacks a field is no identification.
* `ofText?_of_toJson`: An identification is read back from its texts.
-/

namespace FileSignatures

namespace Json

theorem member?_eq_none (key : Text) (members : List (Text × Json))
    (h : ∀ member ∈ members, member.1 ≠ key) : member? key members = none := by
  induction members with
  | nil => rfl
  | cons member rest ih =>
      obtain ⟨k, value⟩ := member
      obtain ⟨hk, hrest⟩ := List.forall_mem_cons.1 h
      rw [member?, ih hrest]
      exact if_neg hk

theorem member?_cons_of_ne (key k : Text) (value : Json) (rest : List (Text × Json))
    (h : k ≠ key) : member? key ((k, value) :: rest) = member? key rest := by
  rw [member?, if_neg h]
  cases member? key rest with
  | none => rfl
  | some later => rfl

/-- A member whose key no other has is found by its key. -/
theorem member?_of_mem (key : Text) (value : Json) (members : List (Text × Json))
    (hdistinct : (members.map Prod.fst).Nodup) (h : (key, value) ∈ members) :
    member? key members = some value := by
  induction members with
  | nil => exact absurd h List.not_mem_nil
  | cons member rest ih =>
      obtain ⟨k, first⟩ := member
      rw [List.map_cons, List.nodup_cons] at hdistinct
      obtain ⟨hk, hrest⟩ := hdistinct
      rcases List.mem_cons.1 h with heq | hmem
      · obtain ⟨rfl, rfl⟩ := Prod.mk.inj heq
        -- A second member of this key would be found as well, which is refused.
        have hnone : member? key rest = none :=
          member?_eq_none key rest fun member hmember hkey =>
            hk (List.mem_map.2 ⟨member, hmember, hkey⟩)
        rw [member?, hnone]
        exact if_pos rfl
      · rw [member?, ih hrest hmem]

/-- The order of members with different keys does not matter. -/
theorem member?_perm (key : Text) (xs ys : List (Text × Json)) (hperm : xs.Perm ys)
    (hdistinct : (ys.map Prod.fst).Nodup) : member? key xs = member? key ys := by
  by_cases hkey : ∃ member ∈ ys, member.1 = key
  · obtain ⟨⟨k, value⟩, hmem, rfl⟩ := hkey
    have hxs : (xs.map Prod.fst).Nodup := (hperm.map Prod.fst).nodup_iff.2 hdistinct
    rw [member?_of_mem k value xs hxs (hperm.mem_iff.2 hmem),
      member?_of_mem k value ys hdistinct hmem]
  · have hys : ∀ member ∈ ys, member.1 ≠ key := fun member hmem heq =>
      hkey ⟨member, hmem, heq⟩
    rw [member?_eq_none key ys hys,
      member?_eq_none key xs fun member hmem => hys member (hperm.mem_iff.1 hmem)]

/-- Members with other keys do not count. -/
theorem member?_filter (p : Text × Json → Bool) (key : Text) (members : List (Text × Json))
    (h : ∀ value, p (key, value) = true) :
    member? key (members.filter p) = member? key members := by
  induction members with
  | nil => rfl
  | cons member rest ih =>
      obtain ⟨k, value⟩ := member
      by_cases hk : k = key
      · rw [hk, List.filter_cons_of_pos (h value), member?, member?, ih]
      · rw [member?_cons_of_ne key k value rest hk]
        cases hp : p (k, value) with
        | true => rw [List.filter_cons_of_pos hp, member?_cons_of_ne key k value _ hk, ih]
        | false => rw [List.filter_cons_of_neg (Bool.eq_false_iff.1 hp), ih]

end Json

namespace PropertyMap

/-- A key behind all others is set at the end. -/
theorem insertEntry_of_lt (key value : Text) (entries : List (Text × Text))
    (h : ∀ entry ∈ entries, entry.1 < key) :
    insertEntry key value entries = entries ++ [(key, value)] := by
  induction entries with
  | nil => rfl
  | cons entry rest ih =>
      obtain ⟨k, v⟩ := entry
      obtain ⟨hk, hrest⟩ := List.forall_mem_cons.1 h
      have hne : key ≠ k := fun heq => List.lt_irrefl key (heq ▸ hk)
      rw [insertEntry, if_neg (List.lt_asymm hk), if_neg hne, ih hrest, List.cons_append]

/-- Entries that follow those of a map in order are set behind them, one after the other. -/
theorem entries_foldl_insert (entries : List (Text × Text)) (map : PropertyMap)
    (h : EntriesOrdered (map.entries ++ entries)) :
    (entries.foldl (fun map entry => map.insert entry.1 entry.2) map).entries
      = map.entries ++ entries := by
  induction entries generalizing map with
  | nil => rw [List.foldl_nil, List.append_nil]
  | cons entry rest ih =>
      -- The first of them is behind the whole map, and so are the others behind both.
      have hlast : ∀ e ∈ map.entries, e.1 < entry.1 := fun e he =>
        (List.pairwise_append.1 h).2.2 e he entry List.mem_cons_self
      have hinsert : (map.insert entry.1 entry.2).entries = map.entries ++ [entry] :=
        insertEntry_of_lt entry.1 entry.2 map.entries hlast
      have hsame : map.entries ++ [entry] ++ rest = map.entries ++ entry :: rest := by
        rw [List.append_assoc, List.singleton_append]
      rw [List.foldl_cons, ih _ (by rw [hinsert, hsame]; exact h), hinsert, hsame]

/-- The entries of a map make up the map. -/
theorem ofList_entries (map : PropertyMap) : ofList map.entries = map := by
  have hentries : (ofList map.entries).entries = map.entries :=
    entries_foldl_insert map.entries empty map.ordered
  cases map
  cases hof : ofList _ with
  | mk entries ordered =>
      rw [hof] at hentries
      subst hentries
      rfl

end PropertyMap

namespace Identification

/-- Members of an object say an identification: its fields are among them, in any order and
    each once, and the line may be missing if there is none. -/
def HasFields (result : Identification) (members : List (Text × Json)) : Prop :=
  (members.filter isField).Perm result.members
    ∨ (result.matchedLine = none ∧ (members.filter isField).Perm result.members.dropLast)

/-- A document that lacks a field that must be given. An array lacks what it is too short
    for, a missing line included, and what is neither an object nor an array lacks all. -/
def LacksField : Json → Prop
  | .object members => ∃ name ∈ requiredNames, ∀ member ∈ members, member.1 ≠ name
  | .array elements => elements.length < fieldNames.length
  | _ => True

theorem hasFields_members (result : Identification) : HasFields result result.members := by
  have hfields : result.members.filter isField = result.members :=
    List.filter_eq_self.2 fun member hmember =>
      List.contains_iff_mem.2 (List.mem_map.2 ⟨member, hmember, rfl⟩)
  exact Or.inl (List.Perm.of_eq hfields)

/-- Another member may stand anywhere. -/
theorem hasFields_insert (result : Identification) (before after : List (Text × Json))
    (member : Text × Json) (hother : isField member = false)
    (h : HasFields result (before ++ after)) :
    HasFields result (before ++ member :: after) := by
  have hfilter : (before ++ member :: after).filter isField = (before ++ after).filter isField := by
    rw [List.filter_append, List.filter_cons_of_neg (Bool.eq_false_iff.1 hother),
      List.filter_append]
  unfold HasFields
  rw [hfilter]
  exact h

theorem entriesOf?_strings (entries : List (Text × Text)) :
    entriesOf? (entries.map fun entry => (entry.1, Json.string entry.2)) = some entries := by
  induction entries with
  | nil => rfl
  | cons entry rest ih =>
      rw [List.map_cons, entriesOf?, ih]
      rfl

theorem propertiesOf?_strings (map : PropertyMap) :
    propertiesOf? (.object (map.entries.map fun entry => (entry.1, Json.string entry.2)))
      = some map := by
  rw [propertiesOf?, entriesOf?_strings, Option.map_some, PropertyMap.ofList_entries]

theorem lineOf?_integer (line : Nat) (h : line < 2 ^ 64) :
    lineOf? (.integer line) = some (some line) := by
  have hrange : (0 : Int) ≤ line ∧ (line : Int) < Literal.wordCount :=
    ⟨Int.natCast_nonneg line, by unfold Literal.wordCount; omega⟩
  rw [lineOf?, if_pos hrange, Int.toNat_natCast]

/-- The five values of an identification are read back. -/
theorem ofFields?_values (identified : Bool) (description comment : Text)
    (properties : PropertyMap) (lineValue : Json) (matchedLine : Option Nat)
    (hline : lineOf? lineValue = some matchedLine) :
    ofFields? (.bool identified) (.string description) (.string comment)
      (.object (properties.entries.map fun entry => (entry.1, Json.string entry.2))) lineValue
      = some ⟨identified, description, comment, properties, matchedLine⟩ := by
  unfold ofFields?
  rw [propertiesOf?_strings, hline]
  rfl

/-- An array of the values says the identification. -/
theorem ofJson?_values (result : Identification)
    (hline : ∀ line, result.matchedLine = some line → line < 2 ^ 64) :
    ofJson? (.array (result.members.map Prod.snd)) = some result := by
  obtain ⟨identified, description, comment, properties, matchedLine⟩ := result
  cases matchedLine with
  | none => exact ofFields?_values identified description comment properties .null none rfl
  | some line =>
      exact ofFields?_values identified description comment properties (.integer line) (some line)
        (lineOf?_integer line (hline line rfl))

/-- An object says nothing but what its fields say, if none is given twice. -/
theorem ofJson?_congr (members others : List (Text × Json))
    (hmembers : ((members.filter isField).map Prod.fst).Nodup)
    (hothers : ((others.filter isField).map Prod.fst).Nodup)
    (h : ∀ name ∈ fieldNames, Json.member? name members = Json.member? name others) :
    ofJson? (.object members) = ofJson? (.object others) := by
  have hname : ∀ name, fieldNames.contains name = true →
      Json.member? name members = Json.member? name others := fun name hname =>
    h name (List.contains_iff_mem.1 hname)
  simp only [ofJson?, hmembers, hothers, decide_true, Bool.not_true, Bool.false_eq_true, if_false]
  rw [hname "identified".toList (by decide), hname "description".toList (by decide),
    hname "comment".toList (by decide), hname "properties".toList (by decide),
    hname "matched_line".toList (by decide)]

/-- An object with the fields of an identification says it: the line may be missing if there
    is none, because then it reads as if it were null. -/
theorem ofJson?_of_hasFields (result : Identification) (members : List (Text × Json))
    (hline : ∀ line, result.matchedLine = some line → line < 2 ^ 64)
    (h : HasFields result members) : ofJson? (.object members) = some result := by
  -- Only the fields count, and their order does not.
  have hfields : ∀ chosen : List (Text × Json), (members.filter isField).Perm chosen →
      (chosen.map Prod.fst).Nodup → ofJson? (.object members) = ofJson? (.object chosen) := by
    intro chosen hperm hdistinct
    have honce := (hperm.map Prod.fst).nodup_iff.2 hdistinct
    have hchosen : ((chosen.filter isField).map Prod.fst).Nodup :=
      (List.filter_sublist.map Prod.fst).nodup hdistinct
    refine ofJson?_congr members chosen honce hchosen fun name hname => ?_
    rw [← Json.member?_filter isField name members fun _ => List.contains_iff_mem.2 hname]
    exact Json.member?_perm name _ chosen hperm hdistinct
  have hvalues := ofJson?_values result hline
  rcases h with hperm | ⟨hnone, hperm⟩
  · have hdistinct : (result.members.map Prod.fst).Nodup := by
      have hnames : fieldNames.Nodup := by decide
      exact hnames
    rw [hfields result.members hperm hdistinct]
    exact hvalues
  · have hdistinct : (result.members.dropLast.map Prod.fst).Nodup := by
      have hnames : requiredNames.Nodup := by decide
      exact hnames
    rw [hfields result.members.dropLast hperm hdistinct]
    -- Without its line the object reads as if the line were null.
    obtain ⟨identified, description, comment, properties, matchedLine⟩ := result
    simp only at hnone
    subst hnone
    exact hvalues

/-- A document that lacks a field is no identification. -/
theorem ofJson?_of_lacksField (document : Json) (h : LacksField document) :
    ofJson? document = none := by
  cases document with
  | object members =>
      obtain ⟨name, hname, hlacks⟩ := h
      have hnone := Json.member?_eq_none name members hlacks
      simp only [requiredNames, List.mem_cons, List.not_mem_nil, or_false] at hname
      simp only [ofJson?, Option.bind_eq_bind]
      -- What is read in front of the missing field changes nothing, be it given twice or not.
      rcases hname with rfl | rfl | rfl | rfl
      · simp only [hnone, Option.bind_none, ite_self]
      · simp only [hnone, Option.bind_none, Option.bind_fun_none, ite_self]
      · simp only [hnone, Option.bind_none, Option.bind_fun_none, ite_self]
      · simp only [hnone, Option.bind_none, Option.bind_fun_none, ite_self]
  | array elements =>
      unfold ofJson?
      split
      · rename_i heq
        exact absurd heq (by simp only [reduceCtorEq, not_false_eq_true])
      · rename_i heq
        rw [Json.array.inj heq] at h
        exact absurd h (Nat.lt_irrefl 5)
      · rfl
  | null => rfl
  | bool b => rfl
  | integer n => rfl
  | fraction spelling => rfl
  | string t => rfl

/-- An identification has no numbers but that of the line. -/
theorem isSpelled_members (result : Identification) :
    ∀ member ∈ result.members, member.2.IsSpelled := by
  have hstrings : ∀ member ∈ result.properties.entries.map
      (fun entry => (entry.1, Json.string entry.2)), member.2.IsSpelled := by
    intro member hmember
    obtain ⟨entry, -, rfl⟩ := List.mem_map.1 hmember
    unfold Json.IsSpelled
    trivial
  obtain ⟨identified, description, comment, properties, matchedLine⟩ := result
  simp only [members, List.forall_mem_cons, List.not_mem_nil, false_implies, implies_true,
    and_true, Json.IsSpelled, true_and]
  -- The properties are strings, and the line is a whole number or missing.
  refine ⟨Json.membersAreSpelled_of_forall _ hstrings, ?_⟩
  cases matchedLine with
  | none => unfold Json.IsSpelled; trivial
  | some line => unfold Json.IsSpelled; trivial

theorem ofText?_of_isText (document : Json) (t : Text) (h : document.IsText t) :
    ofText? t = ofJson? document := by
  rw [ofText?, Json.ofText?_of_isText document t h, Option.bind_some]

/-- An identification is read back from its own text in either form, from every text of an
    object with its fields and of the array of its values, and no identification is read from
    a document that lacks one of the fields that must be given. -/
theorem ofText?_of_toJson (result : Identification)
    (hline : ∀ line, result.matchedLine = some line → line < 2 ^ 64) :
    ofText? result.toJson.compact = some result
      ∧ ofText? result.toJson.pretty = some result
      ∧ (∀ (members : List (Text × Json)) (t : Text), HasFields result members →
        (Json.object members).IsText t → ofText? t = some result)
      ∧ (∀ t : Text, (Json.array (result.members.map Prod.snd)).IsText t →
        ofText? t = some result)
      ∧ ∀ (document : Json) (t : Text), LacksField document →
        Json.ofText? t = some document → ofText? t = none := by
  have hobject : ∀ (members : List (Text × Json)) (t : Text), HasFields result members →
      (Json.object members).IsText t → ofText? t = some result := by
    intro members t hfields htext
    rw [ofText?_of_isText _ t htext]
    exact ofJson?_of_hasFields result members hline hfields
  -- Both forms of its own text are texts of one object.
  have hown := hasFields_members result
  have hspelled := Json.isSpelled_object result.members (isSpelled_members result)
  refine ⟨hobject result.members _ hown (Json.isText_compact _ hspelled),
    hobject result.members _ hown (Json.isText_pretty _ hspelled), hobject,
    fun t htext => ?_, fun document t hlacks hread => ?_⟩
  · rw [ofText?_of_isText _ t htext]
    exact ofJson?_values result hline
  · rw [ofText?, hread, Option.bind_some]
    exact ofJson?_of_lacksField document hlacks

/-- An identification with characters that are escaped, and with others that are not. -/
def quoted (matchedLine : Option Nat) : Identification where
  identified := true
  description := "a \"b\" \\ \t\x01\x7f é 😀".toList
  comment := "\r\n".toList
  properties := PropertyMap.ofList
    [("title".toList, "\"\\/\"".toList), ("größe".toList, []), ([], "\x1f".toList)]
  matchedLine := matchedLine

theorem ofText?_of_toJson_quoted :
    (∀ line, (quoted (some (2 ^ 64 - 1))).matchedLine = some line → line < 2 ^ 64)
      ∧ ofText? (quoted (some (2 ^ 64 - 1))).toJson.compact = some (quoted (some (2 ^ 64 - 1)))
      ∧ HasFields (quoted none)
        (("size".toList, .fraction "1.5".toList) :: (quoted none).members.dropLast)
      ∧ ofText? (Json.object (("size".toList, .fraction "1.5".toList)
        :: (quoted none).members.dropLast)).pretty = some (quoted none)
      ∧ LacksField (.object (quoted none).members.tail)
      ∧ ofText? (Json.object (quoted none).members.tail).pretty = none := by
  have hline : ∀ line, (quoted (some (2 ^ 64 - 1))).matchedLine = some line → line < 2 ^ 64 := by
    intro line hsome
    rw [← Option.some.inj hsome]
    decide
  have hnone : ∀ line, (quoted none).matchedLine = some line → line < 2 ^ 64 := by
    intro line hsome
    exact absurd hsome (by simp only [quoted, reduceCtorEq, not_false_eq_true])
  have hfields : HasFields (quoted none)
      (("size".toList, .fraction "1.5".toList) :: (quoted none).members.dropLast) :=
    hasFields_insert (quoted none) [] _ _ (by decide)
      (Or.inr ⟨rfl, List.Perm.of_eq (by rfl)⟩)
  -- An unknown member may hold what no field could, such as a fraction.
  have hspelled : (Json.object (("size".toList, .fraction "1.5".toList)
      :: (quoted none).members.dropLast)).IsSpelled := by
    refine Json.isSpelled_object _ (List.forall_mem_cons.2 ⟨?_, fun member hmember => ?_⟩)
    · unfold Json.IsSpelled
      have hdigit : ∀ c, isDigit c = true → Json.IsDigits [c] := fun c hc =>
        ⟨List.cons_ne_nil c [], List.forall_mem_singleton.2 hc⟩
      exact .mk false ['1'] ['.', '5'] [] ⟨hdigit '1' (by decide), by decide⟩
        (Or.inr ⟨['5'], hdigit '5' (by decide), rfl⟩) (Or.inl rfl)
        fun hplaces => absurd hplaces (List.cons_ne_nil _ _)
    · exact isSpelled_members (quoted none) member (List.dropLast_subset _ hmember)
  have htail : (Json.object (quoted none).members.tail).IsSpelled :=
    Json.isSpelled_object _ fun member hmember =>
      isSpelled_members (quoted none) member (List.mem_of_mem_tail hmember)
  have hlacks : LacksField (.object (quoted none).members.tail) :=
    ⟨"identified".toList, by decide, by decide⟩
  obtain ⟨hcompact, -, -, -, -⟩ := ofText?_of_toJson (quoted (some (2 ^ 64 - 1))) hline
  obtain ⟨-, -, hobject, -, hreject⟩ := ofText?_of_toJson (quoted none) hnone
  exact ⟨hline, hcompact, hfields, hobject _ _ hfields (Json.isText_pretty _ hspelled), hlacks,
    hreject _ _ hlacks (Json.ofText?_of_isText _ _ (Json.isText_pretty _ htail))⟩

end Identification

end FileSignatures
