import FileSignatures.Proofs.Property.Tokens
import FileSignatures.Proofs.Text.Splitting

/-!
# How properties are reported

A property map is determined by its values (`ext_get?`), because its entries are in
the order of their keys; so properties with different keys can be set in either
order. A key whose value is a text is reported with that text, whatever it is, and
in one spelling if it is a recognised one.

The values of such a key are parts of tokens. What no token holds is therefore not
in the value either (`addTokens_get?_clean`), and this limits what a description can
say under the key at all.

## Main definitions

* `PropertyKey.reported`: The key that a property is reported under.
* `PropertyKey.IsPlain`: A key as it can be written in a template and a token.
* `PropertyKey.IsText`: A key whose value is reported as it is.

## Theorems

* `ext_get?`: A property map is determined by its values.
* `insert_comm`: Different keys can be set in either order.
* `evaluate_of_isText`: A text is reported as it is.
* `addTokens_of_isText`: A token with such a key sets it.
* `addTokens_get?_clean`: A value holds nothing that no token holds.
-/

namespace FileSignatures

namespace PropertyMap

theorem lookupEntry_eq_none (key : Text) (entries : List (Text × Text))
    (h : ∀ entry ∈ entries, key < entry.1) : lookupEntry key entries = none := by
  induction entries with
  | nil => rfl
  | cons entry rest ih =>
      have hne : key ≠ entry.1 := fun heq =>
        List.lt_irrefl key (heq ▸ h entry List.mem_cons_self)
      rw [lookupEntry, if_neg hne, ih (fun e he => h e (List.mem_cons_of_mem _ he))]

/-- Of two lists of entries with the same values, the first entries have the same
    key: the lesser one of two keys would be missing in the other list. -/
theorem not_lt_of_lookupEntry (k l v w : Text) (xs ys : List (Text × Text))
    (hys : ∀ entry ∈ ys, l < entry.1)
    (h : ∀ key, lookupEntry key ((k, v) :: xs) = lookupEntry key ((l, w) :: ys)) : ¬ k < l := by
  intro hlt
  have hnone : lookupEntry k ((l, w) :: ys) = none := by
    refine lookupEntry_eq_none k _ fun entry hentry => ?_
    rcases List.mem_cons.1 hentry with rfl | hentry
    · exact hlt
    · exact List.lt_trans hlt (hys entry hentry)
  have hsome := h k
  rw [hnone, lookupEntry, if_pos rfl] at hsome
  exact absurd hsome (by simp only [reduceCtorEq, not_false_eq_true])

theorem eq_of_lookupEntry (xs ys : List (Text × Text)) (hxs : EntriesOrdered xs)
    (hys : EntriesOrdered ys) (h : ∀ key, lookupEntry key xs = lookupEntry key ys) : xs = ys := by
  induction xs generalizing ys with
  | nil =>
      cases ys with
      | nil => rfl
      | cons entry rest =>
          have hnone := h entry.1
          rw [lookupEntry, lookupEntry, if_pos rfl] at hnone
          exact absurd hnone (by simp only [reduceCtorEq, not_false_eq_true])
  | cons first xs ih =>
      obtain ⟨k, v⟩ := first
      cases ys with
      | nil =>
          have hsome := h k
          rw [lookupEntry, lookupEntry, if_pos rfl] at hsome
          exact absurd hsome (by simp only [reduceCtorEq, not_false_eq_true])
      | cons second ys =>
          obtain ⟨l, w⟩ := second
          rcases List.pairwise_cons.1 hxs with ⟨hk, hxs'⟩
          rcases List.pairwise_cons.1 hys with ⟨hl, hys'⟩
          have hkey : k = l := by
            by_contra hne
            have hlt := not_lt_of_lookupEntry k l v w xs ys hl h
            have hgt := not_lt_of_lookupEntry l k w v ys xs hk (fun key => (h key).symm)
            exact hgt (Text.lt_of_not_lt_of_ne k l hlt hne)
          subst hkey
          -- The first entries are the same, and the others have greater keys.
          have hvalue := h k
          rw [lookupEntry, lookupEntry, if_pos rfl, if_pos rfl, Option.some.injEq] at hvalue
          have hrest : xs = ys := by
            refine ih ys hxs' hys' fun key => ?_
            by_cases hne : key = k
            · rw [hne, lookupEntry_eq_none k xs hk, lookupEntry_eq_none k ys hl]
            · have hsame := h key
              rw [lookupEntry, lookupEntry, if_neg hne, if_neg hne] at hsame
              exact hsame
          rw [hvalue, hrest]

/-- A property map is determined by its values. -/
theorem ext_get? (a b : PropertyMap) (h : ∀ key, a.get? key = b.get? key) : a = b := by
  have hentries := eq_of_lookupEntry a.entries b.entries a.ordered b.ordered h
  cases a
  cases b
  simp only at hentries
  subst hentries
  rfl

theorem insert_comm (map : PropertyMap) (k l v w : Text) (h : k ≠ l) :
    (map.insert k v).insert l w = (map.insert l w).insert k v := by
  refine ext_get? _ _ fun key => ?_
  simp only [get?_insert]
  by_cases hk : key = k
  · have hl : key ≠ l := fun heq => h (hk.symm.trans heq)
    rw [if_neg hl, if_pos hk, if_pos hk]
  · rw [if_neg hk, if_neg hk]

end PropertyMap

namespace PropertyKey

/-- The key that a property is reported under: without blanks around it, and in one
    spelling if it is a recognised one. -/
def reported (key : Text) : Text :=
  match lookup? (key.trimBy isControlOrSpace) with
  | some (name, _) => name
  | none => key.trimBy isControlOrSpace

/-- A key as it can be written in a template and in a token: it has none of the
    characters that mean something there, and not only blanks. -/
structure IsPlain (key : Text) : Prop where
  characters : ∀ c ∈ key, c ∉ ['[', ']', ';', '=', '%']
  nonempty : key.trimBy isControlOrSpace ≠ []

theorem notMem_of_all (t special : List Char)
    (h : t.all (fun c => !special.contains c) = true) : ∀ c ∈ t, c ∉ special := by
  intro c hc hmem
  have hfree := List.all_eq_true.1 h c hc
  rw [List.contains_iff_mem.2 hmem] at hfree
  exact absurd hfree (by decide)

/-- A plain key has none of fewer such characters either. -/
theorem IsPlain.notMem {key : Text} (h : IsPlain key) (special : List Char)
    (hspecial : special ⊆ ['[', ']', ';', '=', '%']) : ∀ c ∈ key, c ∉ special :=
  fun c hc hmem => h.characters c hc (hspecial hmem)

/-- A key whose value is reported as it is, other than that of the comment: a
    recognised one that is read as a text, or an unrecognised one. -/
structure IsText (key : Text) : Prop where
  kind : ∀ name kind, lookup? (key.trimBy isControlOrSpace) = some (name, kind) → kind = .text
  not_comment : reported key ≠ comment

/-- The keys of numeric properties are not reported for a text. -/
theorem reported_ne_numeric (key : Text) (h : IsText key) :
    reported key ≠ channels ∧ reported key ≠ frameRate := by
  have htexts : ∀ entry ∈ known, entry.2 = .text → entry.1 ≠ channels ∧ entry.1 ≠ frameRate := by
    decide
  unfold reported
  cases hlookup : lookup? (key.trimBy isControlOrSpace) with
  | some entry =>
      have hmem : entry ∈ known := List.mem_of_find?_eq_some hlookup
      exact htexts entry hmem (h.kind entry.1 entry.2 hlookup)
  | none =>
      -- A numeric key is recognised as one.
      have hchannels : lookup? channels ≠ none := by decide +kernel
      have hframeRate : lookup? frameRate ≠ none := by decide +kernel
      exact ⟨fun heq => hchannels (heq ▸ hlookup), fun heq => hframeRate (heq ▸ hlookup)⟩

end PropertyKey

namespace Property

open PropertyKey

/-- A text is reported as it is. -/
theorem evaluate_of_isText (evaluator : Evaluator) (key value : Text) (h : IsText key) :
    evaluate evaluator (key.trimBy isControlOrSpace) value = .ok (reported key, value) := by
  unfold evaluate reported
  cases hlookup : lookup? (key.trimBy isControlOrSpace) with
  | none => rfl
  | some entry =>
      have hkind := h.kind entry.1 entry.2 hlookup
      rcases entry with ⟨name, kind⟩
      simp only at hkind
      rw [hkind]

theorem addTokens_of_isText (evaluator : Evaluator) (map : PropertyMap) (key value : Text)
    (hplain : IsPlain key) (htext : IsText key) :
    addTokens evaluator map [key ++ '=' :: value]
      = .ok (map.insert (reported key) (value.trimBy isControlOrSpace)) := by
  have hequals : '=' ∉ key := fun hmem => hplain.characters _ hmem (by decide)
  simp only [addTokens, ofToken?_append key value hequals hplain.nonempty,
    evaluate_of_isText evaluator key _ htext]

/-- Under any other than a numeric key the value is reported as it is. -/
theorem value_of_evaluate (evaluator : Evaluator) (key value name result : Text)
    (hname : name ≠ channels ∧ name ≠ frameRate)
    (h : evaluate evaluator key value = .ok (name, result)) : result = value := by
  -- A key with this name is not numeric, so nothing is computed.
  have hnumeric : ∀ kind, lookup? key = some (name, kind) → kind = .text := by
    intro kind hlookup
    by_contra hkind
    rcases lookup?_numeric key name kind hlookup hkind with heq | heq
    · exact hname.1 heq
    · exact hname.2 heq
  unfold evaluate at h
  split at h
  · rw [Except.ok.injEq, Prod.mk.injEq] at h
    exact h.2.symm
  · rw [Except.ok.injEq, Prod.mk.injEq] at h
    exact h.2.symm
  · rename_i found hlookup
    split at h
    · rw [Except.ok.injEq, Prod.mk.injEq] at h
      exact absurd (hnumeric _ (h.1 ▸ hlookup)) (by decide)
    · exact absurd h (by simp only [reduceCtorEq, not_false_eq_true])
  · rename_i found hlookup
    split at h
    · rw [Except.ok.injEq, Prod.mk.injEq] at h
      exact absurd (hnumeric _ (h.1 ▸ hlookup)) (by decide)
    · exact absurd h (by simp only [reduceCtorEq, not_false_eq_true])

/-- The value of a token is a part of it. -/
theorem mem_of_ofToken? (token key value : Text) (c : Char)
    (h : ofToken? token = some (key, value)) (hc : c ∈ value) : c ∈ token := by
  unfold ofToken? at h
  split at h
  · exact absurd h (by simp only [reduceCtorEq, not_false_eq_true])
  · rename_i before after hcut
    simp only at h
    split at h
    · exact absurd h (by simp only [reduceCtorEq, not_false_eq_true])
    · rw [Option.some.injEq, Prod.mk.injEq] at h
      rw [← h.2] at hc
      exact mem_of_cut? '=' c token before after hcut
        (mem_of_mem_trimBy isControlOrSpace c after hc)

/-- What no token holds is not in the value of such a key either, by induction on
    the tokens: one that sets the key sets it to a part of itself. -/
theorem addTokens_get?_clean (evaluator : Evaluator) (name : Text) (c : Char)
    (hname : name ≠ channels ∧ name ≠ frameRate) (tokens : List Text) (map final : PropertyMap)
    (htokens : ∀ token ∈ tokens, c ∉ token)
    (hmap : ∀ value, map.get? name = some value → c ∉ value)
    (h : addTokens evaluator map tokens = .ok final) :
    ∀ value, final.get? name = some value → c ∉ value := by
  induction tokens generalizing map with
  | nil =>
      rw [addTokens, Except.ok.injEq] at h
      rw [← h]
      exact hmap
  | cons token rest ih =>
      have hrest := fun next hnext => ih next (fun t ht => htokens t (List.mem_cons_of_mem _ ht))
        hnext
      rw [addTokens] at h
      cases htoken : ofToken? token with
      | none =>
          rw [htoken] at h
          exact hrest map hmap h
      | some property =>
          rcases property with ⟨key, value⟩
          rw [htoken] at h
          simp only at h
          cases hvalue : evaluate evaluator key value with
          | error error =>
              rw [hvalue] at h
              exact absurd h (by simp only [reduceCtorEq, not_false_eq_true])
          | ok result =>
              rcases result with ⟨found, reading⟩
              rw [hvalue] at h
              refine hrest _ (fun other hother => ?_) h
              rw [PropertyMap.get?_insert] at hother
              -- Either this token sets the key, to a part of itself, or the value was there
              -- before.
              by_cases hsame : name = found
              · rw [if_pos hsame, Option.some.injEq] at hother
                have hread := value_of_evaluate evaluator key value name reading hname
                  (hsame ▸ hvalue)
                rw [← hother, hread]
                exact fun hc => htokens token List.mem_cons_self
                  (mem_of_ofToken? token key value c htoken hc)
              · rw [if_neg hsame] at hother
                exact hmap other hother

end Property

end FileSignatures
