import FileSignatures.Proofs.Json.Tokens
import Mathlib.Data.List.DropRight

/-!
# Documents that are written

A document is read back from every text that writes it. Between the tokens of such a text
blanks may stand, in any number, so this covers a document without blanks as well as one
with one member or element a line.

Reading a document spends fuel on what is inside of it and on what comes after it. The text
of a document is longer than that of anything inside, so its length is fuel enough
(`readValue?_of_writes`); this is the invariant of the induction on the document. A number
also needs something behind it that does not continue it, which a document inside of
another one always has: a blank, a comma or a closing bracket.

## Main definitions

* `Json.AreSpaces`: Blanks between tokens.
* `Json.Writes`: A text that writes a document.
* `Json.IsText`: Such a text with blanks around it.

## Theorems

* `readValue?_of_writes`, `readElements?_of_writes`, `readMembers?_of_writes`: What is
  written is read back, up to its end.
* `ofText?_of_isText`: A text of a document is read as the document.
-/

namespace FileSignatures

namespace Json

/-- Blanks as they may stand between tokens. -/
def AreSpaces (t : Text) : Prop :=
  ∀ c ∈ t, isSpace c = true

mutual

/-- A text writes a document. -/
def Writes : Json → Text → Prop
  | null, t => t = "null".toList
  | bool true, t => t = "true".toList
  | bool false, t => t = "false".toList
  | integer n, t => t = Text.ofInt n
  | fraction spelling, t => IsFraction spelling ∧ t = spelling
  | string s, t => t = quote s
  | array elements, t => ∃ body, WritesElements elements body ∧ t = '[' :: body
  | object members, t => ∃ body, WritesMembers members body ∧ t = '{' :: body

/-- A text writes elements and the closing bracket, with a comma behind all but the last. -/
def WritesElements : List Json → Text → Prop
  | [], t => ∃ blanks, AreSpaces blanks ∧ t = blanks ++ [']']
  | element :: rest, t => ∃ before own after more,
    AreSpaces before ∧ AreSpaces after ∧ Writes element own
      ∧ t = before ++ (own ++ (after ++ more))
      ∧ ((rest = [] ∧ more = [']'])
        ∨ (rest ≠ [] ∧ ∃ others, WritesElements rest others ∧ more = ',' :: others))

/-- A text writes members and the closing brace, with a comma behind all but the last. -/
def WritesMembers : List (Text × Json) → Text → Prop
  | [], t => ∃ blanks, AreSpaces blanks ∧ t = blanks ++ ['}']
  | (key, value) :: rest, t => ∃ before inner outer own after more,
    AreSpaces before ∧ AreSpaces inner ∧ AreSpaces outer ∧ AreSpaces after
      ∧ Writes value own
      ∧ t = before ++ (quote key ++ (inner ++ ':' :: (outer ++ (own ++ (after ++ more)))))
      ∧ ((rest = [] ∧ more = ['}'])
        ∨ (rest ≠ [] ∧ ∃ others, WritesMembers rest others ∧ more = ',' :: others))

end

section Blanks

theorem areSpaces_nil : AreSpaces [] :=
  fun _ hc => absurd hc List.not_mem_nil

theorem skipSpace_append (blanks rest : Text) (h : AreSpaces blanks) :
    skipSpace (blanks ++ rest) = skipSpace rest :=
  List.dropWhile_append_of_pos h

theorem skipSpace_cons (c : Char) (rest : Text) (h : isSpace c = false) :
    skipSpace (c :: rest) = c :: rest :=
  List.dropWhile_cons_of_neg (Bool.eq_false_iff.1 h)

theorem skipSpace_token (blanks rest : Text) (c : Char) (hblanks : AreSpaces blanks)
    (h : isSpace c = false) : skipSpace (blanks ++ c :: rest) = c :: rest := by
  rw [skipSpace_append blanks _ hblanks, skipSpace_cons c rest h]

/-- A number ends at blanks and at what closes or separates. -/
theorem stops_of_token (blanks rest : Text) (c : Char) (hblanks : AreSpaces blanks)
    (h : continuesNumber c = false) : Text.Stops continuesNumber (blanks ++ c :: rest) := by
  have hspace : ∀ d, isSpace d = true → continuesNumber d = false := by
    intro d hd
    simp only [isSpace, Bool.or_eq_true, decide_eq_true_eq] at hd
    rcases hd with ((rfl | rfl) | rfl) | rfl <;> decide
  refine Text.stops_append _ blanks _ ?_ fun _ d hd => ?_
  · intro d hd
    exact hspace d (hblanks d (List.mem_of_mem_head? hd))
  · rw [← Option.some.inj hd]
    exact h

end Blanks

section Starts

/-- Numbers begin with a digit or a minus sign. -/
def StartsNumber (t : Text) : Prop :=
  ∃ c rest, t = c :: rest ∧ (c = '-' ∨ isDigit c = true)

theorem startsNumber_of_isFraction (spelling : Text) (h : IsFraction spelling) :
    StartsNumber spelling := by
  cases h with
  | mk negative whole places exponent hwhole _ _ _ =>
      cases negative with
      | true => exact ⟨'-', _, rfl, Or.inl rfl⟩
      | false =>
          obtain ⟨c, rest, rfl⟩ := List.exists_cons_of_ne_nil hwhole.1.1
          exact ⟨c, _, rfl, Or.inr (hwhole.1.2 c List.mem_cons_self)⟩

/-- What begins a number is no blank and begins nothing else. -/
theorem notMem_of_startsNumber (c : Char) (h : c = '-' ∨ isDigit c = true) :
    isSpace c = false ∧ c ∉ ['n', 't', 'f', '"', '[', '{', ']'] := by
  have hother : ∀ d ∈ [' ', '\t', '\n', '\r', 'n', 't', 'f', '"', '[', '{', ']'], c ≠ d := by
    rintro d hd rfl
    -- None of these is a minus or a digit, which is checked one by one.
    have hnone : [' ', '\t', '\n', '\r', 'n', 't', 'f', '"', '[', '{', ']'].all
        (fun d => d ≠ '-' && !isDigit d) = true := by decide
    have hc := List.all_eq_true.1 hnone c hd
    rw [Bool.and_eq_true, decide_eq_true_eq, Bool.not_eq_true'] at hc
    rcases h with hminus | hdigit
    · exact hc.1 hminus
    · exact absurd hdigit (by rw [hc.2]; decide)
  refine ⟨?_, fun hmem => hother c (List.mem_append_right [' ', '\t', '\n', '\r'] hmem) rfl⟩
  simp only [isSpace, Bool.or_eq_false_iff, decide_eq_false_iff_not]
  exact ⟨⟨⟨hother ' ' (by decide), hother '\t' (by decide)⟩, hother '\n' (by decide)⟩,
    hother '\r' (by decide)⟩

/-- A document begins with a character that is no blank and closes nothing. -/
theorem exists_cons_of_writes (document : Json) (t : Text) (h : document.Writes t) :
    ∃ c rest, t = c :: rest ∧ isSpace c = false ∧ c ≠ ']' := by
  -- Numbers begin with a digit or a minus, all the rest with a mark of its own.
  have hnumber : StartsNumber t → ∃ c rest, t = c :: rest ∧ isSpace c = false ∧ c ≠ ']' := by
    rintro ⟨c, rest, rfl, hc⟩
    obtain ⟨hspace, hother⟩ := notMem_of_startsNumber c hc
    exact ⟨c, rest, rfl, hspace, fun heq => hother (by rw [heq]; decide)⟩
  cases document with
  | null =>
      rw [Writes] at h
      exact ⟨'n', _, h, by decide, by decide⟩
  | bool b =>
      cases b with
      | true =>
          rw [Writes] at h
          exact ⟨'t', _, h, by decide, by decide⟩
      | false =>
          rw [Writes] at h
          exact ⟨'f', _, h, by decide, by decide⟩
  | integer n =>
      rw [Writes] at h
      exact hnumber (h ▸ ofInt_eq_cons n)
  | fraction spelling =>
      rw [Writes] at h
      exact hnumber (h.2 ▸ startsNumber_of_isFraction spelling h.1)
  | string s =>
      rw [Writes] at h
      exact ⟨'"', _, h, by decide, by decide⟩
  | array elements =>
      rw [Writes] at h
      obtain ⟨body, -, rfl⟩ := h
      exact ⟨'[', body, rfl, by decide, by decide⟩
  | object members =>
      rw [Writes] at h
      obtain ⟨body, -, rfl⟩ := h
      exact ⟨'{', body, rfl, by decide, by decide⟩

end Starts

section Reading

variable (fuel : Nat) (t rest : Text)

theorem readWord?_append (word : Text) (value : Json) :
    readWord? word value (word ++ rest) = some (value, rest) := by
  have hprefix : word.isPrefixOf (word ++ rest) = true :=
    List.isPrefixOf_iff_prefix.2 (List.prefix_append word rest)
  rw [readWord?, Text.dropStart?, if_pos hprefix, List.drop_left]
  rfl

/-- What begins like a number is read as one. -/
theorem readValue?_of_number (c : Char) (hc : c = '-' ∨ isDigit c = true)
    (h : skipSpace t = c :: rest) : readValue? (fuel + 1) t = readNumber? (c :: rest) := by
  obtain ⟨-, hother⟩ := notMem_of_startsNumber c hc
  simp only [List.mem_cons, List.not_mem_nil, or_false, not_or] at hother
  obtain ⟨hn, ht, hf, hquote, hbracket, hbrace, -⟩ := hother
  rw [readValue?, h]
  -- Each other kind of value begins with a character that no number begins with.
  split
  · rename_i heq
    exact absurd (List.cons.inj heq).1 hn
  · rename_i heq
    exact absurd (List.cons.inj heq).1 ht
  · rename_i heq
    exact absurd (List.cons.inj heq).1 hf
  · rename_i heq
    exact absurd (List.cons.inj heq).1 hquote
  · rename_i heq
    exact absurd (List.cons.inj heq).1 hbracket
  · rename_i heq
    exact absurd (List.cons.inj heq).1 hbrace
  · rfl

theorem readElements?_skipSpace : readElements? fuel (skipSpace t) = readElements? fuel t := by
  have hskip : skipSpace (skipSpace t) = skipSpace t := List.dropWhile_idempotent isSpace t
  cases fuel with
  | zero => rfl
  | succ fuel =>
      have hvalue : readValue? fuel (skipSpace t) = readValue? fuel t := by
        cases fuel with
        | zero => rfl
        | succ fuel => rw [readValue?, readValue?, hskip]
      rw [readElements?, readElements?, hvalue]

theorem readMembers?_skipSpace : readMembers? fuel (skipSpace t) = readMembers? fuel t := by
  have hskip : skipSpace (skipSpace t) = skipSpace t := List.dropWhile_idempotent isSpace t
  cases fuel with
  | zero => rfl
  | succ fuel => rw [readMembers?, readMembers?, hskip]

/-- An array that is not closed at once has elements. -/
theorem readValue?_of_elements (body : Text) (h : skipSpace t = '[' :: body)
    (hopen : (skipSpace body).head? ≠ some ']') :
    readValue? (fuel + 1) t
      = (readElements? fuel body).map fun (elements, rest) => (.array elements, rest) := by
  rw [readValue?, h]
  simp only
  split
  · rename_i heq
    rw [heq] at hopen
    exact absurd rfl hopen
  · rw [readElements?_skipSpace]

/-- An object that is not closed at once has members. -/
theorem readValue?_of_members (body : Text) (h : skipSpace t = '{' :: body)
    (hopen : (skipSpace body).head? ≠ some '}') :
    readValue? (fuel + 1) t
      = (readMembers? fuel body).map fun (members, rest) => (.object members, rest) := by
  rw [readValue?, h]
  simp only
  split
  · rename_i heq
    rw [heq] at hopen
    exact absurd rfl hopen
  · rw [readMembers?_skipSpace]

end Reading

/-- Elements do not begin with what closes an array. -/
theorem head?_of_writesElements (element : Json) (others : List Json) (t rest : Text)
    (h : WritesElements (element :: others) t) : (skipSpace (t ++ rest)).head? ≠ some ']' := by
  rw [WritesElements] at h
  obtain ⟨before, own, after, more, hbefore, -, hown, rfl, -⟩ := h
  obtain ⟨c, tail, rfl, hspace, hc⟩ := exists_cons_of_writes element own hown
  rw [List.append_assoc, List.cons_append, List.cons_append, skipSpace_token _ _ c hbefore hspace,
    List.head?_cons, ne_eq, Option.some.injEq]
  exact hc

theorem skipSpace_quote (before key more : Text) (hbefore : AreSpaces before) :
    skipSpace (before ++ (quote key ++ more))
      = '"' :: (key.flatMap escapeChar ++ '"' :: more) := by
  have hquote : quote key ++ more = '"' :: (key.flatMap escapeChar ++ '"' :: more) := by
    rw [quote, List.cons_append, List.append_assoc, List.singleton_append]
  rw [hquote, skipSpace_token before _ '"' hbefore (by decide)]

/-- Members do not begin with what closes an object. -/
theorem head?_of_writesMembers (member : Text × Json) (others : List (Text × Json)) (t rest : Text)
    (h : WritesMembers (member :: others) t) : (skipSpace (t ++ rest)).head? ≠ some '}' := by
  rw [WritesMembers] at h
  obtain ⟨before, inner, outer, own, after, more, hbefore, -, -, -, -, rfl, -⟩ := h
  rw [List.append_assoc, List.append_assoc, skipSpace_quote before member.1 _ hbefore,
    List.head?_cons, ne_eq, Option.some.injEq]
  decide

mutual

/-- What is written is read back, up to its end, by induction on the document. -/
theorem readValue?_of_writes : (document : Json) → (t : Text) → document.Writes t →
    (fuel : Nat) → t.length < fuel → (before rest : Text) → AreSpaces before →
    rest.Stops continuesNumber →
    readValue? fuel (before ++ (t ++ rest)) = some (document, rest)
  | _, t, _, 0, hfuel, _, _, _, _ => absurd hfuel (Nat.not_lt_zero _)
  | null, t, h, fuel + 1, _, before, rest, hbefore, _ => by
      rw [Writes] at h
      subst h
      have hskip : skipSpace (before ++ ("null".toList ++ rest)) = 'n' :: ("ull".toList ++ rest) :=
        skipSpace_token before ("ull".toList ++ rest) 'n' hbefore (by decide)
      rw [readValue?, hskip]
      exact readWord?_append rest "ull".toList .null
  | bool true, t, h, fuel + 1, _, before, rest, hbefore, _ => by
      rw [Writes] at h
      subst h
      have hskip : skipSpace (before ++ ("true".toList ++ rest)) = 't' :: ("rue".toList ++ rest) :=
        skipSpace_token before ("rue".toList ++ rest) 't' hbefore (by decide)
      rw [readValue?, hskip]
      exact readWord?_append rest "rue".toList (.bool true)
  | bool false, t, h, fuel + 1, _, before, rest, hbefore, _ => by
      rw [Writes] at h
      subst h
      have hskip : skipSpace (before ++ ("false".toList ++ rest))
          = 'f' :: ("alse".toList ++ rest) :=
        skipSpace_token before ("alse".toList ++ rest) 'f' hbefore (by decide)
      rw [readValue?, hskip]
      exact readWord?_append rest "alse".toList (.bool false)
  | integer n, t, h, fuel + 1, _, before, rest, hbefore, hrest => by
      rw [Writes] at h
      subst h
      obtain ⟨c, tail, heq, hc⟩ := ofInt_eq_cons n
      have hskip := skipSpace_token before (tail ++ rest) c hbefore (notMem_of_startsNumber c hc).1
      have hread := readNumber?_ofInt rest hrest n
      -- The reader looks at the first character before it reads a number from there.
      rw [heq, List.cons_append] at hread ⊢
      rw [readValue?_of_number fuel _ _ c hc hskip, hread]
  | fraction spelling, t, h, fuel + 1, _, before, rest, hbefore, hrest => by
      rw [Writes] at h
      obtain ⟨hfraction, rfl⟩ := h
      obtain ⟨c, tail, heq, hc⟩ := startsNumber_of_isFraction t hfraction
      have hskip := skipSpace_token before (tail ++ rest) c hbefore (notMem_of_startsNumber c hc).1
      have hread := readNumber?_of_isFraction rest hrest t hfraction
      subst heq
      rw [List.cons_append] at hread ⊢
      rw [readValue?_of_number fuel _ _ c hc hskip, hread]
  | string s, t, h, fuel + 1, _, before, rest, hbefore, _ => by
      rw [Writes] at h
      subst h
      rw [readValue?, skipSpace_quote before s rest hbefore]
      simp only [readString_quote, Option.map_some]
  | array [], t, h, fuel + 1, _, before, rest, hbefore, _ => by
      rw [Writes] at h
      obtain ⟨body, hbody, rfl⟩ := h
      rw [WritesElements] at hbody
      obtain ⟨blanks, hblanks, rfl⟩ := hbody
      rw [readValue?, List.cons_append, skipSpace_token before _ '[' hbefore (by decide),
        List.append_assoc]
      simp only [List.singleton_append, skipSpace_token blanks rest ']' hblanks (by decide)]
  | array (element :: others), t, h, fuel + 1, hfuel, before, rest, hbefore, _ => by
      rw [Writes] at h
      obtain ⟨body, hbody, rfl⟩ := h
      -- The bracket pays for the descent: the body is shorter by one character.
      rw [List.length_cons] at hfuel
      have hskip := skipSpace_token before (body ++ rest) '[' hbefore (by decide)
      have hread := readElements?_of_writes (element :: others) body hbody
        (List.cons_ne_nil _ _) fuel (by omega) rest
      rw [List.cons_append, readValue?_of_elements fuel _ (body ++ rest) hskip
        (head?_of_writesElements element others body rest hbody), hread]
      rfl
  | object [], t, h, fuel + 1, _, before, rest, hbefore, _ => by
      rw [Writes] at h
      obtain ⟨body, hbody, rfl⟩ := h
      rw [WritesMembers] at hbody
      obtain ⟨blanks, hblanks, rfl⟩ := hbody
      rw [readValue?, List.cons_append, skipSpace_token before _ '{' hbefore (by decide),
        List.append_assoc]
      simp only [List.singleton_append, skipSpace_token blanks rest '}' hblanks (by decide)]
  | object ((key, value) :: others), t, h, fuel + 1, hfuel, before, rest, hbefore, _ => by
      rw [Writes] at h
      obtain ⟨body, hbody, rfl⟩ := h
      rw [List.length_cons] at hfuel
      have hskip := skipSpace_token before (body ++ rest) '{' hbefore (by decide)
      have hread := readMembers?_of_writes ((key, value) :: others) body hbody
        (List.cons_ne_nil _ _) fuel (by omega) rest
      rw [List.cons_append, readValue?_of_members fuel _ (body ++ rest) hskip
        (head?_of_writesMembers (key, value) others body rest hbody), hread]
      rfl

/-- Elements are read back with the bracket behind them, by induction on the list. -/
theorem readElements?_of_writes : (elements : List Json) → (t : Text) →
    WritesElements elements t → elements ≠ [] → (fuel : Nat) → t.length < fuel →
    (rest : Text) → readElements? fuel (t ++ rest) = some (elements, rest)
  | [], _, _, hne, _, _, _ => absurd rfl hne
  | _ :: _, _, _, _, 0, hfuel, _ => absurd hfuel (Nat.not_lt_zero _)
  | element :: others, t, h, _, fuel + 1, hfuel, rest => by
      rw [WritesElements] at h
      obtain ⟨before, own, after, more, hbefore, hafter, hown, rfl, hmore⟩ := h
      simp only [List.length_append] at hfuel
      simp only [List.append_assoc]
      rcases hmore with ⟨rfl, rfl⟩ | ⟨hne, next, hnext, rfl⟩
      · -- The value stops at the bracket, or else at the comma before the others.
        have hvalue := readValue?_of_writes element own hown fuel
          (by simp only [List.length_cons] at hfuel; omega) before (after ++ ']' :: rest) hbefore
          (stops_of_token after rest ']' hafter (by decide))
        rw [readElements?, List.singleton_append, hvalue]
        simp only [Option.bind_eq_bind, Option.bind_some,
          skipSpace_token after rest ']' hafter (by decide)]
        rfl
      · rw [List.length_cons] at hfuel
        have hvalue := readValue?_of_writes element own hown fuel (by omega) before
          (after ++ ',' :: (next ++ rest)) hbefore (stops_of_token after _ ',' hafter (by decide))
        have hothers := readElements?_of_writes others next hnext hne fuel (by omega) rest
        rw [readElements?, List.cons_append, hvalue]
        simp only [Option.bind_eq_bind, Option.bind_some,
          skipSpace_token after (next ++ rest) ',' hafter (by decide), hothers]
        rfl

/-- Members are read back with the brace behind them, by induction on the list. -/
theorem readMembers?_of_writes : (members : List (Text × Json)) → (t : Text) →
    WritesMembers members t → members ≠ [] → (fuel : Nat) → t.length < fuel →
    (rest : Text) → readMembers? fuel (t ++ rest) = some (members, rest)
  | [], _, _, hne, _, _, _ => absurd rfl hne
  | _ :: _, _, _, _, 0, hfuel, _ => absurd hfuel (Nat.not_lt_zero _)
  | (key, value) :: others, t, h, _, fuel + 1, hfuel, rest => by
      rw [WritesMembers] at h
      obtain ⟨before, inner, outer, own, after, more, hbefore, hinner, houter, hafter, hown, rfl,
        hmore⟩ := h
      simp only [List.length_append, List.length_cons] at hfuel
      simp only [List.append_assoc, List.cons_append]
      -- The key and its colon are read before it matters what is behind the value.
      rw [readMembers?, skipSpace_quote before key _ hbefore]
      simp only [readString_quote, Option.bind_eq_bind, Option.bind_some]
      rw [skipSpace_token inner _ ':' hinner (by decide)]
      simp only
      rcases hmore with ⟨rfl, rfl⟩ | ⟨hne, next, hnext, rfl⟩
      · have hvalue := readValue?_of_writes value own hown fuel (by omega) outer
          (after ++ '}' :: rest) houter (stops_of_token after rest '}' hafter (by decide))
        rw [List.singleton_append, hvalue]
        simp only [Option.bind_some, skipSpace_token after rest '}' hafter (by decide)]
        rfl
      · rw [List.length_cons] at hfuel
        have hvalue := readValue?_of_writes value own hown fuel (by omega) outer
          (after ++ ',' :: (next ++ rest)) houter (stops_of_token after _ ',' hafter (by decide))
        have hothers := readMembers?_of_writes others next hnext hne fuel (by omega) rest
        rw [List.cons_append, hvalue]
        simp only [Option.bind_some, skipSpace_token after (next ++ rest) ',' hafter (by decide),
          hothers]
        rfl

end

/-- A text of a document: what writes it, with blanks around it. -/
def IsText (document : Json) (t : Text) : Prop :=
  ∃ before own after, AreSpaces before ∧ AreSpaces after ∧ document.Writes own
    ∧ t = before ++ (own ++ after)

theorem isText_of_writes (document : Json) (t : Text) (h : document.Writes t) :
    document.IsText t :=
  ⟨[], t, [], areSpaces_nil, areSpaces_nil, h, (List.append_nil t).symm⟩

/-- A text of a document is read as the document. -/
theorem ofText?_of_isText (document : Json) (t : Text) (h : document.IsText t) :
    ofText? t = some document := by
  obtain ⟨before, own, after, hbefore, hafter, hown, rfl⟩ := h
  -- At the end of the text nothing continues a number either.
  have hstop : after.Stops continuesNumber := by
    intro c hc
    have hspace := hafter c (List.mem_of_mem_head? hc)
    have hfirst := stops_of_token [c] [] ',' (List.forall_mem_singleton.2 hspace) (by decide)
    exact hfirst c rfl
  have hlength : own.length < (before ++ (own ++ after)).length + 1 := by
    simp only [List.length_append]
    omega
  have hrest : skipSpace after = [] := List.dropWhile_eq_nil_iff.2 hafter
  unfold ofText?
  rw [readValue?_of_writes document own hown _ hlength before after hbefore hstop]
  simp only [hrest, List.isEmpty_nil, if_true]

end Json

end FileSignatures
