import FileSignatures.Proofs.Expression.Numerals
import FileSignatures.Proofs.Property.Tokens
import FileSignatures.Proofs.Text.Splitting
import FileSignatures.Template.Basic

/-!
# Which descriptions are accepted

A description is put together from the templates of several rules, with bytes of
the resource in them, and then cut into tokens again. Extraction fails if one of
the tokens is rejected. This module decides, for most descriptions, that none can
be, by reading them once from left to right.

What has been read is summed up by two things: how many brackets are open, and
the token that is being built. Of the token only what can still make a
difference is kept (`OpenToken`): its text as long as its key may become one of
the numeric ones, and nothing at all once it has another key.

`Accepts` is the meaning of such a state: with any token that fits it, the rest
of the description has no rejected token. Reading a character moves a state to
the next one, and meanings move the other way (`accepts_of_step?`). A place
where a decimal will stand is read like a character of a value.

## Main definitions

* `Accepts`: A rest of a description leads to no rejected token.
* `OpenToken`, `ScanState`: What is known about the text read so far.
* `OpenToken.Spells`: The texts that an open token stands for.
* `ScanState.step?`, `ScanState.run?`: Reading a character, and a text.
* `ScanState.fill?`, `ScanState.fillAll?`: Reading the segments of a template.

## Theorems

* `rejection?_of_spells`: An open token can end where it is.
* `accepts_of_step?`, `accepts_of_run?`: Reading is sound.
* `accepts_plain`: So is passing over a decimal.
* `accepts_of_fillAll?`: So is reading a template before it is filled.
* `ofDescription_ok_of_accepts`: A description that is accepted is extracted.
-/

namespace FileSignatures

/-- With `token` already read, the rest of a description, which begins inside of
    `depth` brackets, leads to no rejected token. -/
def Accepts (evaluator : Evaluator) (depth : Int) (token rest : Text) : Prop :=
  ∀ piece ∈ Text.pieces ';' (token ++ (Description.splitAt depth rest).2),
    Property.rejection? evaluator piece = none

/-- What is known about the token that is being read: its text, in which no
    equals sign has come yet, or that its key is no numeric one. -/
inductive OpenToken where
  | key (text : Text)
  | value
  deriving DecidableEq

/-- Whether a key, blanks around it aside, names a numeric property. -/
def Property.isNumericKey (key : Text) : Bool :=
  match PropertyKey.lookup? (key.trimBy isControlOrSpace) with
  | none => false
  | some (_, .text) => false
  | some (_, .integer) => true
  | some (_, .float) => true

/-- The texts that an open token stands for. -/
inductive OpenToken.Spells : OpenToken → Text → Prop
  | key (text : Text) (hequals : '=' ∉ text) (hseparator : ';' ∉ text) :
      Spells (.key text) text
  | value (key rest : Text) (hequals : '=' ∉ key) (hnumeric : Property.isNumericKey key = false)
      (hseparator : ';' ∉ key ++ '=' :: rest) :
      Spells .value (key ++ '=' :: rest)

/-- What is known after a part of a description has been read. -/
structure ScanState where
  depth : Int
  token : OpenToken
  deriving DecidableEq

namespace ScanState

/-- Outside of all brackets, with a token that has not begun. -/
def start : ScanState := ⟨0, .key []⟩

/-- The state after one more character. A closing bracket that closes no group
    of properties may separate tokens or not, depending on what follows, so there
    must be no token that it could cut. Numeric keys are not followed up. -/
def step? (state : ScanState) (c : Char) : Option ScanState :=
  if c = '[' then some ⟨state.depth + 1, state.token⟩
  else if c = ']' then
    if state.depth = 1 then some start
    else if state.token = .key [] then some ⟨state.depth - 1, .key []⟩
    else none
  else if state.depth ≤ 0 then some state
  else if c = ';' then some ⟨state.depth, .key []⟩
  else
    match state.token with
    | .value => some state
    | .key text =>
      if c = '=' then
        if Property.isNumericKey text then none else some ⟨state.depth, .value⟩
      else some ⟨state.depth, .key (text ++ [c])⟩

/-- The state after a text. -/
def run? (state : ScanState) : Text → Option ScanState
  | [] => some state
  | c :: rest => (state.step? c).bind fun next => run? next rest

end ScanState

/-- Without an equals sign a token is not rejected. -/
theorem rejection?_of_no_equals (evaluator : Evaluator) (token : Text) (h : '=' ∉ token) :
    Property.rejection? evaluator token = none := by
  simp only [Property.rejection?, Property.ofToken?, cut?_eq_none '=' token h]

/-- With a key that is not numeric it is not rejected either. -/
theorem rejection?_of_key (evaluator : Evaluator) (key rest : Text) (hequals : '=' ∉ key)
    (hnumeric : Property.isNumericKey key = false) :
    Property.rejection? evaluator (key ++ '=' :: rest) = none := by
  unfold Property.isNumericKey at hnumeric
  simp only [Property.rejection?, Property.ofToken?, cut?_append '=' key rest hequals]
  by_cases hempty : (key.trimBy isControlOrSpace).isEmpty = true
  · simp only [hempty, if_true]
  · -- Unknown keys and texts keep their values; the numeric ones are excluded.
    simp only [hempty, Bool.false_eq_true, if_false, Property.evaluate]
    cases hlookup : PropertyKey.lookup? (key.trimBy isControlOrSpace) with
    | none => rfl
    | some entry =>
        rcases entry with ⟨name, kind⟩
        rw [hlookup] at hnumeric
        cases kind with
        | text => rfl
        | integer => exact absurd hnumeric.symm Bool.false_ne_true
        | float => exact absurd hnumeric.symm Bool.false_ne_true

/-- An open token can end where it is. -/
theorem rejection?_of_spells (evaluator : Evaluator) (token : OpenToken) (text : Text)
    (h : token.Spells text) : Property.rejection? evaluator text = none := by
  cases h with
  | key _ hequals _ => exact rejection?_of_no_equals evaluator text hequals
  | value key rest hequals hnumeric _ =>
      exact rejection?_of_key evaluator key rest hequals hnumeric

theorem separator_notMem_of_spells (token : OpenToken) (text : Text) (h : token.Spells text) :
    ';' ∉ text := by
  cases h with
  | key _ _ hseparator => exact hseparator
  | value key rest _ _ hseparator => exact hseparator

section Reading

variable (evaluator : Evaluator) (depth : Int) (token rest : Text)

/-- An opening bracket is one more bracket. -/
theorem accepts_open_iff :
    Accepts evaluator depth token ('[' :: rest) ↔ Accepts evaluator (depth + 1) token rest :=
  Iff.rfl

/-- A separator in front ends the token. -/
theorem forall_pieces_separator_iff (h : ';' ∉ token) :
    (∀ piece ∈ Text.pieces ';' (token ++ ';' :: rest), Property.rejection? evaluator piece = none)
      ↔ Property.rejection? evaluator token = none
        ∧ ∀ piece ∈ Text.pieces ';' rest, Property.rejection? evaluator piece = none := by
  rw [pieces_append_separator ';' token rest h, List.forall_mem_cons]

/-- A closing bracket separates, or it is dropped. -/
theorem splitAt_close :
    (Description.splitAt depth (']' :: rest)).2
        = ';' :: (Description.splitAt (depth - 1) rest).2
      ∨ depth ≠ 1
        ∧ (Description.splitAt depth (']' :: rest)).2
          = (Description.splitAt (depth - 1) rest).2 := by
  obtain ⟨separates, hgroup, hsplit⟩ : ∃ separates : Bool, (depth = 1 → separates = true)
      ∧ (Description.splitAt depth (']' :: rest)).2
        = if separates = true then ';' :: (Description.splitAt (depth - 1) rest).2
          else (Description.splitAt (depth - 1) rest).2 := by
    -- Whether it separates depends on the next character, unless a group ends.
    refine ⟨_, fun hdepth => ?_, rfl⟩
    cases rest with
    | nil => rfl
    | cons next more => simp only [hdepth, decide_true, Bool.or_true]
  rw [hsplit]
  by_cases hseparates : separates = true
  · exact Or.inl (if_pos hseparates)
  · exact Or.inr ⟨fun hdepth => hseparates (hgroup hdepth), if_neg hseparates⟩

/-- The end of a group of properties ends the token. -/
theorem accepts_close_iff (h : ';' ∉ token) :
    Accepts evaluator 1 token (']' :: rest) ↔
      Property.rejection? evaluator token = none ∧ Accepts evaluator 0 [] rest := by
  unfold Accepts
  rcases splitAt_close 1 rest with hsplit | ⟨hdepth, -⟩
  · rw [hsplit, forall_pieces_separator_iff evaluator token _ h]
    rfl
  · exact absurd rfl hdepth

/-- Any other closing bracket cuts nothing where no token has begun. -/
theorem accepts_close_of_fresh (h : Accepts evaluator (depth - 1) [] rest) :
    Accepts evaluator depth [] (']' :: rest) := by
  unfold Accepts
  rcases splitAt_close depth rest with hsplit | ⟨-, hsplit⟩
  · rw [hsplit, forall_pieces_separator_iff evaluator [] _ List.not_mem_nil]
    exact ⟨rejection?_of_no_equals evaluator [] List.not_mem_nil, h⟩
  · rw [hsplit]
    exact h

/-- Outside of brackets a character is comment. -/
theorem accepts_comment_iff (c : Char) (hopen : c ≠ '[') (hclose : c ≠ ']') (hdepth : depth ≤ 0) :
    Accepts evaluator depth token (c :: rest) ↔ Accepts evaluator depth token rest := by
  unfold Accepts
  rw [Description.splitAt]
  · simp only [Int.not_lt.2 hdepth, if_false]
  · exact hopen
  · exact hclose

/-- Inside of brackets a character joins the token. -/
theorem accepts_character_iff (c : Char) (hopen : c ≠ '[') (hclose : c ≠ ']') (hdepth : 0 < depth) :
    Accepts evaluator depth token (c :: rest) ↔ Accepts evaluator depth (token ++ [c]) rest := by
  unfold Accepts
  rw [Description.splitAt]
  · simp only [hdepth, if_true, List.append_assoc, List.singleton_append]
  · exact hopen
  · exact hclose

/-- A separator inside of brackets ends the token. -/
theorem accepts_separator_iff (hdepth : 0 < depth) (h : ';' ∉ token) :
    Accepts evaluator depth token (';' :: rest) ↔
      Property.rejection? evaluator token = none ∧ Accepts evaluator depth [] rest := by
  unfold Accepts
  rw [Description.splitAt]
  · simp only [hdepth, if_true]
    rw [forall_pieces_separator_iff evaluator token _ h]
    rfl
  · decide
  · decide

end Reading

/-- Reading one character is sound. The cases are those of the step: brackets
    change the depth, comment changes nothing, and of the rest a separator ends the
    token, an equals sign its key. -/
theorem accepts_of_step? (evaluator : Evaluator) (state next : ScanState) (c : Char)
    (h : state.step? c = some next) (token rest : Text) (htoken : state.token.Spells token)
    (hnext : ∀ t, next.token.Spells t → Accepts evaluator next.depth t rest) :
    Accepts evaluator state.depth token (c :: rest) := by
  have hended := rejection?_of_spells evaluator state.token token htoken
  have hwhole := separator_notMem_of_spells state.token token htoken
  have hfresh : (OpenToken.key []).Spells [] := .key [] List.not_mem_nil List.not_mem_nil
  unfold ScanState.step? at h
  -- Brackets are characters of no token.
  by_cases hopen : c = '['
  · rw [if_pos hopen, Option.some.injEq] at h
    subst h hopen
    exact (accepts_open_iff evaluator state.depth token rest).2 (hnext token htoken)
  rw [if_neg hopen] at h
  by_cases hclose : c = ']'
  · rw [if_pos hclose] at h
    subst hclose
    by_cases hgroup : state.depth = 1
    · rw [if_pos hgroup, Option.some.injEq] at h
      subst h
      rw [hgroup]
      exact (accepts_close_iff evaluator token rest hwhole).2 ⟨hended, hnext [] hfresh⟩
    · -- This bracket may or may not separate, and there is nothing it could cut.
      rw [if_neg hgroup] at h
      by_cases hkey : state.token = .key []
      · rw [if_pos hkey, Option.some.injEq] at h
        subst h
        rw [hkey] at htoken
        cases htoken with
        | key _ _ _ => exact accepts_close_of_fresh evaluator state.depth rest (hnext [] hfresh)
      · rw [if_neg hkey] at h
        exact absurd h (by simp only [reduceCtorEq, not_false_eq_true])
  rw [if_neg hclose] at h
  by_cases hdepth : state.depth ≤ 0
  · rw [if_pos hdepth, Option.some.injEq] at h
    subst h
    exact (accepts_comment_iff evaluator state.depth token rest c hopen hclose hdepth).2
      (hnext token htoken)
  rw [if_neg hdepth] at h
  by_cases hseparator : c = ';'
  · rw [if_pos hseparator, Option.some.injEq] at h
    subst h hseparator
    exact (accepts_separator_iff evaluator state.depth token rest (Int.not_le.1 hdepth) hwhole).2
      ⟨hended, hnext [] hfresh⟩
  rw [if_neg hseparator] at h
  -- Every other character joins the token, which stays whole.
  refine (accepts_character_iff evaluator state.depth token rest c hopen hclose
    (Int.not_le.1 hdepth)).2 ?_
  have hlonger : ';' ∉ token ++ [c] := by
    rw [List.mem_append, List.mem_singleton, not_or]
    exact ⟨hwhole, fun heq => hseparator heq.symm⟩
  cases hstate : state.token with
  | value =>
      rw [hstate] at h htoken
      simp only [Option.some.injEq] at h
      subst h
      refine hnext _ (hstate ▸ ?_)
      cases htoken with
      | value key value hequals hnumeric _ =>
          rw [List.append_assoc, List.cons_append] at hlonger ⊢
          exact .value key (value ++ [c]) hequals hnumeric hlonger
  | key text =>
      rw [hstate] at h htoken
      cases htoken with
      | key _ hequals _ =>
          simp only at h
          by_cases heq : c = '='
          · rw [if_pos heq] at h
            by_cases hnumeric : Property.isNumericKey token = true
            · rw [if_pos hnumeric] at h
              exact absurd h (by simp only [reduceCtorEq, not_false_eq_true])
            · rw [if_neg hnumeric, Option.some.injEq] at h
              subst h heq
              -- The key is complete, and it is no numeric one.
              exact hnext _ (.value token [] hequals (Bool.eq_false_iff.2 hnumeric) hlonger)
          · rw [if_neg heq, Option.some.injEq] at h
            subst h
            refine hnext _ (.key _ ?_ hlonger)
            rw [List.mem_append, List.mem_singleton, not_or]
            exact ⟨hequals, fun h => heq h.symm⟩

/-- Reading a text is sound, by induction on it. -/
theorem accepts_of_run? (evaluator : Evaluator) (text : Text) (state next : ScanState)
    (h : state.run? text = some next) (token rest : Text) (htoken : state.token.Spells token)
    (hnext : ∀ t, next.token.Spells t → Accepts evaluator next.depth t rest) :
    Accepts evaluator state.depth token (text ++ rest) := by
  induction text generalizing state token with
  | nil =>
      rw [ScanState.run?, Option.some.injEq] at h
      subst h
      exact hnext token htoken
  | cons c text ih =>
      rw [ScanState.run?, Option.bind_eq_some_iff] at h
      rcases h with ⟨middle, hstep, hrun⟩
      exact accepts_of_step? evaluator state middle c hstep token (text ++ rest) htoken
        (fun t ht => ih middle hrun t ht)

namespace ScanState

/-- The state after a decimal, which must be comment or part of a value. -/
def passOver? (state : ScanState) : Option ScanState :=
  if state.depth ≤ 0 ∨ state.token = .value then some state else none

/-- The conversion that writes a number in decimal and nothing else. -/
def plainConversion : Conversion := ⟨false, false, false, false, false, none, none⟩

/-- The state after a segment of a template, once a number has been put into
    it. -/
def fill? (state : ScanState) : Segment → Option ScanState
  | .literal c => state.step? c
  | .percent => state.step? '%'
  | .conversion spec _ letter =>
    if spec = plainConversion ∧ letter = 'd' then state.passOver? else none
  | .unfinished _ => none

/-- The state after several segments. -/
def fillAll? (state : ScanState) : List Segment → Option ScanState
  | [] => some state
  | segment :: rest => (state.fill? segment).bind fun next => fillAll? next rest

end ScanState

/-- Text without brackets and separators can be passed over where a decimal
    can. -/
theorem accepts_plain (evaluator : Evaluator) (text : Text) (state : ScanState)
    (hplace : state.depth ≤ 0 ∨ state.token = .value)
    (hplain : ∀ c ∈ text, c ≠ '[' ∧ c ≠ ']' ∧ c ≠ ';') (token rest : Text)
    (htoken : state.token.Spells token)
    (hnext : ∀ t, state.token.Spells t → Accepts evaluator state.depth t rest) :
    Accepts evaluator state.depth token (text ++ rest) := by
  induction text generalizing token with
  | nil => exact hnext token htoken
  | cons c text ih =>
      have hc := hplain c List.mem_cons_self
      have hrest := fun t ht => ih (fun d hd => hplain d (List.mem_cons_of_mem _ hd)) t ht
      -- Outside of groups it is comment, inside it lengthens a value that may be anything.
      by_cases hdepth : state.depth ≤ 0
      · exact (accepts_comment_iff evaluator state.depth token _ c hc.1 hc.2.1 hdepth).2
          (hrest token htoken)
      · have hvalue : state.token = .value := hplace.resolve_left hdepth
        refine (accepts_character_iff evaluator state.depth token _ c hc.1 hc.2.1
          (Int.not_le.1 hdepth)).2 (hrest _ ?_)
        rw [hvalue] at htoken ⊢
        cases htoken with
        | value key value hequals hnumeric hseparator =>
            rw [List.append_assoc, List.cons_append]
            refine .value key (value ++ [c]) hequals hnumeric ?_
            simp only [List.mem_append, List.mem_cons, List.not_mem_nil, or_false, not_or]
              at hseparator ⊢
            exact ⟨hseparator.1, hseparator.2.1, hseparator.2.2, fun heq => hc.2.2 heq.symm⟩

/-- What a plain conversion writes: a minus sign where needed, and digits. -/
theorem fill_plainConversion (raw : Text) (n : Int64) :
    Segment.fill (.number n) (.conversion ScanState.plainConversion raw 'd')
      = (if n < 0 then ['-'] else []) ++ Text.ofNat n.toInt.natAbs := by
  unfold Segment.fill Conversion.convert? Conversion.integerParts?
  simp only [ScanState.plainConversion, Conversion.sign, Conversion.withLeadingZeros,
    Conversion.pad, Option.getD_none, Nat.zero_sub, List.replicate_zero, List.nil_append,
    Option.map_some, Option.getD_some, Bool.false_eq_true, if_false, Bool.false_and,
    decide_eq_true_eq]

/-- A text without brackets and separators, told by going through it. -/
theorem plain_of_all (text : Text)
    (h : (text.all fun c => c != '[' && c != ']' && c != ';') = true) :
    ∀ c ∈ text, c ≠ '[' ∧ c ≠ ']' ∧ c ≠ ';' := by
  intro c hc
  have hplain := List.all_eq_true.1 h c hc
  simp only [Bool.and_eq_true, bne_iff_ne] at hplain
  exact ⟨hplain.1.1, hplain.1.2, hplain.2⟩

theorem plain_of_isDigit (c : Char) (h : isDigit c = true) : c ≠ '[' ∧ c ≠ ']' ∧ c ≠ ';' := by
  refine ⟨?_, ?_, ?_⟩ <;>
    · rintro rfl
      exact absurd h (by decide)

theorem plain_of_mem_decimal (n : Int64) (c : Char)
    (h : c ∈ (if n < 0 then ['-'] else []) ++ Text.ofNat n.toInt.natAbs) :
    c ≠ '[' ∧ c ≠ ']' ∧ c ≠ ';' := by
  rcases List.mem_append.1 h with hsign | hdigit
  · split at hsign
    · rw [List.mem_singleton.1 hsign]
      decide
    · exact absurd hsign List.not_mem_nil
  · exact plain_of_isDigit c (isDigit_of_mem_ofNat _ c hdigit)

/-- Reading a segment of a template is sound for the number that is put into
    it. -/
theorem accepts_of_fill? (evaluator : Evaluator) (n : Int64) (segment : Segment)
    (state next : ScanState) (h : state.fill? segment = some next) (token rest : Text)
    (htoken : state.token.Spells token)
    (hnext : ∀ t, next.token.Spells t → Accepts evaluator next.depth t rest) :
    Accepts evaluator state.depth token (Segment.fill (.number n) segment ++ rest) := by
  -- Only a plain decimal conversion is passed over; the other ones are given up.
  cases segment with
  | literal c => exact accepts_of_step? evaluator state next c h token rest htoken hnext
  | percent => exact accepts_of_step? evaluator state next '%' h token rest htoken hnext
  | unfinished raw =>
      exact absurd h (by simp only [ScanState.fill?, reduceCtorEq, not_false_eq_true])
  | conversion spec raw letter =>
      simp only [ScanState.fill?] at h
      split at h
      · rename_i hplain
        rcases hplain with ⟨rfl, rfl⟩
        unfold ScanState.passOver? at h
        split at h
        · rename_i hplace
          rw [Option.some.injEq] at h
          subst h
          rw [fill_plainConversion]
          exact accepts_plain evaluator _ state hplace (plain_of_mem_decimal n) token rest htoken
            hnext
        · exact absurd h (by simp only [reduceCtorEq, not_false_eq_true])
      · exact absurd h (by simp only [reduceCtorEq, not_false_eq_true])

/-- Reading a whole template is sound for the number that is put into it. -/
theorem accepts_of_fillAll? (evaluator : Evaluator) (n : Int64) (segments : List Segment)
    (state next : ScanState) (h : state.fillAll? segments = some next) (token rest : Text)
    (htoken : state.token.Spells token)
    (hnext : ∀ t, next.token.Spells t → Accepts evaluator next.depth t rest) :
    Accepts evaluator state.depth token
      (segments.flatMap (Segment.fill (.number n)) ++ rest) := by
  induction segments generalizing state token with
  | nil =>
      rw [ScanState.fillAll?, Option.some.injEq] at h
      subst h
      exact hnext token htoken
  | cons segment segments ih =>
      rw [ScanState.fillAll?, Option.bind_eq_some_iff] at h
      rcases h with ⟨middle, hfill, hrun⟩
      rw [List.flatMap_cons, List.append_assoc]
      exact accepts_of_fill? evaluator n segment state middle hfill token _ htoken
        (fun t ht => ih middle hrun t ht)

/-- The end of the description ends the token. -/
theorem accepts_nil_of_spells (evaluator : Evaluator) (depth : Int) (state : OpenToken)
    (token : Text) (h : state.Spells token) : Accepts evaluator depth token [] := by
  intro piece hpiece
  have hwhole := separator_notMem_of_spells state token h
  rw [Description.splitAt, List.append_nil, pieces_eq_singleton ';' token hwhole,
    List.mem_singleton] at hpiece
  rw [hpiece]
  exact rejection?_of_spells evaluator state token h

/-- Inside of brackets, text without brackets and separators joins the token. -/
theorem accepts_join (evaluator : Evaluator) (depth : Int) (token text rest : Text)
    (hdepth : 0 < depth) (hplain : ∀ c ∈ text, c ≠ '[' ∧ c ≠ ']' ∧ c ≠ ';')
    (h : Accepts evaluator depth (token ++ text) rest) :
    Accepts evaluator depth token (text ++ rest) := by
  induction text generalizing token with
  | nil =>
      rw [List.append_nil] at h
      exact h
  | cons c text ih =>
      have hc := hplain c List.mem_cons_self
      -- One character at a time moves over to the token.
      refine (accepts_character_iff evaluator depth token _ c hc.1 hc.2.1 hdepth).2
        (ih _ (fun d hd => hplain d (List.mem_cons_of_mem _ hd)) ?_)
      rw [List.append_assoc, List.singleton_append]
      exact h

/-- A group of properties that is a single token is accepted if the token is. -/
theorem accepts_group (evaluator : Evaluator) (body rest : Text)
    (hplain : ∀ c ∈ body, c ≠ '[' ∧ c ≠ ']' ∧ c ≠ ';')
    (hbody : Property.rejection? evaluator body = none) (hrest : Accepts evaluator 0 [] rest) :
    Accepts evaluator 0 [] ('[' :: body ++ ']' :: rest) := by
  have hwhole : ';' ∉ body := fun hmem => (hplain ';' hmem).2.2 rfl
  refine (accepts_open_iff evaluator 0 [] _).2
    (accepts_join evaluator 1 [] body _ (by omega) hplain ?_)
  exact (accepts_close_iff evaluator body rest hwhole).2 ⟨hbody, hrest⟩

/-- A description that is accepted from the start is extracted. -/
theorem ofDescription_ok_of_accepts (evaluator : Evaluator) (description : Text)
    (h : Accepts evaluator 0 [] description) (error : BadNumber) :
    Extraction.ofDescription evaluator description ≠ .error error := by
  intro hfails
  rw [ofDescription_eq_error_iff] at hfails
  rcases List.exists_of_findSome?_eq_some hfails with ⟨token, hmem, hrejected⟩
  have haccepted : Property.rejection? evaluator token = none := by
    unfold Description.tokens Description.split at hmem
    split at hmem
    · exact h token hmem
    · -- Without a bracket there is no property text, which is one empty token.
      rw [pieces_eq_singleton ';' _ List.not_mem_nil, List.mem_singleton] at hmem
      rw [hmem]
      exact rejection?_of_no_equals evaluator [] List.not_mem_nil
  rw [haccepted] at hrejected
  exact absurd hrejected (by simp only [reduceCtorEq, not_false_eq_true])

end FileSignatures
