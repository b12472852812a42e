import FileSignatures.Proofs.Database.RuleShape
import FileSignatures.Proofs.Text.Splitting
import Mathlib.Data.List.Forall2

/-!
# Reading order

A rule set is read like the text that it comes from: one signature after the
other, each head before its sub-rules, and the sub-rules of both kinds in the
order of their lines. This module says that a database text and the reading order
of its rule set determine each other.

A database is read line by line into a draft, whose last signature is still
open. A line that comes after all lines of a draft is appended to its reading
order, whether it opens a signature or joins one as either kind of sub-rule
(`entries_add?`); so a draft is read in the order in which it was built. Building
a draft from the reading order of some signatures gives these signatures back,
whatever their line numbers are (`addAll?_entries`).

`ofText_eq_ok_iff` puts both together: a text is a database with certain rules
exactly if it begins with the header and every rule line denotes, by itself, the
rule that stands at its place in the reading order.

## Main definitions

* `Signature.subRules`, `Signature.entries`: The rules of a signature in order.
* `RuleSet.entries`: The rules of a rule set in order.
* `Database.Draft.addAll?`: A draft with several more rules.
* `Database.ruleLines`: The lines of a text that are rules.
* `Database.Denotes`: A numbered line denotes a rule of a kind.
* `Database.HasHeader`: The first three lines are a header.

## Theorems

* `filter_merge`: A merge holds both of its lists.
* `merge_append_left`, `merge_append_right`: What comes last is merged last.
* `entries_add?`, `entries_addAll?`: A draft is read in the order of its lines.
* `addAll?_entries`: Signatures are built from their reading order.
* `addLines_eq_ok_iff`: Reading lines is building a draft from what they denote.
* `increasing_of_forall₂_denotes`: The lines of a database increase.
* `checkHeaders_eq_ok_iff`: What a header is.
* `ofText_eq_ok_iff`: Which texts denote which rule sets.
-/

namespace FileSignatures

/-- The sub-rules of a signature with their kinds, in the order of their lines. -/
def Signature.subRules (signature : Signature) : List (LineKind × Rule) :=
  (signature.continuations.map fun rule => (LineKind.continuation, rule)).merge
    (signature.extras.map fun rule => (LineKind.extraInfo, rule))
    (fun a b => decide (a.2.line ≤ b.2.line))

/-- The rules of a signature with their kinds in reading order. -/
def Signature.entries (signature : Signature) : List (LineKind × Rule) :=
  (.topLevel, signature.head) :: signature.subRules

/-- The rules of a rule set with their kinds in reading order. -/
def RuleSet.entries (rules : RuleSet) : List (LineKind × Rule) :=
  rules.signatures.flatMap Signature.entries

section Merge

variable {α : Type} (le : α → α → Bool)

/-- A property that only the left list has picks it out of a merge, and the
    opposite picks the right list. -/
theorem filter_merge (p : α → Bool) (xs ys : List α) (hxs : ∀ x ∈ xs, p x = true)
    (hys : ∀ y ∈ ys, p y = false) :
    (xs.merge ys le).filter p = xs ∧ (xs.merge ys le).filter (fun a => !p a) = ys := by
  have hall : ∀ zs : List α, (∀ z ∈ zs, p z = true) →
      zs.filter p = zs ∧ zs.filter (fun a => !p a) = [] := by
    intro zs hzs
    refine ⟨List.filter_eq_self.2 hzs, List.filter_eq_nil_iff.2 fun z hz => ?_⟩
    rw [hzs z hz]
    exact Bool.false_ne_true
  have hnone : ∀ zs : List α, (∀ z ∈ zs, p z = false) →
      zs.filter p = [] ∧ zs.filter (fun a => !p a) = zs := by
    intro zs hzs
    refine ⟨List.filter_eq_nil_iff.2 fun z hz => ?_, List.filter_eq_self.2 fun z hz => ?_⟩
    · rw [hzs z hz]
      exact Bool.false_ne_true
    · rw [hzs z hz]
      rfl
  induction xs generalizing ys with
  | nil =>
      rw [List.nil_merge]
      exact hnone ys hys
  | cons x xs ihx =>
      have hx := hxs x List.mem_cons_self
      have hxs' := fun z hz => hxs z (List.mem_cons_of_mem x hz)
      -- The right list changes while the left one stays, so this is a second induction.
      induction ys with
      | nil =>
          rw [List.merge_right]
          exact hall (x :: xs) hxs
      | cons y ys ihy =>
          have hy := hys y List.mem_cons_self
          have hys' := fun z hz => hys z (List.mem_cons_of_mem y hz)
          rw [List.cons_merge_cons]
          by_cases hle : le x y = true
          · have hrest := ihx (y :: ys) hxs' hys
            simp only [hle, if_true, List.filter_cons, hx, Bool.not_true, Bool.false_eq_true,
              if_false, hrest, and_self]
          · have hrest := ihy hys'
            simp only [hle, Bool.false_eq_true, if_false, List.filter_cons, hy, Bool.not_false,
              if_true, hrest, and_self]

/-- An element behind all of the right list is merged last from the left one. -/
theorem merge_append_left (xs ys : List α) (x : α) (hys : ∀ y ∈ ys, le x y = false) :
    (xs ++ [x]).merge ys le = xs.merge ys le ++ [x] := by
  -- Merging takes one of the lists apart at a time, so the induction is a double one.
  induction xs generalizing ys with
  | nil =>
      rw [List.nil_append, List.nil_merge]
      induction ys with
      | nil => rw [List.merge_right, List.nil_append]
      | cons y ys ih =>
          have hy := hys y List.mem_cons_self
          rw [List.cons_merge_cons, hy, if_neg Bool.false_ne_true,
            ih (fun z hz => hys z (List.mem_cons_of_mem y hz)), List.cons_append]
  | cons z xs ihx =>
      induction ys with
      | nil => rw [List.merge_right, List.merge_right]
      | cons y ys ihy =>
          rw [List.cons_append, List.cons_merge_cons, List.cons_merge_cons]
          by_cases hle : le z y = true
          · rw [if_pos hle, if_pos hle, ihx (y :: ys) hys, List.cons_append]
          · rw [if_neg hle, if_neg hle, ← List.cons_append,
              ihy (fun w hw => hys w (List.mem_cons_of_mem y hw)), List.cons_append]

/-- An element behind all of the left list is merged last from the right one. -/
theorem merge_append_right (xs ys : List α) (y : α) (hxs : ∀ x ∈ xs, le x y = true) :
    xs.merge (ys ++ [y]) le = xs.merge ys le ++ [y] := by
  -- The left list is in front of the new element, so it is the outer one here.
  induction xs generalizing ys with
  | nil => rw [List.nil_merge, List.nil_merge]
  | cons x xs ihx =>
      have hx := hxs x List.mem_cons_self
      have hxs' := fun z hz => hxs z (List.mem_cons_of_mem x hz)
      induction ys with
      | nil =>
          have hrest := ihx [] hxs'
          rw [List.nil_append, List.merge_right] at hrest
          rw [List.nil_append, List.cons_merge_cons, if_pos hx, List.merge_right, hrest,
            List.cons_append]
      | cons z ys ihy =>
          rw [List.cons_append, List.cons_merge_cons, List.cons_merge_cons]
          by_cases hle : le x z = true
          · rw [if_pos hle, if_pos hle, ← List.cons_append, ihx (z :: ys) hxs', List.cons_append]
          · rw [if_neg hle, if_neg hle, ihy, List.cons_append]

end Merge

/-- A rule of a signature is its head, a continuation or an extra-info rule. -/
theorem mem_entries_iff (signature : Signature) (kind : LineKind) (rule : Rule) :
    (kind, rule) ∈ signature.entries ↔
      kind = .topLevel ∧ rule = signature.head
        ∨ kind = .continuation ∧ rule ∈ signature.continuations
        ∨ kind = .extraInfo ∧ rule ∈ signature.extras := by
  -- Merging the two kinds of sub-rules loses none and adds none.
  simp only [Signature.entries, Signature.subRules, List.mem_cons, List.mem_merge, List.mem_map,
    Prod.mk.injEq]
  constructor
  · rintro (h | ⟨r, hr, rfl, rfl⟩ | ⟨r, hr, rfl, rfl⟩)
    · exact Or.inl h
    · exact Or.inr (Or.inl ⟨rfl, hr⟩)
    · exact Or.inr (Or.inr ⟨rfl, hr⟩)
  · rintro (h | ⟨rfl, hr⟩ | ⟨rfl, hr⟩)
    · exact Or.inl h
    · exact Or.inr (Or.inl ⟨rule, hr, rfl, rfl⟩)
    · exact Or.inr (Or.inr ⟨rule, hr, rfl, rfl⟩)

/-- The sub-rules are a merge, from which the continuations can be picked out, and
    the extra-info rules are what remains. -/
theorem filter_subRules (signature : Signature) :
    signature.subRules.filter (fun entry => decide (entry.1 = .continuation))
        = signature.continuations.map (fun rule => (LineKind.continuation, rule))
      ∧ signature.subRules.filter (fun entry => !decide (entry.1 = .continuation))
        = signature.extras.map (fun rule => (LineKind.extraInfo, rule)) := by
  refine filter_merge _ _ _ _ (fun entry hentry => ?_) (fun entry hentry => ?_)
  · rcases List.mem_map.1 hentry with ⟨rule, -, rfl⟩
    rfl
  · rcases List.mem_map.1 hentry with ⟨rule, -, rfl⟩
    rfl

/-- A later continuation is the last of the sub-rules. -/
theorem subRules_continuation (head rule : Rule) (continuations extras : List Rule)
    (hlater : ∀ extra ∈ extras, extra.line < rule.line) :
    (Signature.mk head (continuations ++ [rule]) extras).subRules
      = (Signature.mk head continuations extras).subRules ++ [(.continuation, rule)] := by
  unfold Signature.subRules
  rw [List.map_append, List.map_singleton]
  refine merge_append_left _ _ _ _ (fun entry hentry => ?_)
  rcases List.mem_map.1 hentry with ⟨extra, hextra, rfl⟩
  have hlt := hlater extra hextra
  exact decide_eq_false (by simp only; omega)

theorem subRules_extra (head rule : Rule) (continuations extras : List Rule)
    (hlater : ∀ continuation ∈ continuations, continuation.line < rule.line) :
    (Signature.mk head continuations (extras ++ [rule])).subRules
      = (Signature.mk head continuations extras).subRules ++ [(.extraInfo, rule)] := by
  unfold Signature.subRules
  rw [List.map_append, List.map_singleton]
  refine merge_append_right _ _ _ _ (fun entry hentry => ?_)
  rcases List.mem_map.1 hentry with ⟨continuation, hcontinuation, rfl⟩
  have hlt := hlater continuation hcontinuation
  exact decide_eq_true (by simp only; omega)

namespace Database

namespace Draft

/-- The rules of a draft with their kinds in reading order. -/
def entries (draft : Draft) : List (LineKind × Rule) :=
  draft.signatures.flatMap Signature.entries

/-- A draft with several more rules, one after the other. -/
def addAll? (draft : Draft) : List (LineKind × Rule) → Option Draft
  | [] => some draft
  | (kind, rule) :: rest => (draft.add? kind rule).bind fun next => addAll? next rest

end Draft

/-- The open signature of a draft is read after the finished ones. -/
theorem entries_some (finished : Array Signature) (current : Signature) :
    (Draft.mk finished (some current)).entries
      = finished.toList.flatMap Signature.entries ++ current.entries := by
  simp only [Draft.entries, Draft.signatures, Option.toList_some, List.flatMap_append,
    List.flatMap_singleton]

theorem entries_none (finished : Array Signature) :
    (Draft.mk finished none).entries = finished.toList.flatMap Signature.entries := by
  simp only [Draft.entries, Draft.signatures, Option.toList_none, List.append_nil]

/-- A signature that has just been opened has no other rule than its head. -/
theorem entries_opened (rule : Rule) : (Signature.mk rule [] []).entries = [(.topLevel, rule)] := by
  simp only [Signature.entries, Signature.subRules, List.map_nil, List.nil_merge]

/-- What joins a signature later than all of its rules is read last. -/
theorem entries_add? (draft next : Draft) (kind : LineKind) (rule : Rule)
    (hlater : ∀ entry ∈ draft.entries, entry.2.line < rule.line)
    (h : draft.add? kind rule = some next) : next.entries = draft.entries ++ [(kind, rule)] := by
  rcases draft with ⟨finished, current⟩
  have hsub : ∀ signature, current = some signature → ∀ entry ∈ signature.subRules,
      entry.2.line < rule.line := by
    intro signature hcurrent entry hentry
    subst hcurrent
    refine hlater entry ?_
    rw [entries_some]
    exact List.mem_append_right _ (List.mem_cons_of_mem _ hentry)
  rcases add?_cases _ next kind rule h with ⟨rfl, rfl, rfl⟩ | ⟨done, rfl, rfl, rfl⟩
    | ⟨signature, rfl, rfl, rfl⟩ | ⟨signature, rfl, rfl, rfl⟩
  · -- The first signature is opened.
    rw [entries_some, entries_none, entries_opened]
  · -- The open signature is finished, and the next one is opened.
    rw [entries_some, entries_some, entries_opened, Array.toList_push, List.flatMap_append,
      List.flatMap_singleton]
  · -- A continuation comes after all extra-info rules of the open signature.
    have hextras : ∀ extra ∈ signature.extras, extra.line < rule.line := by
      intro extra hextra
      refine hsub signature rfl (.extraInfo, extra) ?_
      exact List.mem_merge.2 (Or.inr (List.mem_map_of_mem hextra))
    rw [entries_some, entries_some, List.append_assoc]
    simp only [Signature.entries, subRules_continuation _ rule _ _ hextras, List.cons_append]
  · -- And an extra-info rule after all of its continuations.
    have hcontinuations : ∀ continuation ∈ signature.continuations,
        continuation.line < rule.line := by
      intro continuation hcontinuation
      refine hsub signature rfl (.continuation, continuation) ?_
      exact List.mem_merge.2 (Or.inl (List.mem_map_of_mem hcontinuation))
    rw [entries_some, entries_some, List.append_assoc]
    simp only [Signature.entries, subRules_extra _ rule _ _ hcontinuations, List.cons_append]

/-- Rules with increasing lines, all behind those of a draft, are read in their
    order, by induction on them: each is appended, and the next is behind it. -/
theorem entries_addAll? (entries : List (LineKind × Rule)) (draft next : Draft)
    (hincreasing : entries.Pairwise fun a b => a.2.line < b.2.line)
    (hlater : ∀ old ∈ draft.entries, ∀ new ∈ entries, old.2.line < new.2.line)
    (h : draft.addAll? entries = some next) : next.entries = draft.entries ++ entries := by
  induction entries generalizing draft with
  | nil =>
      rw [Draft.addAll?, Option.some.injEq] at h
      rw [h, List.append_nil]
  | cons entry rest ih =>
      rcases entry with ⟨kind, rule⟩
      rw [Draft.addAll?, Option.bind_eq_some_iff] at h
      rcases h with ⟨added, hadd, hrest⟩
      have hfirst := fun old hold => hlater old hold (kind, rule) List.mem_cons_self
      have hadded := entries_add? draft added kind rule hfirst hadd
      rcases List.pairwise_cons.1 hincreasing with ⟨hhead, htail⟩
      -- The rest lies behind the new draft, too, which is what the induction needs.
      have hbehind : ∀ old ∈ added.entries, ∀ new ∈ rest, old.2.line < new.2.line := by
        intro old hold new hnew
        rw [hadded] at hold
        rcases List.mem_append.1 hold with hold | hold
        · exact hlater old hold new (List.mem_cons_of_mem _ hnew)
        · rw [List.mem_singleton.1 hold]
          exact hhead new hnew
      rw [ih added htail hbehind hrest, hadded, List.append_assoc, List.singleton_append]

theorem addAll?_append (draft : Draft) (first second : List (LineKind × Rule)) :
    draft.addAll? (first ++ second)
      = (draft.addAll? first).bind fun next => next.addAll? second := by
  induction first generalizing draft with
  | nil => rfl
  | cons entry rest ih =>
      rcases entry with ⟨kind, rule⟩
      rw [List.cons_append, Draft.addAll?, Draft.addAll?, Option.bind_assoc]
      congr 1
      funext next
      exact ih next

/-- Sub-rules join the open signature, each list in order. -/
theorem addAll?_subRules (finished : Array Signature) (signature : Signature)
    (entries : List (LineKind × Rule)) (hsub : ∀ entry ∈ entries, entry.1 ≠ .topLevel) :
    (Draft.mk finished (some signature)).addAll? entries = some ⟨finished, some {
      signature with
        continuations := signature.continuations
          ++ (entries.filter fun entry => decide (entry.1 = .continuation)).map Prod.snd
        extras := signature.extras
          ++ (entries.filter fun entry => !decide (entry.1 = .continuation)).map Prod.snd }⟩ := by
  induction entries generalizing signature with
  | nil =>
      simp only [Draft.addAll?, List.filter_nil, List.map_nil, List.append_nil]
  | cons entry rest ih =>
      rcases entry with ⟨kind, rule⟩
      have hrest := fun s => ih s (fun e he => hsub e (List.mem_cons_of_mem _ he))
      -- One list grows, and the filter of the other one skips the rule.
      cases kind with
      | topLevel => exact absurd rfl (hsub (.topLevel, rule) List.mem_cons_self)
      | continuation =>
          simp only [Draft.addAll?, Draft.add?, Option.bind_some, hrest, List.filter_cons,
            decide_true, if_true, Bool.not_true, Bool.false_eq_true, if_false, List.map_cons,
            List.append_assoc, List.singleton_append]
      | extraInfo =>
          simp only [Draft.addAll?, Draft.add?, Option.bind_some, hrest, List.filter_cons,
            reduceCtorEq, decide_false, Bool.false_eq_true, if_false, Bool.not_false, if_true,
            List.map_cons, List.append_assoc, List.singleton_append]

/-- A signature is built from its reading order. -/
theorem addAll?_signature (draft : Draft) (signature : Signature) :
    ∃ next, draft.addAll? signature.entries = some next
      ∧ next.signatures = draft.signatures ++ [signature] := by
  have hsub : ∀ entry ∈ signature.subRules, entry.1 ≠ .topLevel := by
    intro entry hentry
    rcases List.mem_merge.1 hentry with hmem | hmem
    · rcases List.mem_map.1 hmem with ⟨rule, -, rfl⟩
      exact LineKind.noConfusion
    · rcases List.mem_map.1 hmem with ⟨rule, -, rfl⟩
      exact LineKind.noConfusion
  have hwhole : ∀ rules : List Rule, ∀ kind : LineKind,
      (rules.map fun rule => (kind, rule)).map Prod.snd = rules := by
    intro rules kind
    rw [List.map_map]
    exact List.map_id rules
  -- The head closes what is open, and the sub-rules join the signature that it opens.
  obtain ⟨closed, hopen, hclosed⟩ : ∃ closed : Array Signature,
      draft.add? .topLevel signature.head = some ⟨closed, some ⟨signature.head, [], []⟩⟩
        ∧ closed.toList = draft.signatures := by
    rcases draft with ⟨finished, current⟩
    cases current with
    | none => exact ⟨finished, rfl, (List.append_nil _).symm⟩
    | some done => exact ⟨finished.push done, rfl, Array.toList_push⟩
  have hbuilt := addAll?_subRules closed ⟨signature.head, [], []⟩ signature.subRules hsub
  simp only [(filter_subRules signature).1, (filter_subRules signature).2, hwhole,
    List.nil_append] at hbuilt
  refine ⟨⟨closed, some signature⟩, ?_, ?_⟩
  · rw [Signature.entries, Draft.addAll?, hopen, Option.bind_some, hbuilt]
  · rw [Draft.signatures, hclosed, Option.toList_some]

theorem addAll?_entries (signatures : List Signature) (draft : Draft) :
    ∃ next, draft.addAll? (signatures.flatMap Signature.entries) = some next
      ∧ next.signatures = draft.signatures ++ signatures := by
  induction signatures generalizing draft with
  | nil => exact ⟨draft, rfl, (List.append_nil _).symm⟩
  | cons signature rest ih =>
      rcases addAll?_signature draft signature with ⟨added, hadded, hfirst⟩
      -- The next signature is opened by its head, so it does not matter what is open.
      rcases ih added with ⟨next, hnext, hrest⟩
      refine ⟨next, ?_, ?_⟩
      · rw [List.flatMap_cons, addAll?_append, hadded, Option.bind_some, hnext]
      · rw [hrest, hfirst, List.append_assoc, List.singleton_append]

/-- The lines that are rules among lines that are numbered from `number` on: those
    that are neither empty nor comments. -/
def ruleLinesFrom (number : Nat) (lines : List Text) : List (Text × Nat) :=
  (lines.zipIdx number).filter fun line => line.1 ≠ [] ∧ line.1.head? ≠ some '#'

/-- The lines of a database that are rules, with their numbers. -/
def ruleLines (text : Text) : List (Text × Nat) :=
  ruleLinesFrom 4 (text.lines.drop 3)

theorem ruleLines_of_header (text first second third : Text) (rest : List Text)
    (h : text.lines = first :: second :: third :: rest) :
    ruleLines text = ruleLinesFrom 4 rest := by
  unfold ruleLines
  rw [h]
  rfl

/-- A numbered line denotes, by itself, a rule of a kind. -/
def Denotes (line : Text × Nat) (entry : LineKind × Rule) : Prop :=
  ruleOf line.2 line.1 = .ok entry

/-- The first three lines are a header. -/
def HasHeader (text : Text) : Prop :=
  ∃ date source rest, text.lines
    = magicHeader :: (dateHeader ++ date) :: (sourceHeader ++ source) :: rest

theorem isRuleLine_iff (line : Text) :
    isRuleLine line = true ↔ line ≠ [] ∧ line.head? ≠ some '#' := by
  unfold isRuleLine
  simp only [Bool.and_eq_true, Bool.not_eq_true', List.isEmpty_eq_false_iff, decide_eq_true_eq]

theorem ruleLinesFrom_cons (number : Nat) (line : Text) (rest : List Text)
    (h : isRuleLine line = true) : ruleLinesFrom number (line :: rest)
      = (line, number) :: ruleLinesFrom (number + 1) rest := by
  unfold ruleLinesFrom
  rw [List.zipIdx_cons, List.filter_cons, if_pos (decide_eq_true ((isRuleLine_iff line).1 h))]

theorem ruleLinesFrom_skip (number : Nat) (line : Text) (rest : List Text)
    (h : ¬ isRuleLine line = true) :
    ruleLinesFrom number (line :: rest) = ruleLinesFrom (number + 1) rest := by
  unfold ruleLinesFrom
  rw [List.zipIdx_cons, List.filter_cons, if_neg]
  rw [decide_eq_true_eq]
  exact fun hrule => h ((isRuleLine_iff line).2 hrule)

/-- Reading a rule line is adding the rule that it denotes. -/
theorem addLine_eq_ok_iff (draft next : Draft) (number : Nat) (line : Text)
    (hline : isRuleLine line = true) : addLine draft number line = .ok next ↔
      ∃ entry, Denotes (line, number) entry ∧ draft.add? entry.1 entry.2 = some next := by
  unfold addLine Denotes
  rw [if_pos hline]
  simp only
  cases hrule : ruleOf number line with
  | error cause =>
      simp only [reduceCtorEq, false_and, exists_false]
  | ok entry =>
      simp only [Except.ok.injEq, exists_eq_left']
      -- A line that denotes a rule can still be refused, as the first one that opens nothing.
      cases hadd : draft.add? entry.1 entry.2 with
      | none => simp only [reduceCtorEq]
      | some added => simp only [Except.ok.injEq, Option.some.injEq]

/-- Reading lines into a draft is building it from what the rule lines denote. -/
theorem addLines_eq_ok_iff (lines : List Text) (number : Nat) (draft next : Draft) :
    addLines draft number lines = .ok next ↔
      ∃ entries, List.Forall₂ Denotes (ruleLinesFrom number lines) entries
        ∧ draft.addAll? entries = some next := by
  induction lines generalizing draft number with
  | nil =>
      simp only [addLines, ruleLinesFrom, List.zipIdx_nil, List.filter_nil,
        List.forall₂_nil_left_iff, exists_eq_left, Draft.addAll?, Except.ok.injEq,
        Option.some.injEq]
  | cons line rest ih =>
      by_cases hline : isRuleLine line = true
      · rw [ruleLinesFrom_cons number line rest hline]
        constructor
        · intro h
          unfold addLines at h
          cases hadd : addLine draft number line with
          | error error => rw [hadd] at h; simp only [reduceCtorEq] at h
          | ok added =>
              rw [hadd] at h
              rcases (addLine_eq_ok_iff draft added number line hline).1 hadd with
                ⟨entry, hdenotes, hentry⟩
              rcases (ih (number + 1) added).1 h with ⟨entries, hrest, hentries⟩
              refine ⟨entry :: entries, .cons hdenotes hrest, ?_⟩
              rw [Draft.addAll?, hentry, Option.bind_some, hentries]
        · rintro ⟨entries, hdenotes, hentries⟩
          cases hdenotes with
          | cons hentry hrest =>
              rw [Draft.addAll?, Option.bind_eq_some_iff] at hentries
              rcases hentries with ⟨added, hadd, hnext⟩
              have hfirst := (addLine_eq_ok_iff draft added number line hline).2 ⟨_, hentry, hadd⟩
              unfold addLines
              rw [hfirst]
              exact (ih (number + 1) added).2 ⟨_, hrest, hnext⟩
      · -- A line that is no rule changes neither side.
        rw [ruleLinesFrom_skip number line rest hline, ← ih (number + 1) draft]
        rw [addLines, addLine, if_neg hline]

/-- A rule has the number of the line that denotes it. -/
theorem lines_of_forall₂_denotes (lines : List (Text × Nat)) (entries : List (LineKind × Rule))
    (h : List.Forall₂ Denotes lines entries) :
    entries.map (fun entry => entry.2.line) = lines.map Prod.snd := by
  induction h with
  | nil => rfl
  | @cons line entry _ _ hentry _ ih =>
      have hnumber := (kind_and_line_of_ruleOf line.2 line.1 entry.1 entry.2 hentry).2
      rw [List.map_cons, List.map_cons, ih, hnumber]

theorem increasing_ruleLinesFrom (number : Nat) (lines : List Text) :
    ((ruleLinesFrom number lines).map Prod.snd).Pairwise (· < ·) := by
  -- The lines are numbered one after the other, and some of them are left out.
  have hall : ((lines.zipIdx number).map Prod.snd).Pairwise (· < ·) := by
    rw [List.zipIdx_map_snd]
    exact List.pairwise_lt_range'
  exact List.Pairwise.sublist (List.Sublist.map _ List.filter_sublist) hall

/-- Rules that increasing lines denote are themselves increasing. -/
theorem increasing_of_forall₂_denotes (number : Nat) (lines : List Text)
    (entries : List (LineKind × Rule))
    (h : List.Forall₂ Denotes (ruleLinesFrom number lines) entries) :
    entries.Pairwise fun a b => a.2.line < b.2.line := by
  have hincreasing := increasing_ruleLinesFrom number lines
  rw [← lines_of_forall₂_denotes _ entries h, List.pairwise_map] at hincreasing
  exact hincreasing

/-- A text begins with a prefix if it is the prefix and something more. -/
theorem isPrefixOf_iff_exists (start line : Text) :
    start.isPrefixOf line = true ↔ ∃ rest, line = start ++ rest := by
  rw [List.isPrefixOf_iff_prefix]
  exact exists_congr fun rest => eq_comm

theorem takeHeader_eq_ok_iff (number : Nat) (expected : Text) (valid : Text → Bool)
    (lines rest : List Text) : takeHeader number expected valid lines = .ok rest ↔
      ∃ line, lines = line :: rest ∧ valid line = true := by
  cases lines with
  | nil => simp only [takeHeader, reduceCtorEq, List.nil_eq, false_and, exists_false]
  | cons line more =>
      unfold takeHeader
      by_cases hvalid : valid line = true
      · simp only [hvalid, if_true, Except.ok.injEq, List.cons.injEq]
        constructor
        · rintro rfl
          exact ⟨line, ⟨rfl, rfl⟩, hvalid⟩
        · rintro ⟨_, ⟨-, heq⟩, -⟩
          exact heq
      · simp only [hvalid, Bool.false_eq_true, if_false, reduceCtorEq, List.cons.injEq, false_iff,
          not_exists, not_and]
        rintro other ⟨rfl, -⟩
        exact hvalid

theorem checkHeaders_eq_ok_iff (lines rest : List Text) : checkHeaders lines = .ok rest ↔
    ∃ date source, lines
      = magicHeader :: (dateHeader ++ date) :: (sourceHeader ++ source) :: rest := by
  unfold checkHeaders
  constructor
  · intro h
    rcases except_bind_eq_ok _ _ _ h with ⟨second, hfirst, h⟩
    rcases except_bind_eq_ok _ _ _ h with ⟨third, hsecond, hthird⟩
    rcases (takeHeader_eq_ok_iff _ _ _ _ _).1 hfirst with ⟨magic, rfl, hmagic⟩
    rcases (takeHeader_eq_ok_iff _ _ _ _ _).1 hsecond with ⟨line, rfl, hdate⟩
    rcases (takeHeader_eq_ok_iff _ _ _ _ _).1 hthird with ⟨line', rfl, hsource⟩
    rcases (isPrefixOf_iff_exists _ _).1 hdate with ⟨date, rfl⟩
    rcases (isPrefixOf_iff_exists _ _).1 hsource with ⟨source, rfl⟩
    -- The first header is compared as a whole, the others up to their prefixes.
    rw [decide_eq_true_eq] at hmagic
    rw [hmagic]
    exact ⟨date, source, rfl⟩
  · rintro ⟨date, source, rfl⟩
    have hdate := (isPrefixOf_iff_exists dateHeader (dateHeader ++ date)).2 ⟨date, rfl⟩
    have hsource := (isPrefixOf_iff_exists sourceHeader (sourceHeader ++ source)).2 ⟨source, rfl⟩
    simp only [takeHeader, decide_true, if_true, hdate, hsource, bind, Except.bind]

end Database

open Database

/-- A text denotes a rule set exactly if it begins with a header and its rule lines
    denote, one by one, the rules of the rule set in reading order. -/
theorem ofText_eq_ok_iff (text : Text) (rules : RuleSet) :
    RuleSet.ofText text = .ok rules ↔
      HasHeader text ∧ List.Forall₂ Denotes (ruleLines text) rules.entries := by
  constructor
  · intro h
    rcases (ofText_eq_ok_iff_exists_draft text rules).1 h with ⟨lines, draft, hlines, hdraft, rfl⟩
    rcases (checkHeaders_eq_ok_iff _ _).1 hlines with ⟨date, source, htext⟩
    refine ⟨⟨date, source, lines, htext⟩, ?_⟩
    rcases (addLines_eq_ok_iff lines 4 _ _).1 hdraft with ⟨entries, hdenotes, hentries⟩
    -- The draft began empty, so its reading order is what the lines denote.
    have horder := entries_addAll? entries .empty draft
      (increasing_of_forall₂_denotes 4 lines entries hdenotes)
      (fun old hold => absurd hold List.not_mem_nil) hentries
    have hempty : Draft.empty.entries = [] := rfl
    have hread : (RuleSet.mk draft.signatures).entries = draft.entries := rfl
    rw [hempty, List.nil_append] at horder
    rw [ruleLines_of_header text _ _ _ lines htext, hread, horder]
    exact hdenotes
  · rintro ⟨⟨date, source, lines, htext⟩, hdenotes⟩
    rw [ruleLines_of_header text _ _ _ lines htext] at hdenotes
    have hheader := (checkHeaders_eq_ok_iff text.lines lines).2 ⟨date, source, htext⟩
    rcases addAll?_entries rules.signatures .empty with ⟨draft, hadd, hsignatures⟩
    have hlines := (addLines_eq_ok_iff lines 4 .empty draft).2 ⟨_, hdenotes, hadd⟩
    refine (ofText_eq_ok_iff_exists_draft text rules).2 ⟨lines, draft, hheader, hlines, ?_⟩
    rw [hsignatures]
    rfl

end FileSignatures
