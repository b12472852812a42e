import FileSignatures.Proofs.Database.Grouping

/-!
# Databases that go on

Lines that are added at the end of a database do not change what stands before them.
If the shorter text is faulty, its first faulty line is that of the longer text, too.
Otherwise the longer text has a fault in the lines that were added, or the signatures
of the shorter text come first, and only the last of them, which is still open at the
end of the shorter text, may get more sub-rules (`ofText_append`).

The reason is that a database is read line by line, so that the lines after the
shorter text go on with the draft that it leaves (`ofText_append_eq`). What one line
does to a draft is said by `Database.Grown` (`grown_of_add?`), which is transitive
and therefore says the same of all of them.

## Main definitions

* `Signature.Extends`: A signature with further sub-rules.
* `Database.Grown`: Signatures, the last of which may have grown, and new ones.

## Theorems

* `addLines_append`: Lines are read one after the other.
* `le_line_of_addLines`: A fault is in the lines that are read.
* `grown_of_addLines`: What lines do to a draft.
* `ofText_append_eq`: A longer text goes on where the shorter one ends.
* `ofText_append`: What added lines change.
-/

namespace FileSignatures

/-- A signature with further sub-rules behind its own. The continuations among them
    make it longer, and nothing else does. -/
structure Signature.Extends (later earlier : Signature) : Prop where
  head_eq : later.head = earlier.head
  continuations : ∃ added, later.continuations = earlier.continuations ++ added
    ∧ later.length = earlier.length + (added.map Rule.weight).sum
  extras : earlier.extras <+: later.extras

theorem extends_refl (signature : Signature) : signature.Extends signature :=
  ⟨rfl, ⟨[], (List.append_nil _).symm, rfl⟩, List.prefix_rfl⟩

theorem extends_trans (first second third : Signature) (h : second.Extends first)
    (h' : third.Extends second) : third.Extends first := by
  rcases h.continuations with ⟨added, hadded, hlength⟩
  rcases h'.continuations with ⟨added', hadded', hlength'⟩
  refine ⟨h'.head_eq.trans h.head_eq, ⟨added ++ added', ?_, ?_⟩, h.extras.trans h'.extras⟩
  · rw [hadded', hadded, List.append_assoc]
  · rw [hlength', hlength, List.map_append, List.sum_append, Nat.add_assoc]

theorem extends_continuation (signature : Signature) (rule : Rule) :
    Signature.Extends { signature with continuations := signature.continuations ++ [rule] }
      signature := by
  refine ⟨rfl, ⟨[rule], rfl, ?_⟩, List.prefix_rfl⟩
  rw [signature_length_eq, signature_length_eq, List.map_append, List.sum_append, Nat.add_assoc]

theorem extends_extra (signature : Signature) (rule : Rule) :
    Signature.Extends { signature with extras := signature.extras ++ [rule] } signature :=
  ⟨rfl, ⟨[], (List.append_nil _).symm, rfl⟩, List.prefix_append _ _⟩

namespace Database

/-- Signatures with the same ones in front, of which only the last may have got
    further sub-rules. -/
def Grown (earlier later : List Signature) : Prop :=
  earlier = [] ∨ ∃ front last grown more, earlier = front ++ [last]
    ∧ later = front ++ grown :: more ∧ grown.Extends last

/-- New signatures are put behind the others. -/
theorem grown_append (earlier more : List Signature) : Grown earlier (earlier ++ more) := by
  rcases List.eq_nil_or_concat' earlier with hnil | ⟨front, last, hlast⟩
  · exact Or.inl hnil
  · refine Or.inr ⟨front, last, last, more, hlast, ?_, extends_refl last⟩
    rw [hlast, List.append_assoc, List.singleton_append]

theorem grown_refl (signatures : List Signature) : Grown signatures signatures := by
  have happend := grown_append signatures []
  rw [List.append_nil] at happend
  exact happend

theorem grown_trans (first second third : List Signature) (h : Grown first second)
    (h' : Grown second third) : Grown first third := by
  rcases h with hnil | ⟨front, last, grown, more, rfl, rfl, hextends⟩
  · exact Or.inl hnil
  · refine Or.inr ?_
    rcases h' with hnil | ⟨front', last', grown', more', hsecond, rfl, hextends'⟩
    · exact absurd hnil (by simp only [List.append_eq_nil_iff, List.cons_ne_nil, and_false,
        not_false_eq_true])
    · rcases List.eq_nil_or_concat' more with rfl | ⟨others, final, rfl⟩
      · -- The same signature grows again.
        rcases List.append_inj' hsecond rfl with ⟨rfl, hlast⟩
        rw [List.cons.injEq] at hlast
        exact ⟨front, last, grown', more', rfl, rfl,
          extends_trans last grown grown' hextends (hlast.1 ▸ hextends')⟩
      · -- A signature behind it grows, and this one is finished.
        rw [← List.cons_append, ← List.append_assoc] at hsecond
        rcases List.append_inj' hsecond rfl with ⟨rfl, -⟩
        exact ⟨front, last, grown, others ++ grown' :: more', rfl,
          by rw [List.append_assoc, List.cons_append], hextends⟩

/-- A rule opens a signature behind the others, or it joins the last one. -/
theorem grown_of_add? (draft next : Draft) (kind : LineKind) (rule : Rule)
    (h : draft.add? kind rule = some next) : Grown draft.signatures next.signatures := by
  rcases draft with ⟨finished, current⟩
  rcases add?_cases _ next kind rule h with ⟨-, rfl, rfl⟩ | ⟨done, -, rfl, rfl⟩
    | ⟨signature, -, rfl, rfl⟩ | ⟨signature, -, rfl, rfl⟩
  · simp only [Draft.signatures, Option.toList_none, List.append_nil, Option.toList_some]
    exact grown_append _ _
  · simp only [Draft.signatures, Option.toList_some, Array.toList_push]
    exact grown_append _ _
  · exact Or.inr ⟨finished.toList, signature, _, [], rfl, rfl, extends_continuation signature rule⟩
  · exact Or.inr ⟨finished.toList, signature, _, [], rfl, rfl, extends_extra signature rule⟩

/-- A line that can be read adds its rule, if it is one. -/
theorem grown_of_addLine (draft next : Draft) (number : Nat) (line : Text)
    (h : addLine draft number line = .ok next) : Grown draft.signatures next.signatures := by
  by_cases hline : isRuleLine line = true
  · rcases (addLine_eq_ok_iff draft next number line hline).1 h with ⟨entry, -, hadd⟩
    exact grown_of_add? draft next entry.1 entry.2 hadd
  · rw [addLine, if_neg hline, Except.ok.injEq] at h
    rw [← h]
    exact grown_refl draft.signatures

/-- Lines that can be read only grow a draft. -/
theorem grown_of_addLines (lines : List Text) (number : Nat) (draft next : Draft)
    (h : addLines draft number lines = .ok next) : Grown draft.signatures next.signatures := by
  -- Each line leaves another draft to the next one, so the draft is arbitrary.
  induction lines generalizing draft number with
  | nil =>
      rw [addLines, Except.ok.injEq] at h
      rw [← h]
      exact grown_refl draft.signatures
  | cons line rest ih =>
      unfold addLines at h
      split at h
      · exact absurd h (by simp only [reduceCtorEq, not_false_eq_true])
      · rename_i added hadded
        exact grown_trans _ _ _ (grown_of_addLine draft added number line hadded)
          (ih (number + 1) added h)

/-- A faulty line is reported with its number. -/
theorem line_of_addLine (draft : Draft) (number : Nat) (line : Text) (error : FormatError)
    (h : addLine draft number line = .error error) : error.line = number := by
  unfold addLine at h
  split at h
  · split at h
    · rw [← Except.error.inj h]
    · split at h
      · exact absurd h (by simp only [reduceCtorEq, not_false_eq_true])
      · rw [← Except.error.inj h]
  · exact absurd h (by simp only [reduceCtorEq, not_false_eq_true])

/-- A fault is in one of the lines that are read. -/
theorem le_line_of_addLines (lines : List Text) (number : Nat) (draft : Draft)
    (error : FormatError) (h : addLines draft number lines = .error error) :
    number ≤ error.line := by
  induction lines generalizing draft number with
  | nil => exact absurd h (by simp only [addLines, reduceCtorEq, not_false_eq_true])
  | cons line rest ih =>
      unfold addLines at h
      split at h
      · rename_i fault hfault
        rw [← Except.error.inj h, line_of_addLine draft number line fault hfault]
      · have hlater := ih (number + 1) _ h
        omega

/-- Lines are read one after the other, and a fault among the first ends the
    reading. -/
theorem addLines_append (first second : List Text) (number : Nat) (draft : Draft) :
    addLines draft number (first ++ second)
      = (addLines draft number first).bind fun next =>
        addLines next (number + first.length) second := by
  induction first generalizing draft number with
  | nil => rfl
  | cons line rest ih =>
      rw [List.cons_append, addLines, addLines]
      -- A fault in this line ends both readings alike.
      cases addLine draft number line with
      | error error => rfl
      | ok added =>
          simp only
          rw [ih, List.length_cons, Nat.add_right_comm, Nat.add_assoc]

theorem takeHeader_append (number : Nat) (expected : Text) (valid : Text → Bool)
    (lines more : List Text) (h : lines ≠ []) :
    takeHeader number expected valid (lines ++ more)
      = (takeHeader number expected valid lines).map fun rest => rest ++ more := by
  cases lines with
  | nil => exact absurd rfl h
  | cons line rest =>
      rw [List.cons_append, takeHeader, takeHeader]
      split <;> rfl

/-- A header is found in the first three lines, whatever follows. -/
theorem checkHeaders_append (lines more : List Text) (h : 3 ≤ lines.length) :
    checkHeaders (lines ++ more) = (checkHeaders lines).map fun rest => rest ++ more := by
  -- Each header line leaves one line less, so there is one to take every time.
  have hleft : ∀ (number : Nat) (expected : Text) (valid : Text → Bool) (before rest : List Text),
      takeHeader number expected valid before = .ok rest → before.length = rest.length + 1 := by
    intro number expected valid before rest htake
    rcases (takeHeader_eq_ok_iff number expected valid before rest).1 htake with ⟨line, rfl, -⟩
    exact List.length_cons
  have hne : ∀ before : List Text, 0 < before.length → before ≠ [] :=
    fun before hpos => List.length_pos_iff.1 hpos
  unfold checkHeaders
  rw [takeHeader_append _ _ _ lines more (hne _ (by omega))]
  cases hfirst : takeHeader 1 magicHeader (fun line => decide (line = magicHeader)) lines with
  | error error => rfl
  | ok second =>
      have hsecond := hleft _ _ _ _ _ hfirst
      simp only [Except.map, bind, Except.bind]
      rw [takeHeader_append _ _ _ second more (hne _ (by omega))]
      cases hdate : takeHeader 2 dateHeader dateHeader.isPrefixOf second with
      | error error => rfl
      | ok third =>
          have hthird := hleft _ _ _ _ _ hdate
          simp only [Except.map]
          exact takeHeader_append _ _ _ third more (hne _ (by omega))

end Database

open Database

/-- A longer text goes on with the draft that the shorter one leaves. -/
theorem ofText_append_eq (text more : Text) (hend : ∀ c, text.getLast? = some c → c = '\n')
    (hheader : 3 ≤ text.lines.length) :
    RuleSet.ofText (text ++ more) = (checkHeaders text.lines).bind fun lines =>
      (addLines .empty 4 lines).bind fun draft =>
        (addLines draft (4 + lines.length) more.lines).bind fun next => .ok ⟨next.signatures⟩ := by
  have hunfolded : RuleSet.ofText (text ++ more)
      = (checkHeaders (text ++ more).lines).bind fun lines =>
        (addLines .empty 4 lines).bind fun draft => .ok ⟨draft.signatures⟩ := rfl
  -- The first text ends with a whole line, so its lines come first, its header with them.
  rw [hunfolded, lines_append_of_getLast? text more hend, checkHeaders_append _ _ hheader]
  cases checkHeaders text.lines with
  | error error => rfl
  | ok lines =>
      simp only [Except.map, Except.bind]
      rw [addLines_append]
      cases addLines .empty 4 lines with
      | error error => rfl
      | ok draft => rfl

/-- A database that goes on, after a text of at least the three header lines that
    ends with a line end. A fault of the shorter text is that of the longer one, on
    the same line and for the same cause. If the shorter text has none, the longer
    one has it further down, or its signatures are those of the shorter text, of
    which the last may have got further sub-rules, and new ones behind them. -/
theorem ofText_append (text more : Text) (hend : text.getLast? = some '\n')
    (hheader : 3 ≤ text.lines.length) :
    (∀ error, RuleSet.ofText text = .error error → RuleSet.ofText (text ++ more) = .error error)
    ∧ ∀ rules, RuleSet.ofText text = .ok rules →
      (∃ error, RuleSet.ofText (text ++ more) = .error error ∧ text.lines.length < error.line)
      ∨ ∃ longer, RuleSet.ofText (text ++ more) = .ok longer
        ∧ Grown rules.signatures longer.signatures := by
  have hlast : ∀ c, text.getLast? = some c → c = '\n' :=
    fun c hc => Option.some.inj (hc.symm.trans hend)
  have hshorter : RuleSet.ofText text = (checkHeaders text.lines).bind fun lines =>
      (addLines .empty 4 lines).bind fun draft => .ok ⟨draft.signatures⟩ := rfl
  rw [ofText_append_eq text more hlast hheader, hshorter]
  cases hlines : checkHeaders text.lines with
  | error fault =>
      -- A fault of the header is one of both texts.
      refine ⟨fun _ h => h, fun _ h => absurd h ?_⟩
      simp only [Except.bind, reduceCtorEq, not_false_eq_true]
  | ok lines =>
      simp only [Except.bind]
      cases hdraft : addLines .empty 4 lines with
      | error fault =>
          refine ⟨fun _ h => h, fun _ h => absurd h ?_⟩
          simp only [reduceCtorEq, not_false_eq_true]
      | ok draft =>
          refine ⟨fun _ h => absurd h (by simp only [reduceCtorEq, not_false_eq_true]), ?_⟩
          rintro rules hrules
          simp only [Except.ok.injEq] at hrules
          rcases (checkHeaders_eq_ok_iff text.lines lines).1 hlines with ⟨date, source, htext⟩
          simp only
          cases hnext : addLines draft (4 + lines.length) more.lines with
          | error fault =>
              -- The lines are counted on from those of the shorter text.
              have hbehind := le_line_of_addLines _ _ draft fault hnext
              refine Or.inl ⟨fault, rfl, ?_⟩
              rw [htext]
              simp only [List.length_cons]
              omega
          | ok next =>
              refine Or.inr ⟨⟨next.signatures⟩, rfl, ?_⟩
              rw [← hrules]
              exact grown_of_addLines _ _ draft next hnext

/-- A database whose last signature has a continuation. -/
def Database.openText : Text :=
  "# FILE_ID DB\n# Date:\n# Source:\n0\tstring\tAB\tP\n&2\tbyte\t1\n".toList

/-- The signature of that database. -/
def Database.openRules : RuleSet where
  signatures := [{
    head := ⟨4, .direct 0, .string, Value.fullMask, .equal, .bytes [65, 66], ['P'], none, 2⟩
    continuations := [⟨5, .direct 2, .byte, Value.fullMask, .equal, .number 1, [], none, 1⟩]
    extras := [] }]

/-- A database with a continuation that continues nothing. -/
def Database.orphanText : Text := "# FILE_ID DB\n# Date:\n# Source:\n&2\tbyte\t1\n".toList

/-- Lines with sub-rules of both kinds in front of another signature. -/
def Database.addedText : Text := ">4\tbyte\tx\t[v=%d]\n&3\tbyte\t2\n0\tbyte\t7\tQ".toList

/-- The open signature gets the sub-rules of the added lines, which help nothing where
    a line above them is faulty. -/
theorem ofText_append_of_addedText : RuleSet.ofText openText = .ok openRules
    ∧ (∃ longer, RuleSet.ofText (openText ++ addedText) = .ok longer
      ∧ Grown openRules.signatures longer.signatures)
    ∧ RuleSet.ofText (orphanText ++ addedText) = .error ⟨4, .orphan⟩ := by
  refine ⟨rfl, ?_, (ofText_append orphanText addedText rfl (by decide)).1 _ rfl⟩
  rcases (ofText_append openText addedText rfl (by decide)).2 openRules rfl with
    ⟨error, herror, -⟩ | hlonger
  · have hok : (RuleSet.ofText (openText ++ addedText)).isOk = true := rfl
    rw [herror] at hok
    exact absurd hok Bool.false_ne_true
  · exact hlonger

end FileSignatures
