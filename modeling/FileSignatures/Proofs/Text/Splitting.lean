import FileSignatures.Text.Basic
import Mathlib.Data.List.TakeWhile

/-!
# Splitting texts

Texts are split at separators in three ways: into all pieces, at the first
separator only, and into lines. Splitting undoes joining as long as what is
joined holds no separator, and what it gives never holds one. A line is special
in one respect: a carriage return at its end would be taken for a part of the
line end, so a line that is written may not end with one.

## Main definitions

* `Text.parts`: The pieces of a text that are not empty.
* `Text.Stops`: A text does not continue a run of characters.
* `Text.IsLine`: A text that can be written as one line.
* `Text.withReturns`: A text with a carriage return before every line feed.

## Theorems

* `cut?_append`, `cut?_eq_some_iff`: A text is cut at its first separator.
* `pieces_append_separator`: The first piece ends at the first separator.
* `pieces_join`: A separator cuts a text in two.
* `flatten_pieces`: The pieces are all of the text but its separators.
* `separator_notMem_of_mem_pieces`: No piece holds a separator.
* `parts_join`: A separator cuts a text in two, without its empty pieces, too.
* `flatten_parts`: The parts are all of the text but its separators.
* `takeWhile_append_of_stops`, `dropWhile_append_of_stops`: A run ends where it stops.
* `trimBy_eq_self`, `trimBy_append`: What is trimmed, and what is not.
* `lines_append`: A line that is written first is read first.
* `lines_flatMap`: Lines that are written are read back.
* `lines_append_of_getLast?`: What follows the end of a line changes no line.
* `newline_notMem_of_mem_lines`: No line holds a line feed.
* `lines_withReturns`: Carriage returns before the line feeds change no line.
-/

namespace FileSignatures

theorem cut?_eq_none (separator : Char) (t : Text) (h : separator ∉ t) :
    Text.cut? separator t = none := by
  induction t with
  | nil => rfl
  | cons c rest ih =>
      have hc : c ≠ separator := fun heq => h (heq ▸ List.mem_cons_self)
      rw [Text.cut?, if_neg hc, ih (fun hmem => h (List.mem_cons_of_mem _ hmem))]
      rfl

theorem cut?_append (separator : Char) (before rest : Text) (h : separator ∉ before) :
    Text.cut? separator (before ++ separator :: rest) = some (before, rest) := by
  induction before with
  | nil => rw [List.nil_append, Text.cut?, if_pos rfl]
  | cons c before ih =>
      have hc : c ≠ separator := fun heq => h (heq ▸ List.mem_cons_self)
      rw [List.cons_append, Text.cut?, if_neg hc,
        ih (fun hmem => h (List.mem_cons_of_mem _ hmem))]
      rfl

/-- What stands before and after the first separator makes up the text with it. -/
theorem cut?_eq_some_iff (separator : Char) (t before after : Text) :
    Text.cut? separator t = some (before, after) ↔
      t = before ++ separator :: after ∧ separator ∉ before := by
  constructor
  · intro h
    induction t generalizing before with
    | nil => exact absurd h (by simp only [Text.cut?, reduceCtorEq, not_false_eq_true])
    | cons c rest ih =>
        rw [Text.cut?] at h
        -- The first character is the separator, or the cut is one of the rest.
        split at h
        · rename_i hc
          rw [Option.some.injEq, Prod.mk.injEq] at h
          rw [← h.1, ← h.2, hc]
          exact ⟨rfl, List.not_mem_nil⟩
        · rename_i hc
          obtain ⟨⟨start, stop⟩, hcut, heq⟩ := Option.map_eq_some_iff.1 h
          rw [Prod.mk.injEq] at heq
          rw [heq.2] at hcut
          obtain ⟨hrest, hstart⟩ := ih start hcut
          rw [← heq.1, hrest]
          exact ⟨rfl, fun hmem => (List.mem_cons.1 hmem).elim (fun hsep => hc hsep.symm) hstart⟩
  · rintro ⟨rfl, hbefore⟩
    exact cut?_append separator before after hbefore

/-- What stands after a separator is a part of the text. -/
theorem mem_of_cut? (separator c : Char) (t before after : Text)
    (h : Text.cut? separator t = some (before, after)) (hc : c ∈ after) : c ∈ t := by
  rw [((cut?_eq_some_iff separator t before after).1 h).1]
  exact List.mem_append_right _ (List.mem_cons_of_mem _ hc)

section Pieces

-- Texts are split, and so are paths, which are bytes.
variable {α : Type} [DecidableEq α] (separator : α)

theorem pieces_eq_singleton (t : List α) (h : separator ∉ t) :
    Text.pieces separator t = [t] := by
  induction t with
  | nil => rfl
  | cons c rest ih =>
      have hc : c ≠ separator := fun heq => h (heq ▸ List.mem_cons_self)
      rw [Text.pieces, if_neg hc, ih (fun hmem => h (List.mem_cons_of_mem _ hmem))]

theorem pieces_append_separator (t rest : List α) (h : separator ∉ t) :
    Text.pieces separator (t ++ separator :: rest) = t :: Text.pieces separator rest := by
  induction t with
  | nil => rw [List.nil_append, Text.pieces, if_pos rfl]
  | cons c t ih =>
      have hc : c ≠ separator := fun heq => h (heq ▸ List.mem_cons_self)
      rw [List.cons_append, Text.pieces, if_neg hc,
        ih (fun hmem => h (List.mem_cons_of_mem _ hmem))]

theorem pieces_eq_cons (t : List α) :
    ∃ first more, Text.pieces separator t = first :: more := by
  cases t with
  | nil => exact ⟨[], [], rfl⟩
  | cons c rest =>
      rw [Text.pieces]
      split
      · exact ⟨_, _, rfl⟩
      · split
        · exact ⟨_, _, rfl⟩
        · exact ⟨_, _, rfl⟩

/-- Text without separators in front joins the first piece. -/
theorem pieces_append (t rest first : List α) (more : List (List α))
    (h : separator ∉ t) (hrest : Text.pieces separator rest = first :: more) :
    Text.pieces separator (t ++ rest) = (t ++ first) :: more := by
  induction t with
  | nil => exact hrest
  | cons c t ih =>
      have hc : c ≠ separator := fun heq => h (heq ▸ List.mem_cons_self)
      rw [List.cons_append, Text.pieces, if_neg hc,
        ih (fun hmem => h (List.mem_cons_of_mem _ hmem))]
      rfl

/-- A character that is no separator joins the first of the pieces after it. -/
theorem pieces_cons (c : α) (rest first : List α) (more : List (List α))
    (hc : c ≠ separator) (hrest : Text.pieces separator rest = first :: more) :
    Text.pieces separator (c :: rest) = (c :: first) :: more :=
  pieces_append separator [c] rest first more
    (fun h => hc (List.mem_singleton.1 h).symm) hrest

/-- A separator cuts a text in two, whose pieces are found independently. -/
theorem pieces_join (s t : List α) :
    Text.pieces separator (s ++ separator :: t)
      = Text.pieces separator s ++ Text.pieces separator t := by
  induction s with
  | nil => exact pieces_append_separator separator [] t List.not_mem_nil
  | cons c s ih =>
      rw [List.cons_append]
      by_cases hc : c = separator
      · rw [Text.pieces, if_pos hc, ih, Text.pieces, if_pos hc, List.cons_append]
      · rcases pieces_eq_cons separator s with ⟨first, more, hpieces⟩
        rw [hpieces, List.cons_append] at ih
        rw [pieces_cons separator c _ first _ hc ih,
          pieces_cons separator c s first more hc hpieces, List.cons_append]

/-- The pieces are all of the text but its separators. -/
theorem flatten_pieces (t : List α) :
    (Text.pieces separator t).flatten = t.filter fun c => c ≠ separator := by
  induction t with
  | nil => rfl
  | cons c rest ih =>
      by_cases hc : c = separator
      · rw [Text.pieces, if_pos hc, List.flatten_cons, List.nil_append, ih,
          List.filter_cons_of_neg (by simp only [hc, ne_eq, not_true_eq_false, decide_false,
            Bool.false_eq_true, not_false_eq_true])]
      · obtain ⟨first, more, hrest⟩ := pieces_eq_cons separator rest
        rw [hrest] at ih
        rw [pieces_cons separator c rest first more hc hrest,
          List.filter_cons_of_pos (by simp only [ne_eq, hc, not_false_eq_true, decide_true]),
          ← ih]
        rfl

/-- A piece is a part of the text without its separators. -/
theorem sublist_of_mem_pieces (t piece : List α) (h : piece ∈ Text.pieces separator t) :
    List.Sublist piece (t.filter fun c => c ≠ separator) := by
  rw [← flatten_pieces]
  exact List.sublist_flatten_of_mem h

theorem separator_notMem_of_mem_pieces (t piece : List α)
    (h : piece ∈ Text.pieces separator t) : separator ∉ piece := by
  intro hmem
  have hkept := (sublist_of_mem_pieces separator t piece h).subset hmem
  exact of_decide_eq_true (List.mem_filter.1 hkept).2 rfl

theorem mem_of_mem_pieces (c : α) (t piece : List α)
    (h : piece ∈ Text.pieces separator t) (hc : c ∈ piece) : c ∈ t :=
  (List.mem_filter.1 ((sublist_of_mem_pieces separator t piece h).subset hc)).1

/-- No piece is longer than the text without its separators. -/
theorem length_of_mem_pieces (t piece : List α)
    (h : piece ∈ Text.pieces separator t) :
    piece.length ≤ (t.filter fun c => c ≠ separator).length :=
  (sublist_of_mem_pieces separator t piece h).length_le

end Pieces

/-- The parts of a text between separators, without the empty ones. -/
def Text.parts (separator : Char) (t : Text) : List Text :=
  (pieces separator t).filter fun piece => !piece.isEmpty

/-- A separator cuts a text in two, whose parts are found independently. -/
theorem Text.parts_join (separator : Char) (s t : Text) :
    parts separator (s ++ separator :: t) = parts separator s ++ parts separator t := by
  unfold parts
  rw [pieces_join, List.filter_append]

/-- The parts are all of the text but its separators, too. -/
theorem Text.flatten_parts (separator : Char) (t : Text) :
    (parts separator t).flatten = t.filter fun c => c ≠ separator := by
  unfold parts
  rw [List.flatten_filter_not_isEmpty, flatten_pieces]

/-- A text does not continue a run of characters that a predicate picks. -/
def Text.Stops (p : Char → Bool) (rest : Text) : Prop :=
  ∀ c, rest.head? = some c → p c = false

/-- Only how a text begins decides whether it continues a run. -/
theorem Text.stops_append (p : Char → Bool) (s t : Text) (hs : s.Stops p)
    (ht : s = [] → t.Stops p) : (s ++ t).Stops p := by
  cases s with
  | nil => exact ht rfl
  | cons c s => exact hs

theorem Text.stops_dropWhile (p : Char → Bool) (t : Text) : Text.Stops p (t.dropWhile p) := by
  intro c hc
  have hstop := List.head?_dropWhile_not p t
  rw [hc] at hstop
  exact hstop

/-- A run ends where it stops. -/
theorem takeWhile_append_of_stops (p : Char → Bool) (run rest : Text)
    (hrun : ∀ c ∈ run, p c = true) (hrest : rest.Stops p) : (run ++ rest).takeWhile p = run := by
  rw [List.takeWhile_append_of_pos hrun]
  cases rest with
  | nil => exact List.append_nil run
  | cons c rest =>
      rw [List.takeWhile_cons, hrest c rfl, if_neg Bool.false_ne_true, List.append_nil]

theorem dropWhile_append_of_stops (p : Char → Bool) (run rest : Text)
    (hrun : ∀ c ∈ run, p c = true) (hrest : rest.Stops p) : (run ++ rest).dropWhile p = rest := by
  rw [List.dropWhile_append_of_pos hrun]
  cases rest with
  | nil => rfl
  | cons c rest => rw [List.dropWhile_cons, hrest c rfl, if_neg Bool.false_ne_true]

theorem trimBy_eq_self (p : Char → Bool) (t : Text) (h : ∀ c ∈ t, p c = false) :
    t.trimBy p = t := by
  have hdrop : ∀ s : Text, (∀ c ∈ s, p c = false) → s.dropWhile p = s := by
    intro s hs
    cases s with
    | nil => rfl
    | cons c rest => rw [List.dropWhile_cons, hs c List.mem_cons_self, if_neg Bool.false_ne_true]
  unfold Text.trimBy Text.trimEndBy
  rw [hdrop t h, hdrop t.reverse (fun c hc => h c (List.mem_reverse.1 hc)), List.reverse_reverse]

/-- What is to be trimmed is trimmed on both sides of what is not. -/
theorem trimBy_append (p : Char → Bool) (front core back : Text) (hne : core ≠ [])
    (hfront : ∀ c ∈ front, p c = true) (hcore : ∀ c ∈ core, p c = false)
    (hback : ∀ c ∈ back, p c = true) : (front ++ core ++ back).trimBy p = core := by
  -- The core is not empty, so it stops the blanks on both of its sides.
  have hstop : Text.Stops p (core ++ back) := by
    intro c hc
    rw [List.head?_append, Option.or_of_isSome (List.isSome_head?.2 hne)] at hc
    exact hcore c (List.mem_of_head? hc)
  have hend : Text.Stops p core.reverse :=
    fun c hc => hcore c (List.mem_reverse.1 (List.mem_of_head? hc))
  unfold Text.trimBy Text.trimEndBy
  rw [List.append_assoc, dropWhile_append_of_stops p front _ hfront hstop, List.reverse_append,
    dropWhile_append_of_stops p back.reverse _ (fun c hc => hback c (List.mem_reverse.1 hc)) hend,
    List.reverse_reverse]

theorem mem_of_mem_trimBy (p : Char → Bool) (c : Char) (t : Text) (h : c ∈ t.trimBy p) :
    c ∈ t := by
  unfold Text.trimBy Text.trimEndBy at h
  have hend := (List.dropWhile_sublist p).mem (List.mem_reverse.1 h)
  exact (List.dropWhile_sublist p).mem (List.mem_reverse.1 hend)

theorem mem_trimBy (p : Char → Bool) (c : Char) (t : Text) (hc : c ∈ t) (hkept : p c = false) :
    c ∈ t.trimBy p := by
  have hdrop : ∀ s : Text, c ∈ s → c ∈ s.dropWhile p := by
    intro s hs
    rw [← List.takeWhile_append_dropWhile (p := p) (l := s)] at hs
    rcases List.mem_append.1 hs with hfront | hrest
    · exact absurd (List.mem_takeWhile_imp hfront) (by rw [hkept]; exact Bool.false_ne_true)
    · exact hrest
  unfold Text.trimBy Text.trimEndBy
  rw [List.mem_reverse]
  exact hdrop _ (List.mem_reverse.2 (hdrop t hc))

theorem length_trimBy_le (p : Char → Bool) (t : Text) : (t.trimBy p).length ≤ t.length := by
  unfold Text.trimBy Text.trimEndBy
  rw [List.length_reverse]
  have hend := List.length_dropWhile_le p (t.dropWhile p).reverse
  have hfront := List.length_dropWhile_le p t
  rw [List.length_reverse] at hend
  omega

/-- A character that begins no line end joins the first of the lines after it. -/
theorem lines_cons (c : Char) (rest line : Text) (more : List Text) (hnewline : c ≠ '\n')
    (hreturn : c = '\r' → rest.head? ≠ some '\n') (hrest : Text.lines rest = line :: more) :
    Text.lines (c :: rest) = (c :: line) :: more := by
  rw [Text.lines.eq_def]
  -- The two cases of a line end are excluded by assumption.
  split
  · rename_i heq
    exact absurd heq (List.cons_ne_nil c rest)
  · rename_i after heq
    rw [List.cons.injEq] at heq
    exact absurd (by rw [heq.2]; rfl) (hreturn heq.1)
  · rename_i after heq
    rw [List.cons.injEq] at heq
    exact absurd heq.1 hnewline
  · rename_i d after _ _ heq
    rw [List.cons.injEq] at heq
    rw [← heq.1, ← heq.2, hrest]

/-- A text that can be written as one line: it holds no line feed, and it does not
    end like the beginning of a line end. -/
def Text.IsLine (t : Text) : Prop :=
  '\n' ∉ t ∧ t.getLast? ≠ some '\r'

instance (t : Text) : Decidable t.IsLine :=
  inferInstanceAs (Decidable (_ ∧ _))

theorem isLine_append (s t : Text) (hs : s.IsLine) (ht : t.IsLine) : (s ++ t).IsLine := by
  refine ⟨fun hmem => ?_, ?_⟩
  · rcases List.mem_append.1 hmem with hmem | hmem
    · exact hs.1 hmem
    · exact ht.1 hmem
  · -- The last character is that of the second text, unless it is empty.
    rw [List.getLast?_append]
    cases hlast : t.getLast? with
    | none => exact hs.2
    | some c =>
        rw [← hlast, Option.or_of_isSome (by rw [hlast]; rfl)]
        exact ht.2

theorem isLine_of_notMem (t : Text) (hnewline : '\n' ∉ t) (hreturn : '\r' ∉ t) : t.IsLine :=
  ⟨hnewline, fun hlast => hreturn (List.mem_of_getLast? hlast)⟩

/-- A line that is written first is read first. -/
theorem lines_append (line rest : Text) (h : line.IsLine) :
    Text.lines (line ++ '\n' :: rest) = line :: Text.lines rest := by
  rcases h with ⟨hnewline, hreturn⟩
  induction line with
  | nil => rfl
  | cons c line ih =>
      have hc : c ≠ '\n' := fun heq => hnewline (heq ▸ List.mem_cons_self)
      have htail : '\n' ∉ line := fun hmem => hnewline (List.mem_cons_of_mem _ hmem)
      -- A carriage return is followed by another character of the line.
      have hnext : c = '\r' → (line ++ '\n' :: rest).head? ≠ some '\n' := by
        intro hcr
        cases line with
        | nil => exact absurd (by rw [hcr]; rfl) hreturn
        | cons d more =>
            simp only [List.cons_append, List.head?_cons, ne_eq, Option.some.injEq]
            exact fun heq => htail (heq ▸ List.mem_cons_self)
      have hend : line.getLast? ≠ some '\r' := by
        intro hlast
        cases line with
        | nil => exact absurd hlast (by simp only [List.getLast?_nil, reduceCtorEq,
            not_false_eq_true])
        | cons d more => exact hreturn (by rw [List.getLast?_cons_cons, hlast])
      exact lines_cons c _ line _ hc hnext (ih htail hend)

/-- Lines that are written are read back. -/
theorem lines_flatMap (lines : List Text) (h : ∀ line ∈ lines, line.IsLine) :
    Text.lines (lines.flatMap fun line => line ++ ['\n']) = lines := by
  induction lines with
  | nil => rfl
  | cons line rest ih =>
      rw [List.flatMap_cons, List.append_assoc, List.singleton_append,
        lines_append line _ (h line List.mem_cons_self),
        ih (fun l hl => h l (List.mem_cons_of_mem _ hl))]

theorem lines_eq_nil_iff (t : Text) : Text.lines t = [] ↔ t = [] := by
  cases t with
  | nil => exact iff_of_true rfl rfl
  | cons c rest =>
      refine iff_of_false (fun hlines => ?_) (List.cons_ne_nil c rest)
      rw [Text.lines.eq_def] at hlines
      split at hlines
      · rename_i heq
        exact absurd heq (List.cons_ne_nil c rest)
      · exact absurd hlines (List.cons_ne_nil _ _)
      · exact absurd hlines (List.cons_ne_nil _ _)
      · split at hlines <;> exact absurd hlines (List.cons_ne_nil _ _)

/-- What stands after the end of a line does not change the lines before it. -/
theorem lines_append_of_getLast? (t more : Text) (h : ∀ c, t.getLast? = some c → c = '\n') :
    Text.lines (t ++ more) = Text.lines t ++ Text.lines more := by
  -- The last character of a text is that of its rest, unless the rest is empty.
  have htail : ∀ (c : Char) (rest : Text),
      (∀ d, (c :: rest).getLast? = some d → d = '\n') →
      ∀ d, rest.getLast? = some d → d = '\n' := by
    intro c rest hlast d hd
    refine hlast d ?_
    rw [List.getLast?_cons, hd]
    rfl
  induction t using Text.lines.induct with
  | case1 => rfl
  | case2 rest ih =>
      rw [Text.lines, List.cons_append, List.cons_append, Text.lines, ih (htail _ _ (htail _ _ h)),
        List.cons_append]
  | case3 rest ih =>
      rw [Text.lines, List.cons_append, Text.lines, ih (htail _ _ h), List.cons_append]
  | case4 c rest hreturn hnewline hlines ih =>
      rw [lines_eq_nil_iff] at hlines
      rw [hlines] at h
      exact absurd (h c rfl) hnewline
  | case5 c rest hreturn hnewline first others hlines ih =>
      rw [hlines] at ih
      -- The rest is not empty, so it is its own first character that follows.
      have hnext : ∀ after : Text, c = '\r' → (rest ++ after).head? ≠ some '\n' := by
        intro after hc hhead
        cases rest with
        | nil => exact absurd hlines.symm (List.cons_ne_nil first others)
        | cons d rest => exact hreturn rest hc (by rw [Option.some.inj hhead])
      have hjoined := ih (htail _ _ h)
      rw [List.cons_append] at hjoined
      rw [List.cons_append, lines_cons c _ _ _ hnewline (hnext more) hjoined,
        lines_cons c rest first others hnewline (by simpa using hnext []) hlines,
        List.cons_append]

theorem newline_notMem_of_mem_lines (t line : Text) (h : line ∈ Text.lines t) : '\n' ∉ line := by
  -- The first two cases end a line, the last two lengthen one by a character that ends none.
  induction t using Text.lines.induct generalizing line with
  | case1 => exact absurd h List.not_mem_nil
  | case2 rest ih =>
      rw [Text.lines] at h
      rcases List.mem_cons.1 h with rfl | hmem
      · exact List.not_mem_nil
      · exact ih line hmem
  | case3 rest ih =>
      rw [Text.lines] at h
      rcases List.mem_cons.1 h with rfl | hmem
      · exact List.not_mem_nil
      · exact ih line hmem
  | case4 c rest hreturn hnewline hlines ih =>
      rw [Text.lines, hlines] at h
      · rw [List.mem_singleton.1 h, List.mem_singleton]
        exact fun heq => hnewline heq.symm
      · exact hreturn
      · exact hnewline
  | case5 c rest hreturn hnewline first more hlines ih =>
      rw [Text.lines, hlines] at h
      · rw [hlines] at ih
        rcases List.mem_cons.1 h with rfl | hmem
        · intro hmem
          rcases List.mem_cons.1 hmem with heq | hmem
          · exact hnewline heq.symm
          · exact ih first List.mem_cons_self hmem
        · exact ih line (List.mem_cons_of_mem _ hmem)
      · exact hreturn
      · exact hnewline

/-- A text with a carriage return before every line feed. -/
def Text.withReturns (t : Text) : Text :=
  t.flatMap fun c => if c = '\n' then ['\r', '\n'] else [c]

/-- Carriage returns before the line feeds change no line, unless there is one already,
    which would become part of the line. -/
theorem lines_withReturns (t : Text) (h : '\r' ∉ t) :
    Text.lines t.withReturns = Text.lines t := by
  induction t with
  | nil => rfl
  | cons c rest ih =>
      have hc : c ≠ '\r' := fun heq => h (heq ▸ List.mem_cons_self)
      have hrest := ih fun hmem => h (List.mem_cons_of_mem _ hmem)
      unfold Text.withReturns at hrest ⊢
      rw [List.flatMap_cons]
      -- A line feed gets its return, with which it still ends the line.
      by_cases hnewline : c = '\n'
      · subst hnewline
        rw [if_pos rfl, List.cons_append, List.singleton_append, Text.lines, Text.lines, hrest]
      · rw [if_neg hnewline, List.singleton_append]
        have hother : ∀ after : Text, c = '\r' → after.head? ≠ some '\n' :=
          fun after heq => absurd heq hc
        cases hlines : Text.lines rest with
        | nil =>
            rw [(lines_eq_nil_iff rest).1 hlines]
            rfl
        | cons line more =>
            rw [hlines] at hrest
            rw [lines_cons c _ line more hnewline (hother _) hrest,
              lines_cons c rest line more hnewline (hother _) hlines]

end FileSignatures
