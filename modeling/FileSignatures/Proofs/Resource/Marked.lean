import FileSignatures.Proofs.Resource.Seekable
import FileSignatures.Resource.Marked

/-!
# Marked streams serve what they deliver

A stream hands out its bytes in chunks of any size, with interruptions in
between, and may fail on the way. A source over it keeps the bytes up to a
limit. Two facts make it as good as a list of bytes.

Measuring the size reads as much as will ever be kept (`size_mark`). It fails
exactly if a failure of the stream comes before that, and otherwise it leaves
the source settled: the buffer holds the first bytes of what the stream
delivers, and either the stream has ended or the limit is reached. How the
bytes were cut into chunks is forgotten at this point.

A settled source reads nothing more. Filling it changes no byte
(`fillTo_settled`), so it serves its buffer and can no longer fail.

## Main definitions

* `delivered`: The bytes that a stream delivers before its first empty chunk.
* `FailsWithin`: A failure comes before all bytes within reach have been seen.
* `FailsBefore`: A failure comes before so many bytes have been delivered.
* `Settled`: A source that has seen all that it will ever keep.
* `MarkedStream.service`: A settled source as a service of bytes.

## Theorems

* `failsWithin_iff_failsBefore`: What is within reach, said of the steps before
  the failure alone.
* `failsWithin_unique`: At most one failure is within reach.
* `pull_fills`: What filling a buffer leaves in it.
* `fillTo_settled`: Filling a settled source keeps its bytes.
* `size_mark`: Measuring a marked stream fails or settles it.
-/

namespace FileSignatures

/-- The bytes that a stream delivers before its first empty chunk, where it
    ends. Interruptions and failures deliver nothing. -/
def delivered : List StreamStep → List UInt8
  | [] => []
  | .chunk [] :: _ => []
  | .chunk (byte :: content) :: rest => byte :: content ++ delivered rest
  | .interruption :: rest => delivered rest
  | .failure _ :: rest => delivered rest

/-- A failure comes, as the first one, before so many bytes have been delivered
    as there are within the limit, or before the end has been seen of a stream
    that is shorter than the limit. -/
def FailsWithin (steps : List StreamStep) (limit : Nat) (reason : Text) : Prop :=
  ∃ before after, steps = before ++ .failure reason :: after
    ∧ (∀ other, .failure other ∉ before)
    ∧ ((delivered before).length < min limit (delivered steps).length
      ∨ (delivered steps).length < limit ∧ .chunk [] ∉ before)

theorem delivered_chunk (content : List UInt8) : delivered [.chunk content] = content := by
  cases content with
  | nil => rfl
  | cons byte more => exact congrArg (byte :: ·) (List.append_nil more)

theorem chunk_ne_failure (content : List UInt8) (reason : Text) :
    StreamStep.chunk content ≠ .failure reason := by
  simp only [ne_eq, reduceCtorEq, not_false_eq_true]

theorem chunk_cons_ne_end (byte : UInt8) (more : List UInt8) :
    StreamStep.chunk (byte :: more) ≠ .chunk [] := by
  simp only [ne_eq, StreamStep.chunk.injEq, reduceCtorEq, not_false_eq_true]

/-- An empty chunk ends a stream, whatever follows. -/
theorem delivered_append_of_mem (before after : List StreamStep) (h : .chunk [] ∈ before) :
    delivered (before ++ after) = delivered before := by
  induction before with
  | nil => exact absurd h (by simp only [List.not_mem_nil, not_false_eq_true])
  | cons step rest ih =>
      -- The first step ends the stream, or the empty chunk comes later.
      rcases step with ⟨_ | ⟨byte, content⟩⟩ | _ | reason
      · rfl
      · simp only [List.cons_append, delivered]
        rw [ih (by simpa only [List.mem_cons, StreamStep.chunk.injEq, reduceCtorEq, false_or]
          using h)]
      · simp only [List.cons_append, delivered]
        exact ih (by simpa only [List.mem_cons, reduceCtorEq, false_or] using h)
      · simp only [List.cons_append, delivered]
        exact ih (by simpa only [List.mem_cons, reduceCtorEq, false_or] using h)

/-- Steps without an empty chunk deliver their bytes in front of those of the
    rest. -/
theorem delivered_append_of_notMem (before after : List StreamStep) (h : .chunk [] ∉ before) :
    delivered (before ++ after) = delivered before ++ delivered after := by
  induction before with
  | nil => rfl
  | cons step rest ih =>
      have hrest : .chunk [] ∉ rest := fun hmem => h (List.mem_cons_of_mem _ hmem)
      rcases step with ⟨_ | ⟨byte, content⟩⟩ | _ | reason
      · exact absurd List.mem_cons_self h
      · simp only [List.cons_append, delivered]
        rw [ih hrest, List.append_assoc]
      · simp only [List.cons_append, delivered]
        exact ih hrest
      · simp only [List.cons_append, delivered]
        exact ih hrest

/-- A failure that comes, as the first one, before the stream has ended and
    before `room` bytes have been delivered. -/
def FailsBefore (steps : List StreamStep) (room : Nat) (reason : Text) : Prop :=
  ∃ before after, steps = before ++ .failure reason :: after
    ∧ (∀ other, .failure other ∉ before) ∧ .chunk [] ∉ before
    ∧ (delivered before).length < room

/-- Being within reach, said of the steps before the failure alone. -/
theorem failsWithin_iff_failsBefore (steps : List StreamStep) (limit : Nat) (reason : Text) :
    FailsWithin steps limit reason ↔ FailsBefore steps limit reason := by
  constructor
  · rintro ⟨before, after, rfl, hfirst, hreach⟩
    by_cases hend : .chunk [] ∈ before
    · -- Past the end nothing more is delivered, so neither half of the bound can hold.
      rw [delivered_append_of_mem _ _ hend] at hreach
      rcases hreach with hlt | ⟨_, hnot⟩
      · omega
      · exact absurd hend hnot
    · rw [delivered_append_of_notMem _ _ hend, List.length_append] at hreach
      exact ⟨before, after, rfl, hfirst, hend, by omega⟩
  · rintro ⟨before, after, rfl, hfirst, hend, hlt⟩
    refine ⟨before, after, rfl, hfirst, ?_⟩
    by_cases hshort : (delivered (before ++ .failure reason :: after)).length < limit
    · exact Or.inr ⟨hshort, hend⟩
    · exact Or.inl (by omega)

/-- The first failure of a stream is the same one however its steps are split. -/
theorem failure_unique (before₁ before₂ after₁ after₂ : List StreamStep) (reason₁ reason₂ : Text)
    (heq : before₁ ++ .failure reason₁ :: after₁ = before₂ ++ .failure reason₂ :: after₂)
    (hfirst₁ : ∀ other, .failure other ∉ before₁) (hfirst₂ : ∀ other, .failure other ∉ before₂) :
    reason₁ = reason₂ := by
  induction before₁ generalizing before₂ with
  | nil =>
      cases before₂ with
      | nil => exact StreamStep.failure.inj (List.cons.inj heq).1
      | cons step rest =>
          -- The second split starts later, behind a failure that it must not contain.
          exact absurd ((List.cons.inj heq).1 ▸ List.mem_cons_self) (hfirst₂ reason₁)
  | cons step rest ih =>
      cases before₂ with
      | nil => exact absurd ((List.cons.inj heq).1.symm ▸ List.mem_cons_self) (hfirst₁ reason₂)
      | cons other rest₂ =>
          exact ih rest₂ (List.cons.inj heq).2
            (fun reason h => hfirst₁ reason (List.mem_cons_of_mem _ h))
            (fun reason h => hfirst₂ reason (List.mem_cons_of_mem _ h))

/-- At most one failure is within reach, since it is the first one. -/
theorem failsWithin_unique (steps : List StreamStep) (limit : Nat) (reason₁ reason₂ : Text)
    (h₁ : FailsWithin steps limit reason₁) (h₂ : FailsWithin steps limit reason₂) :
    reason₁ = reason₂ := by
  rcases h₁ with ⟨before₁, after₁, rfl, hfirst₁, -⟩
  rcases h₂ with ⟨before₂, after₂, heq, hfirst₂, -⟩
  exact failure_unique before₁ before₂ after₁ after₂ reason₁ reason₂ heq hfirst₁ hfirst₂

/-- A failure at the front is met unless nothing is to be read. -/
theorem failsBefore_failure_iff (rest : List StreamStep) (room : Nat) (other reason : Text) :
    FailsBefore (.failure other :: rest) room reason ↔ 0 < room ∧ other = reason := by
  constructor
  · rintro ⟨_ | ⟨step, before⟩, after, heq, hfirst, -, hlt⟩
    · simp only [List.nil_append, List.cons.injEq, StreamStep.failure.injEq] at heq
      exact ⟨hlt, heq.1⟩
    · simp only [List.cons_append, List.cons.injEq] at heq
      exact absurd (heq.1 ▸ List.mem_cons_self) (hfirst other)
  · rintro ⟨hroom, rfl⟩
    exact ⟨[], rest, rfl, fun _ => List.not_mem_nil, List.not_mem_nil, hroom⟩

/-- An empty chunk at the front keeps every failure out of reach. -/
theorem not_failsBefore_end (rest : List StreamStep) (room : Nat) (reason : Text) :
    ¬ FailsBefore (.chunk [] :: rest) room reason := by
  rintro ⟨_ | ⟨step, before⟩, after, heq, -, hend, -⟩
  · simp only [List.nil_append, List.cons.injEq, reduceCtorEq, false_and] at heq
  · simp only [List.cons_append, List.cons.injEq] at heq
    exact hend (heq.1 ▸ List.mem_cons_self)

/-- Any other step at the front takes up as much room as it delivers bytes. -/
theorem failsBefore_cons_iff (step : StreamStep) (rest : List StreamStep) (room : Nat)
    (reason : Text) (hfailure : ∀ other, step ≠ .failure other) (hend : step ≠ .chunk []) :
    FailsBefore (step :: rest) room reason ↔
      FailsBefore rest (room - (delivered [step]).length) reason := by
  have hsingle : .chunk [] ∉ [step] := fun h => hend (List.mem_singleton.1 h).symm
  have hlength : ∀ before, (delivered (step :: before)).length
      = (delivered [step]).length + (delivered before).length := by
    intro before
    have happ := delivered_append_of_notMem [step] before hsingle
    rw [List.singleton_append] at happ
    rw [happ, List.length_append]
  -- The failure is not the first step, so it lies in the rest, with less room before it.
  constructor
  · rintro ⟨_ | ⟨first, before⟩, after, heq, hfirst, hnot, hlt⟩
    · simp only [List.nil_append, List.cons.injEq] at heq
      exact absurd heq.1 (hfailure reason)
    · simp only [List.cons_append, List.cons.injEq] at heq
      rcases heq with ⟨rfl, hrest⟩
      rw [hlength] at hlt
      exact ⟨before, after, hrest, fun other h => hfirst other (List.mem_cons_of_mem _ h),
        fun h => hnot (List.mem_cons_of_mem _ h), by omega⟩
  · rintro ⟨before, after, rfl, hfirst, hnot, hlt⟩
    refine ⟨step :: before, after, rfl, fun other h => ?_, fun h => ?_, ?_⟩
    · rcases List.mem_cons.1 h with h | h
      · exact hfailure other h.symm
      · exact hfirst other h
    · rcases List.mem_cons.1 h with h | h
      · exact hend h.symm
      · exact hnot h
    · rw [hlength]
      omega

/-- What filling a buffer up to `target` bytes may come to. If no failure lies
    within reach, the buffer gets the next bytes that the stream delivers and is
    left short of the target only at the end of the stream; otherwise filling
    fails with the reason of the first one. -/
def Pulled.Fills (pulled : Pulled) (target : Nat) (steps : List StreamStep)
    (buffer : Array UInt8) : Prop :=
  match pulled.failure with
  | some reason => FailsBefore steps (target - buffer.size) reason
  | none => (∀ reason, ¬ FailsBefore steps (target - buffer.size) reason)
    ∧ pulled.buffer.toList = buffer.toList ++ (delivered steps).take (target - buffer.size)
    ∧ (pulled.exhausted = true ∨ target ≤ pulled.buffer.size)

/-- A step whose bytes all fit only moves them to the buffer. -/
theorem fills_cons (pulled : Pulled) (target : Nat) (step : StreamStep) (rest : List StreamStep)
    (buffer : Array UInt8) (hfailure : ∀ other, step ≠ .failure other) (hend : step ≠ .chunk [])
    (hfits : (delivered [step]).length ≤ target - buffer.size)
    (h : pulled.Fills target rest (buffer ++ delivered [step])) :
    pulled.Fills target (step :: rest) buffer := by
  have hsize : target - (buffer ++ delivered [step]).size
      = target - buffer.size - (delivered [step]).length := by
    rw [← Array.length_toList, Array.toList_appendList, List.length_append, Array.length_toList]
    omega
  have hbytes : delivered (step :: rest) = delivered [step] ++ delivered rest :=
    delivered_append_of_notMem [step] rest (fun hmem => hend (List.mem_singleton.1 hmem).symm)
  unfold Pulled.Fills at h ⊢
  rw [hsize] at h
  -- A failure is met with that much less room, or the rest fills what is left.
  cases hrun : pulled.failure with
  | some reason =>
      rw [hrun] at h
      exact (failsBefore_cons_iff step rest _ reason hfailure hend).2 h
  | none =>
      rw [hrun] at h
      rcases h with ⟨hnone, hbuffer, hfull⟩
      refine ⟨fun reason hreach => hnone reason
        ((failsBefore_cons_iff step rest _ reason hfailure hend).1 hreach), ?_, hfull⟩
      rw [hbuffer, Array.toList_appendList, hbytes, List.append_assoc, List.take_append,
        List.take_of_length_le hfits]

/-- A chunk with more bytes than there is room for fills the buffer and keeps the
    failures behind it out of reach. -/
theorem fills_of_long_chunk (target : Nat) (byte : UInt8) (more : List UInt8)
    (rest : List StreamStep) (buffer : Array UInt8)
    (hlong : target - buffer.size < (byte :: more).length) :
    Pulled.Fills ⟨.chunk ((byte :: more).drop (target - buffer.size)) :: rest,
      buffer ++ (byte :: more).take (target - buffer.size), false, none⟩
      target (.chunk (byte :: more) :: rest) buffer := by
  -- No failure can be reached, the bytes are the first ones, and the buffer is full.
  refine ⟨fun reason hreach => ?_, ?_, Or.inr ?_⟩
  · rw [failsBefore_cons_iff _ _ _ _ (chunk_ne_failure _) (chunk_cons_ne_end byte more),
      delivered_chunk] at hreach
    rcases hreach with ⟨before, after, -, -, -, hlt⟩
    omega
  · rw [Array.toList_appendList, delivered, List.take_append_of_le_length (by omega)]
  · rw [← Array.length_toList, Array.toList_appendList, List.length_append, List.length_take,
      Array.length_toList]
    omega

theorem pull_of_full (target : Nat) (buffer : Array UInt8) (steps : List StreamStep)
    (h : target ≤ buffer.size) :
    MarkedStream.pull target buffer steps = ⟨steps, buffer, false, none⟩ := by
  cases steps with
  | nil =>
      unfold MarkedStream.pull
      rw [decide_eq_false (by omega)]
  | cons step rest =>
      unfold MarkedStream.pull
      rw [if_pos h]

/-- A full buffer stays as it is, and no failure is within reach. -/
theorem fills_of_full (target : Nat) (steps : List StreamStep) (buffer : Array UInt8)
    (h : target ≤ buffer.size) : Pulled.Fills ⟨steps, buffer, false, none⟩ target steps buffer := by
  have hroom : target - buffer.size = 0 := by omega
  unfold Pulled.Fills
  rw [hroom]
  refine ⟨?_, ?_, Or.inr h⟩
  · rintro reason ⟨before, after, -, -, -, hlt⟩
    omega
  · rw [List.take_zero, List.append_nil]

/-- Filling a buffer does what it should, however the bytes are cut. -/
theorem pull_fills (target : Nat) (steps : List StreamStep) (buffer : Array UInt8) :
    (MarkedStream.pull target buffer steps).Fills target steps buffer := by
  -- Every step that delivers bytes moves them to the buffer, and the rest of the
  -- stream has to fill what room is left then.
  induction steps generalizing buffer with
  | nil =>
      refine ⟨fun reason => ?_, ?_, ?_⟩
      · rintro ⟨before, after, heq, -⟩
        exact absurd heq.symm (by simp only [List.append_eq_nil_iff, List.cons_ne_nil, and_false,
          not_false_eq_true])
      · simp only [MarkedStream.pull, delivered, List.take_nil, List.append_nil]
      · simp only [MarkedStream.pull, decide_eq_true_eq]
        omega
  | cons step rest ih =>
      by_cases hfull : target ≤ buffer.size
      · rw [pull_of_full target buffer _ hfull]
        exact fills_of_full target _ buffer hfull
      · have hroom : 0 < target - buffer.size := by omega
        unfold MarkedStream.pull
        rw [if_neg hfull]
        rcases step with content | _ | reason
        · rcases content with _ | ⟨byte, more⟩
          · -- The stream ends here.
            refine ⟨fun reason => not_failsBefore_end rest _ reason, ?_, Or.inl rfl⟩
            simp only [List.isEmpty_nil, if_true, delivered, List.take_nil, List.append_nil]
          · simp only [List.isEmpty_cons, Bool.false_eq_true, if_false]
            by_cases hfits : (byte :: more).length ≤ target - buffer.size
            · rw [if_pos hfits]
              refine fills_cons _ target _ rest buffer (chunk_ne_failure _)
                (chunk_cons_ne_end byte more) ?_ ?_
              · rw [delivered_chunk]
                exact hfits
              · rw [delivered_chunk]
                exact ih (buffer ++ (byte :: more))
            · rw [if_neg hfits]
              exact fills_of_long_chunk target byte more rest buffer (by omega)
        · -- An interruption delivers nothing, and is forgotten.
          refine fills_cons _ target _ rest buffer (fun other => ?_) ?_ (Nat.zero_le _) ?_
          · simp only [ne_eq, reduceCtorEq, not_false_eq_true]
          · simp only [ne_eq, reduceCtorEq, not_false_eq_true]
          · simp only [delivered, Array.appendList_nil]
            exact ih buffer
        · exact (failsBefore_failure_iff rest _ reason reason).2 ⟨hroom, rfl⟩

namespace MarkedStream

/-- The source keeps `content` and will not keep more: the stream has ended, or
    the limit is reached. -/
def Settled (content : List UInt8) (source : MarkedStream) : Prop :=
  source.buffer.toList = content ∧ (source.exhausted = true ∨ source.limit ≤ source.buffer.size)

/-- Filling a settled source changes neither its bytes nor its position. -/
theorem fillTo_settled (content : List UInt8) (target : Nat) (source : MarkedStream)
    (h : Settled content source) :
    ∃ source', fillTo target source = .ok () source' ∧ Settled content source'
      ∧ source'.position = source.position := by
  unfold fillTo
  by_cases hend : source.exhausted = true
  · rw [if_pos hend]
    exact ⟨source, rfl, h, rfl⟩
  · -- No target lies beyond the limit, up to which the buffer is full.
    rw [if_neg hend]
    have hlimit : source.limit ≤ source.buffer.size := h.2.resolve_left hend
    have hpull := pull_of_full (min target source.limit) source.buffer source.steps (by omega)
    simp only [hpull]
    exact ⟨_, rfl, ⟨h.1, Or.inr hlimit⟩, rfl⟩

/-- The source is settled and stands at a position among its bytes or at their
    end. -/
def StandsAt (content : List UInt8) (position : Nat) (source : MarkedStream) : Prop :=
  Settled content source ∧ source.position = position ∧ position ≤ content.length

/-- A seek stops at the last byte that filling has brought. -/
theorem seek_of_fillTo (position : Nat) (source filled : MarkedStream)
    (h : fillTo position source = .ok () filled) :
    seek position source
      = .ok () { filled with position := min position filled.buffer.size } := by
  change EStateM.bind (fillTo position) _ source = _
  unfold EStateM.bind
  rw [h]
  rfl

/-- A read runs short if filling has not brought enough bytes. -/
theorem read_of_fillTo (count : Nat) (source filled : MarkedStream)
    (h : fillTo (source.position + count) source = .ok () filled) :
    read count source
      = if filled.buffer.size < filled.position + count then
          .error (.endOfData count (filled.buffer.size - filled.position)) filled
        else .ok (window filled.buffer filled.position count)
          { filled with position := filled.position + count } := by
  change EStateM.bind (fillTo (source.position + count)) _ source = _
  unfold EStateM.bind
  rw [h]
  -- Both branches compute once it is known which one is taken.
  by_cases hshort : filled.buffer.size < filled.position + count
  · rw [if_pos hshort]
    change (if _ then _ else _ : Reading MarkedStream _) filled = _
    rw [if_pos hshort]
    rfl
  · rw [if_neg hshort]
    change (if _ then _ else _ : Reading MarkedStream _) filled = _
    rw [if_neg hshort]
    rfl

theorem marked_seek_yields (content : List UInt8) (position : Nat) (source : MarkedStream)
    (hle : position ≤ content.length) (h : Settled content source) :
    Yields (fun _ => False) (Settled content) (StandsAt content position) (some ())
      (seek position source) := by
  rcases fillTo_settled content position source h with ⟨filled, hrun, hsettled, -⟩
  rw [seek_of_fillTo position source filled hrun]
  refine ⟨rfl, hsettled, ?_, hle⟩
  rw [← Array.length_toList, hsettled.1]
  exact Nat.min_eq_left hle

/-- Reading from a settled source delivers the bytes at the position, or runs
    short where they end. -/
theorem marked_read_yields (content : List UInt8) (position count : Nat) (source : MarkedStream)
    (h : StandsAt content position source) :
    Yields (fun _ => False) (Settled content) (StandsAt content (position + count))
      (stretch? content position count) (read count source) := by
  rcases h with ⟨hsource, rfl, hle⟩
  rcases fillTo_settled content (source.position + count) source hsource with
    ⟨filled, hrun, hsettled, hposition⟩
  -- A settled source has all bytes in its buffer already.
  have hsize : filled.buffer.size = content.length := by
    rw [← Array.length_toList, hsettled.1]
  rw [read_of_fillTo count source filled hrun, hposition, hsize]
  by_cases hshort : content.length < source.position + count
  · rw [if_pos hshort]
    exact ⟨by rw [stretch?, if_neg (by omega)], hsettled⟩
  · rw [if_neg hshort]
    refine ⟨?_, hsettled, rfl, by omega⟩
    rw [stretch?_eq_some_iff, window_eq, hsettled.1]
    exact ⟨by omega, rfl⟩

/-- A settled source serves the bytes that it keeps, and cannot fail. -/
def service (content : List UInt8) : Service MarkedStream where
  content := content
  size := content.length
  mayFail _ := False
  Ready := Settled content
  StandsAt := StandsAt content
  ready_of_standsAt _ _ h := h.1
  seek_yields := marked_seek_yields content
  read_yields := marked_read_yields content

/-- Measuring a stream that has just been marked fails with the reason of the
    first failure within reach. If there is none, it settles the source on the
    bytes within the limit. -/
theorem size_mark (steps : List StreamStep) (limit : Nat) :
    (∃ reason source, FailsWithin steps limit reason
      ∧ size (mark steps limit) = .error (.io reason) source)
    ∨ (∃ source, (∀ reason, ¬ FailsWithin steps limit reason)
      ∧ Settled ((delivered steps).take limit) source
      ∧ size (mark steps limit) = .ok ((delivered steps).take limit).length source) := by
  -- The source is new, so its size is what filling an empty buffer comes to.
  have hfills := pull_fills limit steps #[]
  have hsize : size (mark steps limit) = EStateM.bind (fillTo limit)
      (fun _ => fun source => .ok source.buffer.size source) (mark steps limit) := rfl
  rw [hsize]
  simp only [EStateM.bind, fillTo, mark, Bool.false_eq_true, if_false, Nat.min_self]
  generalize pull limit #[] steps = pulled at hfills ⊢
  simp only [Pulled.Fills, List.size_toArray, List.length_nil, Nat.sub_zero,
    List.nil_append] at hfills
  cases hrun : pulled.failure with
  | some reason =>
      rw [hrun] at hfills
      exact Or.inl ⟨reason, _, (failsWithin_iff_failsBefore steps limit reason).2 hfills, rfl⟩
  | none =>
      rw [hrun] at hfills
      rcases hfills with ⟨hnone, hbuffer, hfull⟩
      refine Or.inr ⟨⟨pulled.steps, pulled.buffer, 0, limit, pulled.exhausted⟩,
        fun reason hreach => hnone reason
          ((failsWithin_iff_failsBefore steps limit reason).1 hreach), ⟨hbuffer, hfull⟩, ?_⟩
      simp only [← hbuffer, Array.length_toList]

end MarkedStream

end FileSignatures
