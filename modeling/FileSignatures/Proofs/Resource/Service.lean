import FileSignatures.Resource.Source

/-!
# Sources that serve bytes

A source is a state machine, and an operation on it may end in four ways: with
an answer, short of data, with a fault of the resource, or with a fault that is
none of its own. What a reader wants to know is simpler: which bytes there are.
This module says when a source is as good as a list of bytes.

`Yields` compares one run of an operation with the answer that the bytes
determine. Running short is the answer `none`, and it leaves the source usable;
a fault of the resource is allowed where `mayFail` allows its reason; nothing
else may happen. Such facts compose along a bind (`yields_bind`), so an
operation that is built from reads is compared step by step with a function on
the bytes.

`Service` collects what a kind of source has to provide: the states in which it
can be used, those in which it stands at a position, and that seeking and
reading lead from the ones to the others with the right bytes. The size that a
source claims need not be the number of its bytes, since a resource may shrink
after it was measured.

## Main definitions

* `stretch?`: The bytes that a read of some count delivers.
* `Yields`: A run that gives the answer expected or fails as allowed.
* `Service`: A source that serves a list of bytes.

## Theorems

* `stretch?_eq_some_iff`: A read succeeds exactly if it fits.
* `yields_pure`, `yields_bind`, `yields_map`: How runs compose.
* `yields_mono`: Less may be known about the state that is left.
* `yields_some_cases`: How a run can end that does not run short.
* `yields_unlessShort`: Running short becomes an answer.
-/

namespace FileSignatures

/-- The bytes that a read of `count` bytes at a position delivers, or nothing if
    fewer are left. Nothing at all can be read anywhere, also beyond the end. -/
def stretch? (content : List UInt8) (position count : Nat) : Option (List UInt8) :=
  if count ≤ content.length - position then some ((content.drop position).take count) else none

/-- A read succeeds exactly if it fits, and then it delivers what stands
    there. -/
theorem stretch?_eq_some_iff (content : List UInt8) (position count : Nat)
    (bytes : List UInt8) :
    stretch? content position count = some bytes ↔
      count ≤ content.length - position ∧ bytes = (content.drop position).take count := by
  unfold stretch?
  by_cases h : count ≤ content.length - position
  · rw [if_pos h, Option.some.injEq]
    exact ⟨fun heq => ⟨h, heq.symm⟩, fun hb => hb.2.symm⟩
  · rw [if_neg h]
    exact ⟨fun heq => absurd heq (by simp only [reduceCtorEq, not_false_eq_true]),
      fun hb => absurd hb.1 h⟩

section Outcomes

variable {σ α β : Type} {mayFail : Text → Prop} {ready mid after : σ → Prop}

/-- A run that gives the expected answer and leaves a state with `after`, or
    that runs short where `none` is expected and leaves a state with `ready`, or
    that ends with a fault of the resource that is allowed. -/
def Yields (mayFail : Text → Prop) (ready after : σ → Prop) (answer : Option α) :
    EStateM.Result Fault σ α → Prop
  | .ok a s => answer = some a ∧ after s
  | .error (.endOfData _ _) s => answer = none ∧ ready s
  | .error (.io reason) _ => mayFail reason
  -- The other faults belong to the matching, no source raises them.
  | .error (.operatorMismatch _ _ _) _ => False
  | .error (.badNumber _) _ => False

theorem bind_of_ok (x : Reading σ α) (k : α → Reading σ β) (s t : σ) (a : α)
    (h : x s = .ok a t) : (x >>= k) s = k a t := by
  change EStateM.bind x k s = k a t
  rw [EStateM.bind, h]

theorem bind_of_error (x : Reading σ α) (k : α → Reading σ β) (s t : σ) (fault : Fault)
    (h : x s = .error fault t) : (x >>= k) s = .error fault t := by
  change EStateM.bind x k s = .error fault t
  rw [EStateM.bind, h]

theorem yields_pure (a : α) (s : σ) (h : after s) :
    Yields mayFail ready after (some a) ((pure a : Reading σ α) s) :=
  ⟨rfl, h⟩

/-- Running short without touching the source. -/
theorem yields_short (needed available : Nat) (s : σ) (h : ready s) :
    Yields mayFail ready after (none : Option α)
      ((throw (.endOfData needed available) : Reading σ α) s) :=
  ⟨rfl, h⟩

theorem yields_mono (answer : Option α) (result : EStateM.Result Fault σ α)
    (hafter : ∀ s, mid s → after s) (h : Yields mayFail ready mid answer result) :
    Yields mayFail ready after answer result := by
  rcases result with ⟨a, s⟩ | ⟨fault, s⟩
  · exact ⟨h.1, hafter s h.2⟩
  · cases fault with
    | endOfData needed available => exact h
    | io reason => exact h
    | operatorMismatch line operator type => exact h
    | badNumber error => exact h

/-- One operation after the other. The second one starts in a state that the
    first has left, with the answer that was expected of the first. -/
theorem yields_bind (x : Reading σ α) (k : α → Reading σ β) (first : Option α)
    (second : α → Option β) (s : σ) (hx : Yields mayFail ready mid first (x s))
    (hk : ∀ a t, first = some a → mid t → Yields mayFail ready after (second a) (k a t)) :
    Yields mayFail ready after (first.bind second) ((x >>= k) s) := by
  cases hrun : x s with
  | ok a t =>
      rw [hrun] at hx
      rw [bind_of_ok x k s t a hrun, hx.1, Option.bind_some]
      exact hk a t hx.1 hx.2
  | error fault t =>
      rw [hrun] at hx
      rw [bind_of_error x k s t fault hrun]
      cases fault with
      | endOfData needed available =>
          -- The second operation never runs, and of its answer nothing is expected.
          rw [hx.1, Option.bind_none]
          exact ⟨rfl, hx.2⟩
      | io reason => exact hx
      | operatorMismatch line operator type => exact hx
      | badNumber error => exact hx

/-- The same if the first operation never runs short. -/
theorem yields_bind_some (x : Reading σ α) (k : α → Reading σ β) (a : α) (answer : Option β)
    (s : σ) (hx : Yields mayFail ready mid (some a) (x s))
    (hk : ∀ t, mid t → Yields mayFail ready after answer (k a t)) :
    Yields mayFail ready after answer ((x >>= k) s) := by
  refine yields_bind x k (some a) (fun _ => answer) s hx (fun b t hb ht => ?_)
  rw [Option.some.injEq] at hb
  rw [← hb]
  exact hk t ht

/-- An operation whose answer is passed on after a conversion. -/
theorem yields_map (x : Reading σ α) (f : α → β) (first : Option α) (s : σ)
    (hx : Yields mayFail ready after first (x s)) :
    Yields mayFail ready after (first.map f) ((x >>= fun a => pure (f a)) s) := by
  rw [Option.map_eq_bind]
  exact yields_bind x _ first _ s hx (fun a t _ ht => yields_pure (f a) t ht)

/-- A run that cannot run short ends with the answer or with a fault of the
    resource. -/
theorem yields_some_cases (a : α) (result : EStateM.Result Fault σ α)
    (h : Yields mayFail ready after (some a) result) :
    (∃ s, result = .ok a s ∧ after s)
      ∨ ∃ reason s, result = .error (.io reason) s ∧ mayFail reason := by
  rcases result with ⟨b, s⟩ | ⟨fault, s⟩
  · rw [Option.some.inj h.1]
    exact Or.inl ⟨s, rfl, h.2⟩
  · cases fault with
    | endOfData needed available => exact absurd h.1 (Option.some_ne_none a)
    | io reason => exact Or.inr ⟨reason, s, rfl, h⟩
    | operatorMismatch line operator type => exact absurd h not_false
    | badNumber error => exact absurd h not_false

/-- Running short becomes an answer, after which the source is usable. -/
theorem yields_unlessShort (x : Reading σ α) (answer : Option α) (s : σ)
    (hready : ∀ t, after t → ready t) (hx : Yields mayFail ready after answer (x s)) :
    Yields mayFail ready ready (some answer) (ByteSource.unlessShort x s) := by
  unfold ByteSource.unlessShort
  cases hrun : x s with
  | ok a t =>
      rw [hrun] at hx
      exact ⟨by rw [hx.1], hready t hx.2⟩
  | error fault t =>
      rw [hrun] at hx
      cases fault with
      | endOfData needed available => exact ⟨by rw [hx.1], hx.2⟩
      | io reason => exact hx
      | operatorMismatch line operator type => exact hx
      | badNumber error => exact hx

end Outcomes

/-- A source that serves a list of bytes. -/
structure Service (σ : Type) [ByteSource σ] where
  /-- The bytes that can be read. -/
  content : List UInt8
  /-- The size that the source claims to have. -/
  size : Nat
  /-- The reasons for which the resource may fail. -/
  mayFail : Text → Prop
  /-- The states in which the source can be used. -/
  Ready : σ → Prop
  /-- The states in which the source stands at a position. -/
  StandsAt : Nat → σ → Prop
  -- After a read that runs short no position is known, only that a seek may follow.
  ready_of_standsAt : ∀ position s, StandsAt position s → Ready s
  seek_yields : ∀ position s, position ≤ size → Ready s →
    Yields mayFail Ready (StandsAt position) (some ()) (ByteSource.seek position s)
  read_yields : ∀ position count s, StandsAt position s →
    Yields mayFail Ready (StandsAt (position + count)) (stretch? content position count)
      (ByteSource.read count s)

end FileSignatures
