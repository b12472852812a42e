import FileSignatures.Proofs.Resource.Service

/-!
# Sessions

A source is used by one request after the other, and a request that fails does not
end its use: the next one meets whatever state the failure has left. A session is
such a sequence of requests, and its transcript says what each of them was answered.

Two sources are compared along a session by a relation of their states. What makes
the comparison unusual is that one of them may be spared some requests. `Accords`
says of a single operation that either both sources answer it alike, or the first
one fails in a way that is left out, after which it is still related to the second
one, which has not been asked at all. From operations this carries over to whole
sessions (`transcript_of_accords`): the second source, given only the requests that
are not left out, gives just the answers that the first one gave to them.

## Main definitions

* `Request`, `Reply`: What a source can be asked, and what it replies.
* `Exchange`: A request with its answer.
* `transcript`: The exchanges of a session.
* `afterwards`: The source that a session leaves.
* `Accords`: Two sources answer alike, or a failure is left out.

## Theorems

* `accords_map`: A conversion of the answer keeps the accord.
* `accords_mono`: Less may be known about the sources.
* `transcript_of_accords`: What sources in accord answer to a session.
-/

namespace FileSignatures

/-- What a source can be asked. -/
inductive Request where
  | seek (position : Nat)
  | read (count : Nat)
  | readByte
  | remaining
  | size
  deriving DecidableEq

/-- What a source replies. -/
inductive Reply where
  | done
  | bytes (content : List UInt8)
  | byte (value : UInt8)
  | count (n : Nat)
  deriving DecidableEq

/-- A request with its answer, which may be a fault. -/
structure Exchange where
  request : Request
  answer : Except Fault Reply

section Session

variable {σ : Type} [ByteSource σ]

/-- The operation that a request stands for. -/
def Request.perform : Request → Reading σ Reply
  | .seek position => do
    ByteSource.seek position
    return .done
  | .read count => return .bytes (← ByteSource.read count)
  | .readByte => return .byte (← ByteSource.readByte)
  | .remaining => return .count (← ByteSource.remaining)
  | .size => return .count (← ByteSource.size)

/-- One exchange with a source, and the source after it. -/
def exchange (source : σ) (request : Request) : Exchange × σ :=
  match request.perform source with
  | .ok reply source => (⟨request, .ok reply⟩, source)
  | .error fault source => (⟨request, .error fault⟩, source)

/-- The exchanges of a session. A fault does not end it. -/
def transcript (source : σ) : List Request → List Exchange
  | [] => []
  | request :: rest =>
    (exchange source request).1 :: transcript (exchange source request).2 rest

/-- The source that a session leaves. -/
def afterwards (source : σ) : List Request → σ
  | [] => source
  | request :: rest => afterwards (exchange source request).2 rest

theorem exchange_request (source : σ) (request : Request) :
    (exchange source request).1.request = request := by
  unfold exchange
  cases request.perform source <;> rfl

end Session

section Accord

variable {σ τ α β : Type} {drops : Fault → Prop} {after : σ → τ → Prop}
  {spared : Fault → σ → Prop}

/-- The results of one operation on two sources: both answer alike, or both fail
    alike, and the sources are as `after` says; or the first one fails in a way that
    is left out, and what it leaves is as `spared` says, whatever the second one
    would have answered. -/
inductive Accords (drops : Fault → Prop) (after : σ → τ → Prop) (spared : Fault → σ → Prop) :
    EStateM.Result Fault σ α → EStateM.Result Fault τ α → Prop
  | answered (a : α) (s : σ) (t : τ) (h : after s t) :
      Accords drops after spared (.ok a s) (.ok a t)
  | failed (fault : Fault) (s : σ) (t : τ) (hkept : ¬ drops fault) (h : after s t) :
      Accords drops after spared (.error fault s) (.error fault t)
  | leftOut (fault : Fault) (s : σ) (result : EStateM.Result Fault τ α) (hdrops : drops fault)
      (h : spared fault s) : Accords drops after spared (.error fault s) result

/-- A conversion of the answer keeps the accord. -/
theorem accords_map (x : Reading σ α) (y : Reading τ α) (f : α → β) (s : σ) (t : τ)
    (h : Accords drops after spared (x s) (y t)) :
    Accords drops after spared ((x >>= fun a => pure (f a)) s)
      ((y >>= fun a => pure (f a)) t) := by
  change Accords drops after spared (EStateM.bind x _ s) (EStateM.bind y _ t)
  unfold EStateM.bind
  generalize x s = first at h ⊢
  generalize y t = second at h ⊢
  cases h with
  | answered a s' t' hafter => exact .answered (f a) s' t' hafter
  | failed fault s' t' hkept hafter => exact .failed fault s' t' hkept hafter
  | leftOut fault s' _ hdrops hspared => exact .leftOut fault s' _ hdrops hspared

/-- Less may be known about the sources. -/
theorem accords_mono {after' : σ → τ → Prop} {spared' : Fault → σ → Prop}
    (first : EStateM.Result Fault σ α) (second : EStateM.Result Fault τ α)
    (hafter : ∀ s t, after s t → after' s t) (hspared : ∀ fault s, spared fault s → spared' fault s)
    (h : Accords drops after spared first second) : Accords drops after' spared' first second := by
  cases h with
  | answered a s t h => exact .answered a s t (hafter s t h)
  | failed fault s t hkept h => exact .failed fault s t hkept (hafter s t h)
  | leftOut fault s _ hdrops h => exact .leftOut fault s _ hdrops (hspared fault s h)

end Accord

section Transcript

variable {σ τ : Type} [ByteSource σ] [ByteSource τ] (keeps : Exchange → Bool)
  (related : σ → τ → Prop) (hreplies : ∀ request reply, keeps ⟨request, .ok reply⟩ = true)

include hreplies

/-- A request in accord is either kept, and then the second source answers it too,
    or it leaves the first source related to the second one as it is. -/
theorem exchange_of_accords (request : Request) (s : σ) (t : τ)
    (h : Accords (fun fault => keeps ⟨request, .error fault⟩ = false) related
      (fun _ s' => related s' t) (request.perform s) (request.perform t)) :
    (keeps (exchange s request).1 = true ∧ (exchange t request).1 = (exchange s request).1
      ∧ related (exchange s request).2 (exchange t request).2)
    ∨ (keeps (exchange s request).1 = false ∧ related (exchange s request).2 t) := by
  unfold exchange
  generalize request.perform s = first at h ⊢
  generalize request.perform t = second at h ⊢
  -- An answer and a fault that is kept are the same in both; any other is left out.
  cases h with
  | answered reply s' t' hrelated => exact Or.inl ⟨hreplies request reply, rfl, hrelated⟩
  | failed fault s' t' hkept hrelated =>
      exact Or.inl ⟨Bool.ne_false_iff.1 hkept, rfl, hrelated⟩
  | leftOut fault s' _ hdrops hrelated => exact Or.inr ⟨hdrops, hrelated⟩

/-- Where every request is in accord, up to the exchanges that are left out, so is
    every session: the second source answers the requests that are kept as the
    first one did, and the two are related afterwards. -/
theorem transcript_of_accords
    (hstep : ∀ request s t, related s t →
      Accords (fun fault => keeps ⟨request, .error fault⟩ = false) related
        (fun _ s' => related s' t) (request.perform s) (request.perform t))
    (requests : List Request) (s : σ) (t : τ) (h : related s t) :
    transcript t (((transcript s requests).filter keeps).map Exchange.request)
        = (transcript s requests).filter keeps
      ∧ related (afterwards s requests)
        (afterwards t (((transcript s requests).filter keeps).map Exchange.request)) := by
  -- By induction on the session. A request that is left out only moves the first
  -- source, so the second one has to be arbitrary.
  induction requests generalizing s t with
  | nil => exact ⟨rfl, h⟩
  | cons request rest ih =>
      rw [transcript, afterwards]
      rcases exchange_of_accords keeps related hreplies request s t (hstep request s t h) with
        ⟨hkept, hsame, hrelated⟩ | ⟨hdropped, hrelated⟩
      · rcases ih _ _ hrelated with ⟨htranscript, hafter⟩
        rw [List.filter_cons_of_pos hkept, List.map_cons, exchange_request, transcript,
          afterwards, hsame, htranscript]
        exact ⟨rfl, hafter⟩
      · rw [List.filter_cons_of_neg (by rw [hdropped]; exact Bool.false_ne_true)]
        exact ih _ t hrelated

end Transcript

end FileSignatures
