import Mathlib.Algebra.BigOperators.Group.List.Basic
import Mathlib.Algebra.Ring.Nat
import Mathlib.Data.Finset.Card
import Mathlib.Logic.Function.Basic

/-!
# Compare and hash stages of the client

Every manifest file goes through the compare pipeline. A file of equal size and different
mtime is settled by hashes: the request goes to the server, the local file is hashed by a
worker, and the main thread resolves the file once both are there.
-/

namespace FastClone.Client

/-- `CompareAction`. -/
inductive CompareAction where
  | transferNow
  | skip
  | needHash
  deriving DecidableEq, Repr

/-- `delayedCompareEntries` and the compare pipeline: the producer's buffer, the task queue,
the batches of the workers and the results. `issued` and `drained` are its counters. -/
structure CompareStage (P : Type) where
  delayedCompareEntries : List P
  dispatchBuffer : List P
  tasks : List P
  working : List (List P)
  results : List (P × CompareAction)
  issued : ℕ
  drained : ℕ
  issued_eq : issued = drained + dispatchBuffer.length + tasks.length + working.flatten.length +
    results.length

namespace CompareStage

variable {P : Type}

/-- Nothing to compare. -/
def empty (P : Type) : CompareStage P where
  delayedCompareEntries := []
  dispatchBuffer := []
  tasks := []
  working := []
  results := []
  issued := 0
  drained := 0
  issued_eq := rfl

/-- `InFlight`. -/
def inFlight (c : CompareStage P) : ℕ := c.issued - c.drained

/-- `Enqueue`. -/
def enqueue (c : CompareStage P) (rel : P) : CompareStage P :=
  { c with
    dispatchBuffer := c.dispatchBuffer ++ [rel]
    issued := c.issued + 1
    issued_eq := by
      have := c.issued_eq
      simp only [List.length_append, List.length_singleton]
      omega }

/-- The `ManifestEntry` handler: a full pipeline delays the entry. -/
def offer (maxInFlight : ℕ) (c : CompareStage P) (rel : P) : CompareStage P :=
  if c.inFlight ≥ maxInFlight then
    { c with delayedCompareEntries := c.delayedCompareEntries ++ [rel] }
  else c.enqueue rel

/-- The loop that refills the pipeline from the delayed entries. -/
def refill (maxInFlight : ℕ) (c : CompareStage P) : CompareStage P :=
  go c.delayedCompareEntries c
where
  go : List P → CompareStage P → CompareStage P
  | [], c => { c with delayedCompareEntries := [] }
  | rel :: rest, c =>
    if c.inFlight < maxInFlight then go rest (c.enqueue rel)
    else { c with delayedCompareEntries := rel :: rest }

/-- `Flush`. -/
def flush (c : CompareStage P) : CompareStage P :=
  { c with
    dispatchBuffer := []
    tasks := c.tasks ++ c.dispatchBuffer
    issued_eq := by
      have := c.issued_eq
      simp only [List.length_append, List.length_nil]
      omega }

/-- A worker pops a batch of at most 32 tasks. -/
def workerTake (c : CompareStage P) : CompareStage P :=
  { c with
    tasks := c.tasks.drop 32
    working := c.tasks.take 32 :: c.working
    issued_eq := by
      have h := c.issued_eq
      have h32 := congrArg List.length (List.take_append_drop 32 c.tasks)
      simp only [List.length_append] at h32
      simp only [List.flatten_cons, List.length_append]
      omega }

theorem flatten_eraseIdx {α : Type} : ∀ (l : List (List α)) (i : ℕ) (x : List α), l[i]? = some x →
    l.flatten.length = x.length + (l.eraseIdx i).flatten.length
  | [], i, x, h => by simp at h
  | y :: l, 0, x, h => by simp_all
  | y :: l, i + 1, x, h => by
    have ih := flatten_eraseIdx l i x (by simpa using h)
    simp only [List.eraseIdx_cons_succ, List.flatten_cons, List.length_append, ih]
    omega

/-- The worker at position `i` publishes its batch with one action for each entry. -/
def workerPublish (c : CompareStage P) (i : ℕ) (act : P → CompareAction) : CompareStage P :=
  match h : c.working[i]? with
  | none => c
  | some batch =>
    { c with
      working := c.working.eraseIdx i
      results := c.results ++ batch.map fun rel => (rel, act rel)
      issued_eq := by
        have h' := c.issued_eq
        have hf := flatten_eraseIdx c.working i batch h
        simp only [List.length_append, List.length_map]
        omega }

/-- `Drain`, one result at a time. -/
def drainOne (c : CompareStage P) : Option ((P × CompareAction) × CompareStage P) :=
  match h : c.results with
  | [] => none
  | r :: rest =>
    some (r,
      { c with
        results := rest
        drained := c.drained + 1
        issued_eq := by
          have h' := c.issued_eq
          rw [h] at h'
          simp only [List.length_cons] at h'
          omega })

end CompareStage

/-- Where a hash worker stands between popping a task and reporting it ready. -/
inductive HashPhase where
  | popped
  | counted
  | recorded
  | left
  deriving DecidableEq, Repr

/-- The hash stage. `hashJobs` is the peer's side: the requests that reached the server over a
lane and that it has not answered yet. -/
structure HashStage (P H : Type) where
  pendingHashRequests : List P
  hashRequested : Finset P
  hashResolved : Finset P
  fallbackCount : ℕ
  fallbackResolved : ℕ
  hashRequestsSent : ℕ
  hashResponsesReceived : ℕ
  hashTaskQueue : List P
  hashWorkers : List (P × HashPhase)
  localHashInFlight : ℕ
  localHashes : P → Option H
  localHashFailed : Finset P
  remoteHashes : P → Option H
  fallbackReadyQueue : List P
  hashJobs : List (ℕ × P)
  count_eq : fallbackCount = hashRequested.card
  resolved_eq : fallbackResolved = hashResolved.card
  resolved_sub : hashResolved ⊆ hashRequested
  pending_sub : ∀ f ∈ pendingHashRequests, f ∈ hashRequested
  queue_sub : ∀ f ∈ hashTaskQueue, f ∈ hashRequested
  workers_sub : ∀ w ∈ hashWorkers, w.1 ∈ hashRequested
  hashes_sub : ∀ f, localHashes f ≠ none → f ∈ hashRequested
  failed_sub : localHashFailed ⊆ hashRequested

namespace HashStage

variable {P H : Type}

/-- No hash was asked for. -/
def empty (P H : Type) : HashStage P H where
  pendingHashRequests := []
  hashRequested := ∅
  hashResolved := ∅
  fallbackCount := 0
  fallbackResolved := 0
  hashRequestsSent := 0
  hashResponsesReceived := 0
  hashTaskQueue := []
  hashWorkers := []
  localHashInFlight := 0
  localHashes := fun _ => none
  localHashFailed := ∅
  remoteHashes := fun _ => none
  fallbackReadyQueue := []
  hashJobs := []
  count_eq := rfl
  resolved_eq := rfl
  resolved_sub := Finset.Subset.refl _
  pending_sub := by simp
  queue_sub := by simp
  workers_sub := by simp
  hashes_sub := by simp
  failed_sub := Finset.Subset.refl _

/-- How many requests one flush of `dispatchHashRequests` takes: 256 at most, within the
window of unanswered requests. -/
def flushSize (window : ℕ) (h : HashStage P H) : ℕ :=
  min 256 (min h.pendingHashRequests.length
    (window - (h.hashRequestsSent - h.hashResponsesReceived)))

/-- One flush of `dispatchHashRequests` on a lane: the requests leave the queue, are counted and
get a local task, whatever becomes of the send. `reached` of them reach the server. -/
def dispatch (window lane reached : ℕ) (h : HashStage P H) : HashStage P H :=
  let n := h.flushSize window
  { h with
    pendingHashRequests := h.pendingHashRequests.drop n
    hashRequestsSent := h.hashRequestsSent + n
    hashTaskQueue := h.hashTaskQueue ++ h.pendingHashRequests.take n
    hashJobs := h.hashJobs ++ ((h.pendingHashRequests.take n).take reached).map fun f => (lane, f)
    pending_sub := fun f hf => h.pending_sub f (List.mem_of_mem_drop hf)
    queue_sub := by
      intro f hf
      rcases List.mem_append.1 hf with hf | hf
      · exact h.queue_sub f hf
      · exact h.pending_sub f (List.mem_of_mem_take hf) }

/-- A hash worker pops a task. -/
def workerPop (h : HashStage P H) : HashStage P H :=
  match hq : h.hashTaskQueue with
  | [] => h
  | f :: rest =>
    { h with
      hashTaskQueue := rest
      hashWorkers := (f, .popped) :: h.hashWorkers
      queue_sub := fun g hg => h.queue_sub g (by rw [hq]; exact List.mem_cons_of_mem _ hg)
      workers_sub := by
        intro w hw
        rcases List.mem_cons.1 hw with rfl | hw
        · exact h.queue_sub f (by rw [hq]; exact List.mem_cons_self)
        · exact h.workers_sub w hw }

/-- The phase of the worker at position `i` replaced. -/
def setPhase (h : HashStage P H) (i : ℕ) (p : HashPhase) : HashStage P H :=
  { h with
    hashWorkers := h.hashWorkers.modify i fun w => (w.1, p)
    workers_sub := by
      intro w hw
      obtain ⟨j, hj⟩ := List.mem_iff_getElem?.1 hw
      rw [List.getElem?_modify] at hj
      obtain ⟨v, hv, rfl⟩ := Option.map_eq_some_iff.1 hj
      have := h.workers_sub v (List.mem_of_getElem? hv)
      split <;> exact this }

/-- `localHashInFlight.fetch_add`. -/
def workerCount (h : HashStage P H) (i : ℕ) : HashStage P H :=
  match h.hashWorkers[i]? with
  | some (_, .popped) => { h.setPhase i .counted with localHashInFlight := h.localHashInFlight + 1 }
  | _ => h

/-- `localHashInFlight.fetch_sub`. -/
def workerLeave (h : HashStage P H) (i : ℕ) : HashStage P H :=
  match h.hashWorkers[i]? with
  | some (_, .recorded) => { h.setPhase i .left with localHashInFlight := h.localHashInFlight - 1 }
  | _ => h

/-- The worker reports its file ready. -/
def workerReady (h : HashStage P H) (i : ℕ) : HashStage P H :=
  match h.hashWorkers[i]? with
  | some (f, .left) =>
    { h with
      hashWorkers := h.hashWorkers.eraseIdx i
      fallbackReadyQueue := h.fallbackReadyQueue ++ [f]
      workers_sub := fun w hw => h.workers_sub w (List.mem_of_mem_eraseIdx hw) }
  | _ => h

variable [DecidableEq P]

/-- The branch of `handleCompareResult` that asks for a hash, once for each file. -/
def request (h : HashStage P H) (rel : P) : HashStage P H :=
  if hr : rel ∈ h.hashRequested then h
  else
    { h with
      hashRequested := insert rel h.hashRequested
      fallbackCount := h.fallbackCount + 1
      pendingHashRequests := h.pendingHashRequests ++ [rel]
      count_eq := by rw [Finset.card_insert_of_notMem hr, h.count_eq]
      resolved_sub := fun f hf => Finset.mem_insert_of_mem (h.resolved_sub hf)
      pending_sub := by
        intro f hf
        rcases List.mem_append.1 hf with hf | hf
        · exact Finset.mem_insert_of_mem (h.pending_sub f hf)
        · simp at hf
          exact Finset.mem_insert.2 (.inl hf)
      queue_sub := fun f hf => Finset.mem_insert_of_mem (h.queue_sub f hf)
      workers_sub := fun w hw => Finset.mem_insert_of_mem (h.workers_sub w hw)
      hashes_sub := fun f hf => Finset.mem_insert_of_mem (h.hashes_sub f hf)
      failed_sub := fun f hf => Finset.mem_insert_of_mem (h.failed_sub hf) }

/-- The worker records the local hash, or that hashing failed. -/
def workerRecord (h : HashStage P H) (i : ℕ) (result : Option H) : HashStage P H :=
  match hw : h.hashWorkers[i]? with
  | some (f, .counted) =>
    { h.setPhase i .recorded with
      localHashes := match result with
        | some v => Function.update h.localHashes f (some v)
        | none => h.localHashes
      localHashFailed := match result with
        | some _ => h.localHashFailed
        | none => insert f h.localHashFailed
      hashes_sub := by
        have hf : f ∈ h.hashRequested := h.workers_sub (f, .counted) (List.mem_of_getElem? hw)
        intro g hg
        cases result with
        | none => exact h.hashes_sub g hg
        | some v =>
          by_cases hfg : g = f
          · subst hfg
            exact hf
          · simp only [Function.update_of_ne hfg] at hg
            exact h.hashes_sub g hg
      failed_sub := by
        have hf : f ∈ h.hashRequested := h.workers_sub (f, .counted) (List.mem_of_getElem? hw)
        cases result with
        | none => exact Finset.insert_subset hf h.failed_sub
        | some v => exact h.failed_sub }
  | _ => h

/-- The `HashResponse` handler for a file that is not in block mode without a hash request. -/
def response (h : HashStage P H) (lane : ℕ) (rel : P) (v : H) (toFallback : Bool) :
    HashStage P H :=
  { h with
    remoteHashes := Function.update h.remoteHashes rel (some v)
    fallbackReadyQueue :=
      if toFallback then h.fallbackReadyQueue ++ [rel] else h.fallbackReadyQueue
    hashResponsesReceived := h.hashResponsesReceived + 1
    hashJobs := h.hashJobs.erase (lane, rel) }

/-- `hashResolved.insert(rel); ++fallbackResolved`, at the sites that have checked that the file
is asked for and not resolved. -/
def resolve (h : HashStage P H) (rel : P) : HashStage P H :=
  if hr : rel ∈ h.hashRequested ∧ rel ∉ h.hashResolved then
    { h with
      hashResolved := insert rel h.hashResolved
      fallbackResolved := h.fallbackResolved + 1
      resolved_eq := by rw [Finset.card_insert_of_notMem hr.2, h.resolved_eq]
      resolved_sub := Finset.insert_subset hr.1 h.resolved_sub }
  else h

end HashStage

end FastClone.Client
