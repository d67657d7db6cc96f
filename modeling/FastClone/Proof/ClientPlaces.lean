import FastClone.Spec.ClientStep
import FastClone.Lib.Table

/-!
# Where a file is: what each operation does to the places of a file

A manifest file is in the compare stage, in the hash stage, in the delta or block-mode
state, in a transfer queue, on a stream, in the write pool, or counted. For each part of the
state `held f` says how often the file `f` is there, and the lemmas below say how each
operation changes it.
-/

set_option linter.unusedSectionVars false

namespace FastClone.Client

open Table

variable {P H : Type} [DecidableEq P]

/-! ### Compare stage -/

/-- The entries of `f` in the compare stage. -/
def CompareStage.held (c : CompareStage P) (f : P) : ℕ :=
  c.delayedCompareEntries.count f + c.dispatchBuffer.count f + c.tasks.count f +
    c.working.flatten.count f + (c.results.map Prod.fst).count f

namespace CompareStage

theorem held_enqueue (c : CompareStage P) (rel f : P) :
    (c.enqueue rel).held f = c.held f + if rel = f then 1 else 0 := by
  simp only [held, enqueue, List.count_append, List.count_singleton, beq_iff_eq]
  omega

theorem held_offer (n : ℕ) (c : CompareStage P) (rel f : P) :
    (c.offer n rel).held f = c.held f + if rel = f then 1 else 0 := by
  unfold offer
  split
  · simp only [held, List.count_append, List.count_singleton, beq_iff_eq]
    omega
  · exact held_enqueue c rel f

theorem held_refill (n : ℕ) (c : CompareStage P) (f : P) : (c.refill n).held f = c.held f := by
  -- the loop moves the head of `rest`, all that is still delayed, into the buffer
  have hgo : ∀ (rest : List P) (c : CompareStage P),
      (refill.go n rest c).held f + c.delayedCompareEntries.count f = c.held f + rest.count f := by
    intro rest
    induction rest with
    | nil => intro c; simp only [refill.go, held, List.count_nil]; omega
    | cons rel rest ih =>
      intro c
      unfold refill.go
      split
      · have h := ih (c.enqueue rel)
        rw [held_enqueue] at h
        have hd : (c.enqueue rel).delayedCompareEntries = c.delayedCompareEntries := rfl
        rw [hd] at h
        simp only [List.count_cons, beq_iff_eq]
        omega
      · simp only [held]
        omega
  have h := hgo c.delayedCompareEntries c
  unfold refill
  omega

theorem held_flush (c : CompareStage P) (f : P) : c.flush.held f = c.held f := by
  simp only [held, flush, List.count_append, List.count_nil]
  omega

theorem count_take_drop (l : List P) (n : ℕ) (f : P) :
    (l.take n).count f + (l.drop n).count f = l.count f := by
  rw [← List.count_append, List.take_append_drop]

theorem held_workerTake (c : CompareStage P) (f : P) : c.workerTake.held f = c.held f := by
  have h := count_take_drop c.tasks 32 f
  simp only [held, workerTake, List.flatten_cons, List.count_append]
  omega

theorem count_flatten_eraseIdx (f : P) : ∀ (l : List (List P)) (i : ℕ) (x : List P),
    l[i]? = some x → l.flatten.count f = x.count f + (l.eraseIdx i).flatten.count f
  | [], i, x, h => by simp at h
  | y :: l, 0, x, h => by simp_all
  | y :: l, i + 1, x, h => by
    have ih := count_flatten_eraseIdx f l i x (by simpa using h)
    simp only [List.eraseIdx_cons_succ, List.flatten_cons, List.count_append, ih]
    omega

theorem held_workerPublish (c : CompareStage P) (i : ℕ) (act : P → CompareAction) (f : P) :
    (c.workerPublish i act).held f = c.held f := by
  unfold workerPublish
  split
  · rfl
  · rename_i batch h
    have hf := count_flatten_eraseIdx f c.working i batch h
    have hm : (batch.map fun rel => (rel, act rel)).map Prod.fst = batch := by
      rw [List.map_map]
      exact List.map_id batch
    simp only [held, List.map_append, List.count_append, hm]
    omega

/-- A drained result leaves the stage. -/
theorem held_drainOne {c c' : CompareStage P} {r : P × CompareAction}
    (h : c.drainOne = some (r, c')) (f : P) :
    c.held f = c'.held f + if r.1 = f then 1 else 0 := by
  unfold drainOne at h
  split at h
  · cases h
  · rename_i r' rest hr
    obtain ⟨rfl, rfl⟩ := Prod.mk.inj (Option.some.inj h)
    simp only [held, hr, List.map_cons, List.count_cons, beq_iff_eq]
    omega

/-- An idle pipeline with an empty delay list holds no file. -/
theorem held_of_idle {c : CompareStage P} (h : c.inFlight = 0) (hd : c.delayedCompareEntries = [])
    (f : P) : c.held f = 0 := by
  have he := c.issued_eq
  unfold inFlight at h
  have h1 : c.dispatchBuffer = [] := List.eq_nil_of_length_eq_zero (by omega)
  have h2 : c.tasks = [] := List.eq_nil_of_length_eq_zero (by omega)
  have h3 : c.working.flatten = [] := List.eq_nil_of_length_eq_zero (by omega)
  have h4 : c.results = [] := List.eq_nil_of_length_eq_zero (by omega)
  simp [held, hd, h1, h2, h3, h4]

/-- The refill stops only at an empty delay list or a full pipeline. -/
theorem refill_delayed {n : ℕ} (c : CompareStage P) :
    (c.refill n).delayedCompareEntries = [] ∨ n ≤ (c.refill n).inFlight := by
  have hgo : ∀ (rest : List P) (c : CompareStage P),
      (refill.go n rest c).delayedCompareEntries = [] ∨ n ≤ (refill.go n rest c).inFlight := by
    intro rest
    induction rest with
    | nil => intro c; exact .inl rfl
    | cons rel rest ih =>
      intro c
      unfold refill.go
      split
      · exact ih _
      · rename_i hn
        exact .inr (Nat.le_of_not_lt hn)
  exact hgo _ _

end CompareStage

/-! ### Hash stage -/

/-- Whether `f` waits for its hashes. -/
def HashStage.held (h : HashStage P H) (f : P) : ℕ :=
  if f ∈ h.hashRequested ∧ f ∉ h.hashResolved then 1 else 0

namespace HashStage

/-- The stage holds the same files, and asked for the same files. -/
structure Same (h h' : HashStage P H) : Prop where
  requested : h'.hashRequested = h.hashRequested
  resolved : h'.hashResolved = h.hashResolved

theorem Same.held {h h' : HashStage P H} (hs : Same h h') (f : P) : h'.held f = h.held f := by
  simp only [HashStage.held, hs.requested, hs.resolved]

theorem same_dispatch (w l r : ℕ) (h : HashStage P H) : Same h (h.dispatch w l r) := ⟨rfl, rfl⟩

theorem same_workerPop (h : HashStage P H) : Same h h.workerPop := by
  unfold workerPop
  split <;> exact ⟨rfl, rfl⟩

theorem same_workerCount (h : HashStage P H) (i : ℕ) : Same h (h.workerCount i) := by
  unfold workerCount
  split <;> exact ⟨rfl, rfl⟩

theorem same_workerLeave (h : HashStage P H) (i : ℕ) : Same h (h.workerLeave i) := by
  unfold workerLeave
  split <;> exact ⟨rfl, rfl⟩

theorem same_workerReady (h : HashStage P H) (i : ℕ) : Same h (h.workerReady i) := by
  unfold workerReady
  split <;> exact ⟨rfl, rfl⟩

theorem same_workerRecord (h : HashStage P H) (i : ℕ) (r : Option H) :
    Same h (h.workerRecord i r) := by
  unfold workerRecord
  split <;> exact ⟨rfl, rfl⟩

theorem same_response (h : HashStage P H) (l : ℕ) (rel : P) (v : H) (b : Bool) :
    Same h (h.response l rel v b) := ⟨rfl, rfl⟩

/-- Asking for a hash takes the file in. -/
theorem held_request {h : HashStage P H} {rel : P} (hr : rel ∉ h.hashRequested) (f : P) :
    (h.request rel).held f = h.held f + if rel = f then 1 else 0 := by
  have hres : rel ∉ h.hashResolved := fun hm => hr (h.resolved_sub hm)
  simp only [request, hr, dite_false, held, Finset.mem_insert]
  by_cases hf : rel = f
  · subst hf
    simp [hr, hres]
  · have hf' : ¬ f = rel := fun e => hf e.symm
    simp [hf, hf']

theorem request_again {h : HashStage P H} {rel : P} (hr : rel ∈ h.hashRequested) :
    h.request rel = h := by
  simp [request, hr]

/-- Resolving a waiting file lets it go. -/
theorem held_resolve {h : HashStage P H} {rel : P} (hr : rel ∈ h.hashRequested)
    (hn : rel ∉ h.hashResolved) (f : P) :
    h.held f = (h.resolve rel).held f + if rel = f then 1 else 0 := by
  simp only [resolve, hr, hn, not_false_eq_true, and_self, dite_true, held, Finset.mem_insert]
  by_cases hf : rel = f
  · subst hf
    simp [hr, hn]
  · have hf' : ¬ f = rel := fun e => hf e.symm
    simp [hf, hf']

theorem resolve_requested (h : HashStage P H) (rel : P) :
    (h.resolve rel).hashRequested = h.hashRequested := by
  unfold resolve
  split <;> rfl

/-- When as many files are resolved as were asked for, none waits. -/
theorem held_of_all_resolved {h : HashStage P H} (he : h.fallbackResolved = h.fallbackCount)
    (f : P) : h.held f = 0 := by
  have hcard : h.hashRequested.card ≤ h.hashResolved.card := by
    rw [← h.count_eq, ← h.resolved_eq, he]
  have heq := Finset.eq_of_subset_of_card_le h.resolved_sub hcard
  simp [held, heq]

end HashStage

/-! ### Managed files -/

/-- Whether `f` is managed. -/
def RangeBook.held (b : RangeBook P) (f : P) : ℕ := if f ∈ b.states then 1 else 0

namespace RangeBook

/-- A file that becomes managed was neither managed nor abandoned, and nothing else changes. -/
theorem manage_eq_some {b b' : RangeBook P} {rel : P} {n : ℕ} (h : b.manage rel n = some b') :
    rel ∉ b.abandoned ∧ rel ∉ b.states ∧
      ∃ hdisjoint, b' = { b with states := b.states.insert rel { bytes := n }, disjoint := hdisjoint } := by
  unfold manage at h
  split at h
  · cases h
  · rename_i hnew
    rw [not_or] at hnew
    exact ⟨hnew.1, hnew.2, _, (Option.some.inj h).symm⟩

theorem held_manage {b b' : RangeBook P} {rel : P} {n : ℕ} (h : b.manage rel n = some b') (f : P) :
    b'.held f = b.held f + if rel = f then 1 else 0 := by
  obtain ⟨-, hnew, hdisjoint, rfl⟩ := manage_eq_some h
  simp only [held, AList.mem_insert]
  by_cases hf : rel = f
  · subst hf
    simp [hnew]
  · have hf' : ¬ f = rel := fun e => hf e.symm
    simp [hf, hf']

theorem held_update (b : RangeBook P) (rel : P) (st : RangeState) (f : P) :
    (b.update rel st).held f = b.held f := by
  unfold update
  split
  · rename_i h
    simp only [held, AList.mem_insert]
    by_cases hf : f = rel
    · subst hf
      simp [h]
    · simp [hf]
  · rfl

theorem held_adopt (b : RangeBook P) (rel : P) (st : RangeState) (l : List Spans.Span) (f : P) :
    (b.adopt rel st l).held f = b.held f := held_update b rel _ f

theorem held_endRange (b : RangeBook P) (rel : P) (st : RangeState) (r : Spans.Span) (f : P) :
    (b.endRange rel st r).held f = b.held f := held_update b rel _ f

theorem held_requeue (b : RangeBook P) (r : ActiveRange P) (f : P) :
    (b.requeue r).held f = b.held f := by
  unfold requeue
  split <;> rfl

theorem held_erase {b : RangeBook P} {rel : P} (h : rel ∈ b.states) (f : P) :
    b.held f = (if f ∈ b.states.erase rel then 1 else 0) + if rel = f then 1 else 0 := by
  simp only [held, AList.mem_erase]
  by_cases hf : rel = f
  · subst hf
    simp [h]
  · have hf' : f ≠ rel := fun e => hf e.symm
    simp [hf, hf']

theorem held_forget {b : RangeBook P} {rel : P} (h : rel ∈ b.states) (f : P) :
    b.held f = (b.forget rel).held f + if rel = f then 1 else 0 := held_erase h f

theorem held_abandon {b : RangeBook P} {rel : P} (h : rel ∈ b.states) (f : P) :
    b.held f = (b.abandon rel).held f + if rel = f then 1 else 0 := held_erase h f

theorem held_erase_absent {b : RangeBook P} {rel : P} (h : rel ∉ b.states) (f : P) :
    (if f ∈ b.states.erase rel then 1 else 0) = b.held f := by
  simp only [held, AList.mem_erase]
  by_cases hf : f = rel
  · subst hf
    simp [h]
  · simp [hf]

theorem held_forget_absent {b : RangeBook P} {rel : P} (h : rel ∉ b.states) (f : P) :
    (b.forget rel).held f = b.held f := held_erase_absent h f

theorem held_abandon_absent {b : RangeBook P} {rel : P} (h : rel ∉ b.states) (f : P) :
    (b.abandon rel).held f = b.held f := held_erase_absent h f

end RangeBook

/-! ### Transfer queues and counters -/

namespace Transfers

/-- How often `f` is queued. -/
def queued (x : Transfers P) (f : P) : ℕ :=
  x.pendingTransfers.count f + x.pendingBatchTransfers.count f + x.pendingRetryTransfers.count f +
    x.pendingRetryBatchTransfers.count f

/-- How often `f` was counted. -/
def counted (x : Transfers P) (f : P) : ℕ := (x.tally.log.map Prod.fst).count (some f)

/-- How often a count was made for no file. -/
def strays (x : Transfers P) : ℕ := (x.tally.log.map Prod.fst).count none

/-- Queued or counted. -/
def held (x : Transfers P) (f : P) : ℕ := x.queued f + x.counted f

theorem held_enqueueTransfer (size : P → Option ℕ) (x : Transfers P) (rel : P) (b : Bool) (f : P) :
    (x.enqueueTransfer size rel b).held f = x.held f + if rel = f then 1 else 0 := by
  unfold enqueueTransfer
  split <;> split <;>
    simp only [held, queued, counted, List.count_append, List.count_singleton, beq_iff_eq] <;> omega

theorem scheduled_enqueueTransfer (size : P → Option ℕ) (x : Transfers P) (rel : P) (b : Bool) :
    (x.enqueueTransfer size rel b).scheduledTransfers = x.scheduledTransfers := by
  unfold enqueueTransfer
  split <;> split <;> rfl

theorem strays_enqueueTransfer (size : P → Option ℕ) (x : Transfers P) (rel : P) (b : Bool) :
    (x.enqueueTransfer size rel b).strays = x.strays := by
  unfold enqueueTransfer
  split <;> split <;> rfl

theorem held_count (x : Transfers P) (rel : P) (o : Outcome) (f : P) :
    (x.count (some rel) o).held f = x.held f + if rel = f then 1 else 0 := by
  simp only [held, queued, counted, count, Tally.count, List.map_cons, List.count_cons, beq_iff_eq,
    Option.some.injEq]
  omega

theorem strays_count (x : Transfers P) (rel : P) (o : Outcome) :
    (x.count (some rel) o).strays = x.strays := by
  simp [strays, count, Tally.count]

theorem strays_count_none (x : Transfers P) (o : Outcome) :
    (x.count none o).strays = x.strays + 1 := by
  simp [strays, count, Tally.count]

theorem held_count_none (x : Transfers P) (o : Outcome) (f : P) :
    (x.count none o).held f = x.held f := by
  simp [held, queued, counted, count, Tally.count]

theorem held_retryOrFail (size : P → Option ℕ) (x : Transfers P) (rel f : P) :
    (x.retryOrFail size rel).held f = x.held f + if rel = f then 1 else 0 := by
  unfold retryOrFail
  split
  · exact held_enqueueTransfer _ _ _ _ _
  · exact held_count x rel .failed f

theorem scheduled_retryOrFail (size : P → Option ℕ) (x : Transfers P) (rel : P) :
    (x.retryOrFail size rel).scheduledTransfers = x.scheduledTransfers := by
  unfold retryOrFail
  split
  · exact scheduled_enqueueTransfer _ _ _ _
  · rfl

theorem strays_retryOrFail (size : P → Option ℕ) (x : Transfers P) (rel : P) :
    (x.retryOrFail size rel).strays = x.strays := by
  unfold retryOrFail
  split
  · exact strays_enqueueTransfer _ _ _ _
  · exact strays_count x rel .failed

theorem held_scheduleTransfer (size : P → Option ℕ) (x : Transfers P) (rel f : P) :
    (x.scheduleTransfer size rel).held f =
      x.held f + if rel = f ∧ rel ∉ x.scheduledTransfers then 1 else 0 := by
  unfold scheduleTransfer
  by_cases h : rel ∈ x.scheduledTransfers
  · simp [h]
  · simp only [h, if_false, not_false_eq_true, and_true]
    exact held_enqueueTransfer _ _ _ _ _

theorem scheduled_scheduleTransfer (size : P → Option ℕ) (x : Transfers P) (rel : P) :
    (x.scheduleTransfer size rel).scheduledTransfers = insert rel x.scheduledTransfers := by
  unfold scheduleTransfer
  split
  · rename_i h
    rw [Finset.insert_eq_of_mem h]
  · exact scheduled_enqueueTransfer _ _ _ _

theorem strays_scheduleTransfer (size : P → Option ℕ) (x : Transfers P) (rel : P) :
    (x.scheduleTransfer size rel).strays = x.strays := by
  unfold scheduleTransfer
  split
  · rfl
  · exact strays_enqueueTransfer _ _ _ _

theorem held_refresh (n : ℕ) (x : Transfers P) (f : P) :
    (x.refreshSmallBatchTuning n).held f = x.held f := by
  simp only [refreshSmallBatchTuning]
  split <;> rfl

theorem scheduled_refresh (n : ℕ) (x : Transfers P) :
    (x.refreshSmallBatchTuning n).scheduledTransfers = x.scheduledTransfers := by
  simp only [refreshSmallBatchTuning]
  split <;> rfl

theorem strays_refresh (n : ℕ) (x : Transfers P) : (x.refreshSmallBatchTuning n).strays = x.strays := by
  simp only [refreshSmallBatchTuning]
  split <;> rfl

theorem count_moveEligible (el : P → Bool) (l : List P) (b : ℕ) (f : P) :
    (moveEligible el l b).1.count f + (moveEligible el l b).2.count f = l.count f := by
  induction l generalizing b with
  | nil => simp [moveEligible]
  | cons rel l ih =>
    unfold moveEligible
    split
    · have h := ih (b - 1)
      simp only [List.count_cons, beq_iff_eq]
      omega
    · have h := ih b
      simp only [List.count_cons, beq_iff_eq]
      omega

theorem held_rebalance (size : P → Option ℕ) (x : Transfers P) (f : P) :
    (x.rebalanceTransfersTowardBatch size).held f = x.held f := by
  simp only [rebalanceTransfersTowardBatch]
  split
  · rfl
  · have h1 := count_moveEligible (x.small size) x.pendingTransfers (max 512 x.smallBatchMaxFiles) f
    have h2 := count_moveEligible (x.small size) x.pendingRetryTransfers
    simp only [held, queued, counted, List.count_append]
    have h2' := h2 (if (moveEligible (x.small size) x.pendingTransfers
        (max 512 x.smallBatchMaxFiles)).1.length ≥ max (max 512 x.smallBatchMaxFiles / 2) 256 then 0
      else max (max 512 x.smallBatchMaxFiles / 2) 256 - (moveEligible (x.small size)
        x.pendingTransfers (max 512 x.smallBatchMaxFiles)).1.length) f
    omega

theorem scheduled_rebalance (size : P → Option ℕ) (x : Transfers P) :
    (x.rebalanceTransfersTowardBatch size).scheduledTransfers = x.scheduledTransfers := by
  simp only [rebalanceTransfersTowardBatch]
  split <;> rfl

theorem strays_rebalance (size : P → Option ℕ) (x : Transfers P) :
    (x.rebalanceTransfersTowardBatch size).strays = x.strays := by
  simp only [rebalanceTransfersTowardBatch]
  split <;> rfl

theorem held_setQueue (x : Transfers P) (l : List P) (q : Queue) (f : P) :
    (x.setQueue l q).held f + (x.queue q).count f = x.held f + l.count f := by
  cases q <;> simp only [held, queued, counted, setQueue, queue] <;> omega

theorem scheduled_setQueue (x : Transfers P) (l : List P) (q : Queue) :
    (x.setQueue l q).scheduledTransfers = x.scheduledTransfers := by
  cases q <;> rfl

theorem strays_setQueue (x : Transfers P) (l : List P) (q : Queue) :
    (x.setQueue l q).strays = x.strays := by
  cases q <;> rfl

end Transfers

end FastClone.Client
