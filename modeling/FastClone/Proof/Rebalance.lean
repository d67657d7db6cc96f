import FastClone.Lib.Runs
import FastClone.Spec.Transfer

/-!
# Rebalancing toward batches

Paths are put into the batch or the regular queue by the threshold of the moment; when the threshold has
risen, `rebalanceTransfersTowardBatch` moves what has become small. `rebalanceDoneThreshold` remembers up to
which threshold nothing is left to move, so that a pass can be skipped. It never comes down, though, while
the threshold does: a path between the two that is queued as regular is not moved when the threshold rises
again (`rebalance_skips_low`).

* `rebalance_lossless`: a pass loses nothing and leaves the rest in order, in every state.
* `rebalance_complete`: **as long as no path with a size above the threshold and up to the mark is queued**, a
  pass that moves nothing leaves nothing to move.
-/

namespace FastClone.Client

open Runs

variable {P : Type}

namespace Transfers

/-! ### One pass -/

/-- The moved paths and the rest, each in the order of the queue. -/
theorem moveEligible_spec (eligible : P → Bool) (queue : List P) (budget : ℕ) :
    ((moveEligible eligible queue budget).1 ++ (moveEligible eligible queue budget).2).Perm queue ∧
      (moveEligible eligible queue budget).1.Sublist queue ∧ (moveEligible eligible queue budget).2.Sublist queue := by
  induction queue generalizing budget with
  | nil => exact ⟨List.Perm.refl _, List.Sublist.refl _, List.Sublist.refl _⟩
  | cons rel queue ih =>
    unfold moveEligible
    by_cases hmove : (eligible rel && decide (0 < budget)) = true
    · obtain ⟨hperm, hmoved, hrest⟩ := ih (budget - 1)
      rw [if_pos hmove]
      exact ⟨hperm.cons rel, hmoved.cons_cons rel, hrest.cons rel⟩
    · obtain ⟨hperm, hmoved, hrest⟩ := ih budget
      rw [if_neg hmove]
      exact ⟨List.perm_middle.trans (hperm.cons rel), hmoved.cons rel, hrest.cons_cons rel⟩

/-- Nothing is moved within a budget only if nothing is eligible. -/
theorem moveEligible_none {eligible : P → Bool} {queue : List P} {budget : ℕ} (hbudget : 0 < budget)
    (h : (moveEligible eligible queue budget).1 = []) : ∀ rel ∈ queue, eligible rel = false := by
  induction queue with
  | nil => nofun
  | cons rel queue ih =>
    unfold moveEligible at h
    by_cases hmove : (eligible rel && decide (0 < budget)) = true
    · rw [if_pos hmove] at h
      nomatch h
    · rw [if_neg hmove] at h
      rw [decide_eq_true hbudget, Bool.and_true] at hmove
      intro other hother
      rcases List.mem_cons.1 hother with rfl | hrest
      · exact Bool.eq_false_iff.2 hmove
      · exact ih h other hrest

/-- All queued paths. -/
def waiting (x : Transfers P) : List P :=
  x.pendingTransfers ++ x.pendingBatchTransfers ++ (x.pendingRetryTransfers ++ x.pendingRetryBatchTransfers)

/-- The pass loses nothing, moves in order and leaves the rest in order. -/
structure Lossless (x x' : Transfers P) : Prop where
  waiting : x'.waiting.Perm x.waiting
  regular : x'.pendingTransfers.Sublist x.pendingTransfers
  retry : x'.pendingRetryTransfers.Sublist x.pendingRetryTransfers
  batch : ∃ moved, moved.Sublist x.pendingTransfers ∧ x'.pendingBatchTransfers = x.pendingBatchTransfers ++ moved
  retryBatch : ∃ moved, moved.Sublist x.pendingRetryTransfers ∧
    x'.pendingRetryBatchTransfers = x.pendingRetryBatchTransfers ++ moved

/-- A queue and its batch queue, with some paths moved from the one to the other. -/
theorem perm_moved {queue batch moved rest : List P} (h : (moved ++ rest).Perm queue) :
    (rest ++ (batch ++ moved)).Perm (queue ++ batch) := by
  have hswap : (rest ++ (batch ++ moved)).Perm (rest ++ moved ++ batch) := by
    rw [List.append_assoc]
    exact List.Perm.append_left rest List.perm_append_comm
  exact hswap.trans ((List.perm_append_comm.trans h).append_right batch)

/-- **Lossless**: in every state. -/
theorem rebalance_lossless (size : P → Option ℕ) (x : Transfers P) :
    Lossless x (x.rebalanceTransfersTowardBatch size) := by
  unfold rebalanceTransfersTowardBatch
  by_cases hskip : x.smallFileBatchThreshold ≤ x.rebalanceDoneThreshold
  · rw [if_pos hskip]
    exact ⟨List.Perm.refl _, List.Sublist.refl _, List.Sublist.refl _,
      ⟨[], List.nil_sublist _, (List.append_nil _).symm⟩, ⟨[], List.nil_sublist _, (List.append_nil _).symm⟩⟩
  rw [if_neg hskip]
  dsimp only
  obtain ⟨hregular, hmoved, hrest⟩ := moveEligible_spec (x.small size) x.pendingTransfers (max 512 x.smallBatchMaxFiles)
  generalize hbudget : (if (moveEligible (x.small size) x.pendingTransfers (max 512 x.smallBatchMaxFiles)).1.length ≥
      max (max 512 x.smallBatchMaxFiles / 2) 256 then 0
    else max (max 512 x.smallBatchMaxFiles / 2) 256 -
      (moveEligible (x.small size) x.pendingTransfers (max 512 x.smallBatchMaxFiles)).1.length) = retryBudget
  obtain ⟨hretry, hmoved', hrest'⟩ := moveEligible_spec (x.small size) x.pendingRetryTransfers retryBudget
  exact ⟨(perm_moved hregular).append (perm_moved hretry), hrest, hrest', ⟨_, hmoved, rfl⟩, ⟨_, hmoved', rfl⟩⟩

/-- The threshold is not touched. -/
@[simp] theorem threshold_rebalance (size : P → Option ℕ) (x : Transfers P) :
    (x.rebalanceTransfersTowardBatch size).smallFileBatchThreshold = x.smallFileBatchThreshold := by
  unfold rebalanceTransfersTowardBatch
  split <;> rfl

/-- Nothing to move: no regular path with a size is within the threshold. -/
def NothingSmall (size : P → Option ℕ) (x : Transfers P) : Prop :=
  ∀ rel ∈ x.pendingTransfers ++ x.pendingRetryTransfers, x.small size rel = false

/-- The pass takes no path from the regular queues. -/
def MovesNothing (size : P → Option ℕ) (x : Transfers P) : Prop :=
  (x.rebalanceTransfersTowardBatch size).pendingTransfers = x.pendingTransfers ∧
    (x.rebalanceTransfersTowardBatch size).pendingRetryTransfers = x.pendingRetryTransfers

/-- Both budgets are positive as long as nothing is moved. -/
theorem nothingSmall_of_moved {size : P → Option ℕ} {x : Transfers P} {budget retryBudget : ℕ}
    (hbudget : 0 < budget) (hretryBudget : 0 < retryBudget)
    (hregular : (moveEligible (x.small size) x.pendingTransfers budget).1 = [])
    (hretry : (moveEligible (x.small size) x.pendingRetryTransfers retryBudget).1 = []) : NothingSmall size x := by
  intro rel hrel
  rcases List.mem_append.1 hrel with hmem | hmem
  · exact moveEligible_none hbudget hregular rel hmem
  · exact moveEligible_none hretryBudget hretry rel hmem

/-- What is left has the length of the queue only if nothing is moved. -/
theorem moved_nil {eligible : P → Bool} {queue : List P} {budget : ℕ}
    (h : (moveEligible eligible queue budget).2 = queue) : (moveEligible eligible queue budget).1 = [] := by
  have hperm := (moveEligible_spec eligible queue budget).1.length_eq
  have hlen := congrArg List.length h
  rw [List.length_append] at hperm
  have hnone : (moveEligible eligible queue budget).1.length = 0 := by omega
  exact List.eq_nil_of_length_eq_zero hnone

/-- **A pass that is made and moves nothing** finds nothing to move. -/
theorem nothingSmall_of_pass {size : P → Option ℕ} {x : Transfers P}
    (hmade : x.rebalanceDoneThreshold < x.smallFileBatchThreshold) (h : MovesNothing size x) :
    NothingSmall size x := by
  unfold MovesNothing rebalanceTransfersTowardBatch at h
  rw [if_neg (Nat.not_le.2 hmade)] at h
  dsimp only at h
  have hregular := moved_nil h.1
  have hretry := moved_nil h.2
  refine nothingSmall_of_moved (by omega) ?_ hregular hretry
  rw [hregular, List.length_nil]
  split <;> omega

/-- The mark stays, or is raised to the threshold by a pass that finds nothing to move. -/
theorem mark_rebalance (size : P → Option ℕ) (x : Transfers P) :
    (x.rebalanceTransfersTowardBatch size).rebalanceDoneThreshold = x.rebalanceDoneThreshold ∨
      (x.rebalanceTransfersTowardBatch size).rebalanceDoneThreshold = x.smallFileBatchThreshold ∧
        NothingSmall size x := by
  unfold rebalanceTransfersTowardBatch
  by_cases hskip : x.smallFileBatchThreshold ≤ x.rebalanceDoneThreshold
  · rw [if_pos hskip]
    exact Or.inl rfl
  rw [if_neg hskip]
  dsimp only
  generalize hbudget : (if (moveEligible (x.small size) x.pendingTransfers (max 512 x.smallBatchMaxFiles)).1.length ≥
      max (max 512 x.smallBatchMaxFiles / 2) 256 then 0
    else max (max 512 x.smallBatchMaxFiles / 2) 256 -
      (moveEligible (x.small size) x.pendingTransfers (max 512 x.smallBatchMaxFiles)).1.length) = retryBudget
  by_cases hnone : (moveEligible (x.small size) x.pendingTransfers (max 512 x.smallBatchMaxFiles)).1.length = 0 ∧
      (moveEligible (x.small size) x.pendingRetryTransfers retryBudget).1.length = 0
  · have hregular := List.eq_nil_of_length_eq_zero hnone.1
    have hretry := List.eq_nil_of_length_eq_zero hnone.2
    -- with nothing moved the retry queue has the whole of its budget
    have hpositive : 0 < retryBudget := by
      rw [hnone.1, if_neg (by omega)] at hbudget
      omega
    rw [if_pos hnone]
    exact Or.inr ⟨rfl, nothingSmall_of_moved (by omega) hpositive hregular hretry⟩
  · rw [if_neg hnone]
    exact Or.inl rfl

/-! ### Runs -/

/-- The steps on the queues. `serve` is the part of `tryStartTransfers` that matters here: it takes the
first paths of a queue. -/
inductive Step (P : Type) where
  | enqueue (rel : P) (isRetry : Bool)
  | refresh
  | rebalance
  | serve (q : Queue) (n : ℕ)

/-- The queues of a session with `streamLimit` streams and the manifest sizes `size`. -/
def queues (size : P → Option ℕ) (streamLimit : ℕ) : Machine (Transfers P) (Step P) where
  init := {}
  can _ _ := True
  next x
    | .enqueue rel isRetry => x.enqueueTransfer size rel isRetry
    | .refresh => x.refreshSmallBatchTuning streamLimit
    | .rebalance => x.rebalanceTransfersTowardBatch size
    | .serve q n => x.setQueue ((x.queue q).drop n) q

/-- A path is put into a regular queue only with a size above the mark. -/
def AboveMark (size : P → Option ℕ) (x : Transfers P) : Step P → Prop
  | .enqueue rel _ => ∀ fileSize, size rel = some fileSize →
      ¬ (x.smallFileBatchThreshold < fileSize ∧ fileSize ≤ x.rebalanceDoneThreshold)
  | _ => True

/-- **The mark is right**: no path in a regular queue has a size up to it. -/
def Settled (size : P → Option ℕ) (x : Transfers P) : Prop :=
  ∀ rel ∈ x.pendingTransfers ++ x.pendingRetryTransfers, ∀ fileSize, size rel = some fileSize →
    x.rebalanceDoneThreshold < fileSize

theorem not_small {size : P → Option ℕ} {x : Transfers P} {rel : P} :
    x.small size rel = false ↔ ∀ fileSize, size rel = some fileSize → x.smallFileBatchThreshold < fileSize := by
  unfold small
  cases size rel with
  | none => simp
  | some fileSize => simp

/-- Fewer regular paths with the same mark. -/
theorem Settled.of_subset {size : P → Option ℕ} {x x' : Transfers P} (h : Settled size x)
    (hmark : x'.rebalanceDoneThreshold = x.rebalanceDoneThreshold)
    (hregular : x'.pendingTransfers ⊆ x.pendingTransfers)
    (hretry : x'.pendingRetryTransfers ⊆ x.pendingRetryTransfers) : Settled size x' := by
  intro rel hrel fileSize hsize
  have hmem : rel ∈ x.pendingTransfers ++ x.pendingRetryTransfers := by
    rcases List.mem_append.1 hrel with hin | hin
    · exact List.mem_append_left _ (hregular hin)
    · exact List.mem_append_right _ (hretry hin)
  rw [hmark]
  exact h rel hmem fileSize hsize

theorem Settled.enqueue {size : P → Option ℕ} {x : Transfers P} (h : Settled size x) {rel : P} {isRetry : Bool}
    (hok : AboveMark size x (.enqueue rel isRetry)) : Settled size (x.enqueueTransfer size rel isRetry) := by
  cases hsmall : x.small size rel with
  | true =>
    unfold enqueueTransfer
    rw [if_pos hsmall, if_pos hsmall]
    cases isRetry <;> exact h
  | false =>
    have habove : ∀ fileSize, size rel = some fileSize → x.rebalanceDoneThreshold < fileSize := by
      intro fileSize hsize
      have hlarge := not_small.1 hsmall fileSize hsize
      have hclear := hok fileSize hsize
      omega
    have hnot : ¬ x.small size rel = true := by rw [hsmall]; nofun
    unfold enqueueTransfer
    rw [if_neg hnot, if_neg hnot]
    intro other hother fileSize hsize
    have hmem : other ∈ x.pendingTransfers ++ x.pendingRetryTransfers ∨ other = rel := by
      cases isRetry
      all_goals
        simp only [Bool.false_eq_true, if_false, if_true, List.mem_append, List.mem_singleton] at hother ⊢
        tauto
    have hmark : x.rebalanceDoneThreshold < fileSize := by
      rcases hmem with hold | rfl
      · exact h other hold fileSize hsize
      · exact habove fileSize hsize
    cases isRetry <;> exact hmark

theorem Settled.rebalance {size : P → Option ℕ} {x : Transfers P} (h : Settled size x) :
    Settled size (x.rebalanceTransfersTowardBatch size) := by
  have hloss := rebalance_lossless size x
  rcases mark_rebalance size x with hmark | ⟨hmark, hnone⟩
  · exact h.of_subset hmark hloss.regular.subset hloss.retry.subset
  · intro rel hrel fileSize hsize
    have hmem : rel ∈ x.pendingTransfers ++ x.pendingRetryTransfers :=
      (hloss.regular.append hloss.retry).subset hrel
    have hlarge := not_small.1 (hnone rel hmem) fileSize hsize
    omega

theorem Settled.serve {size : P → Option ℕ} {x : Transfers P} (h : Settled size x) (q : Queue) (n : ℕ) :
    Settled size (x.setQueue ((x.queue q).drop n) q) := by
  cases q with
  | batch => exact h
  | retryBatch => exact h
  | regular => exact h.of_subset rfl (List.drop_subset n _) (List.Subset.refl _)
  | retryRegular => exact h.of_subset rfl (List.Subset.refl _) (List.drop_subset n _)

theorem Settled.step {size : P → Option ℕ} {streamLimit : ℕ} {x : Transfers P} (h : Settled size x) {e : Step P}
    (hok : AboveMark size x e) : Settled size ((queues size streamLimit).next x e) := by
  cases e with
  | enqueue rel isRetry => exact h.enqueue hok
  | refresh =>
    change Settled size (x.refreshSmallBatchTuning streamLimit)
    unfold refreshSmallBatchTuning
    dsimp only
    split <;> exact h
  | rebalance => exact h.rebalance
  | serve q n => exact h.serve q n

theorem Settled.reached {size : P → Option ℕ} {streamLimit : ℕ} {x : Transfers P}
    (hr : (queues size streamLimit).Reach (AboveMark size) x) : Settled size x := by
  refine hr.invariant ?_ ?_
  · intro rel hrel
    nomatch hrel
  · intro y e hsettled hcan hok
    exact hsettled.step hok

/-- **Complete where the mark is right**: a skipped pass has nothing to move either. -/
theorem Settled.complete {size : P → Option ℕ} {x : Transfers P} (h : Settled size x) (hnone : MovesNothing size x) :
    NothingSmall size x := by
  by_cases hskip : x.smallFileBatchThreshold ≤ x.rebalanceDoneThreshold
  · intro rel hrel
    refine not_small.2 fun fileSize hsize => ?_
    have habove := h rel hrel fileSize hsize
    omega
  · exact nothingSmall_of_pass (by omega) hnone

/-- **Rebalancing is lossless** in every run and **complete** in every run that queues no path with a size
between the threshold and the mark. -/
theorem rebalance_complete (size : P → Option ℕ) (streamLimit : ℕ) :
    (∀ x, (queues size streamLimit).Reach (fun _ _ => True) x →
      Lossless x (x.rebalanceTransfersTowardBatch size)) ∧
    ∀ x, (queues size streamLimit).Reach (AboveMark size) x → MovesNothing size x →
      NothingSmall size (x.rebalanceTransfersTowardBatch size) := by
  refine ⟨fun x _ => rebalance_lossless size x, fun x hr hnone => ?_⟩
  have hsettled := (Settled.reached hr).complete hnone
  intro rel hrel
  rw [hnone.1, hnone.2] at hrel
  have hbefore := not_small.1 (hsettled rel hrel)
  rw [not_small, threshold_rebalance]
  exact hbefore

/-- Two files, of 2000 KiB and of 4000 KiB. -/
def two : ℕ → Option ℕ
  | 0 => some (2000 * 1024)
  | _ => some (4000 * 1024)

/-- Both are queued as regular; with four streams the threshold is 3200 KiB, and the first is moved. -/
def twoQueued : List (Step ℕ) := [.enqueue 0 false, .enqueue 1 false, .refresh, .rebalance]

/-- The next pass leaves the second path, which is larger. -/
theorem rebalance_complete_two :
    ((queues two 4).run {} twoQueued).pendingTransfers = [1] ∧
      NothingSmall two (((queues two 4).run {} twoQueued).rebalanceTransfersTowardBatch two) := by
  have hallowed : (queues two 4).Allows (AboveMark two) {} twoQueued := by
    refine ⟨trivial, ?_, trivial, ?_, trivial, trivial, trivial, trivial, trivial⟩
    · rintro fileSize - ⟨hlarge, hsmall⟩
      exact absurd (Nat.lt_of_lt_of_le hlarge hsmall) (by decide)
    · rintro fileSize - ⟨hlarge, hsmall⟩
      exact absurd (Nat.lt_of_lt_of_le hlarge hsmall) (by decide)
  exact ⟨by decide, (rebalance_complete two 4).2 _ (Machine.reach_run hallowed) ⟨by decide, by decide⟩⟩

/-! ### Below the mark -/

theorem allows_all (size : P → Option ℕ) (streamLimit : ℕ) (x : Transfers P) (steps : List (Step P)) :
    (queues size streamLimit).Allows (fun _ _ => True) x steps := by
  induction steps generalizing x with
  | nil => exact trivial
  | cons e steps ih => exact ⟨trivial, trivial, ih _⟩

/-- Large paths are appended to the regular queue one by one. -/
theorem run_enqueue {size : P → Option ℕ} (streamLimit : ℕ) {rels : List P} {x : Transfers P}
    (h : ∀ rel ∈ rels, x.small size rel = false) :
    (queues size streamLimit).run x (rels.map (Step.enqueue · false)) =
      { x with pendingTransfers := x.pendingTransfers ++ rels } := by
  induction rels generalizing x with
  | nil =>
    rw [List.append_nil]
    rfl
  | cons rel rels ih =>
    have hnot : ¬ x.small size rel = true := by
      rw [h rel List.mem_cons_self]
      nofun
    have hone : x.enqueueTransfer size rel false = { x with pendingTransfers := x.pendingTransfers ++ [rel] } := by
      unfold enqueueTransfer
      rw [if_neg (by nofun), if_neg hnot]
    have hrest := ih (x := x.enqueueTransfer size rel false) fun other hother => by
      rw [hone]
      exact h other (List.mem_cons_of_mem rel hother)
    change (queues size streamLimit).run (x.enqueueTransfer size rel false) _ = _
    rw [hrest, hone, List.append_assoc]
    rfl

/-- Files of 1500 KiB each. -/
def kib1500 (_ : ℕ) : Option ℕ := some (1500 * 1024)

/-- The queues after a refresh without backlog and with `queue` put into the regular one since. -/
def low (queue : List ℕ) : Transfers ℕ where
  pendingTransfers := queue
  smallFileBatchThreshold := 1280 * 1024
  smallBatchMaxFiles := 5120
  smallBatchMaxBytes := 200 * 1024 * 1024

theorem reach_low (queue : List ℕ) : (queues kib1500 64).Reach (fun _ _ => True) (low queue) := by
  have hfirst : (queues kib1500 64).Reach (fun _ _ => True) (low []) := Machine.Reach.step (e := Step.refresh) .init trivial trivial
  have hrun := hfirst.run (allows_all kib1500 64 (low []) (queue.map (Step.enqueue · false)))
  rw [run_enqueue 64 fun rel _ => by rfl] at hrun
  exact hrun

/-- A thousand paths bring the threshold back to 1920 KiB, where the mark has been all along. -/
theorem refresh_low {queue : List ℕ} (hlen : queue.length = 1000) :
    (low queue).refreshSmallBatchTuning 64 =
      { pendingTransfers := queue } := by
  have hbacklog : batchTuning (0 + 0 + (queue.length + 0)) = (1920 * 1024, 7680, 320 * 1024 * 1024) := by
    rw [hlen]
    rfl
  unfold refreshSmallBatchTuning low
  dsimp only [List.length_nil]
  rw [hbacklog]
  rfl

/-- **A pass can leave everything**: a thousand files of 1500 KiB are queued while the threshold is 1280 KiB.
When it is back at 1920 KiB, all of them are within it, and the pass is skipped. -/
theorem rebalance_skips_low :
    ¬ ∀ x : Transfers ℕ, (queues kib1500 64).Reach (fun _ _ => True) x → MovesNothing kib1500 x →
      NothingSmall kib1500 (x.rebalanceTransfersTowardBatch kib1500) := by
  intro h
  obtain ⟨queue, hlen, hmem⟩ : ∃ queue : List ℕ, queue.length = 1000 ∧ 0 ∈ queue :=
    ⟨List.range 1000, List.length_range, List.mem_range.2 (by omega)⟩
  have hreach : (queues kib1500 64).Reach (fun _ _ => True) ((low queue).refreshSmallBatchTuning 64) :=
    Machine.Reach.step (e := Step.refresh) (reach_low _) trivial trivial
  rw [refresh_low hlen] at hreach
  have hskipped : ({ pendingTransfers := queue } : Transfers ℕ).rebalanceTransfersTowardBatch kib1500 =
      { pendingTransfers := queue } := if_pos (Nat.le_refl _)
  have hnone := h _ hreach ⟨by rw [hskipped], by rw [hskipped]⟩
  rw [hskipped] at hnone
  have hsmall : small kib1500 ({} : Transfers ℕ) 0 = true := by decide
  have hlarge : small kib1500 ({} : Transfers ℕ) 0 = false := hnone 0 (List.mem_append_left _ hmem)
  exact Bool.noConfusion (hsmall.symm.trans hlarge)

end Transfers

end FastClone.Client
