import FastClone.Spec.Batch
import Mathlib.Data.Finset.Basic
import Mathlib.Logic.Function.Basic

/-!
# Counters, transfer queues and retries of the client

The main thread owns the counters `compared`, `unchanged`, `transferred` and `failed`, the
four transfer queues, the set of scheduled files and the retry counts. `Tally.log` is a
ghost: it remembers for which file each count was made.
-/

namespace FastClone.Client

/-- How a file was counted. -/
inductive Outcome where
  | unchanged
  | transferred
  | failed
  deriving DecidableEq, Repr

/-- The counters with the log of what they counted. A count made for a stream the client
cannot name a file for is logged under `none`. -/
structure Tally (P : Type) where
  compared : ℕ
  unchanged : ℕ
  transferred : ℕ
  failed : ℕ
  log : List (Option P × Outcome)
  compared_eq : compared = log.length
  unchanged_eq : unchanged = log.countP fun r => r.2 = .unchanged
  transferred_eq : transferred = log.countP fun r => r.2 = .transferred
  failed_eq : failed = log.countP fun r => r.2 = .failed

/-- All counters at 0. -/
def Tally.zero (P : Type) : Tally P where
  compared := 0
  unchanged := 0
  transferred := 0
  failed := 0
  log := []
  compared_eq := List.length_nil.symm
  unchanged_eq := List.countP_nil.symm
  transferred_eq := List.countP_nil.symm
  failed_eq := List.countP_nil.symm

variable {P : Type}

/-- `++compared` together with the counter of the outcome. -/
def Tally.count (t : Tally P) (rel : Option P) (o : Outcome) : Tally P where
  compared := t.compared + 1
  unchanged := t.unchanged + if o = .unchanged then 1 else 0
  transferred := t.transferred + if o = .transferred then 1 else 0
  failed := t.failed + if o = .failed then 1 else 0
  log := (rel, o) :: t.log
  compared_eq := by simp [t.compared_eq]
  unchanged_eq := by simp [t.unchanged_eq, List.countP_cons]
  transferred_eq := by simp [t.transferred_eq, List.countP_cons]
  failed_eq := by simp [t.failed_eq, List.countP_cons]

/-- `kMaxTransferRetries`. -/
def kMaxTransferRetries : ℕ := 3

/-- The transfer side of the main thread. `transferRetryCounts` has no entry where it is 0. -/
structure Transfers (P : Type) where
  pendingTransfers : List P := []
  pendingBatchTransfers : List P := []
  pendingRetryTransfers : List P := []
  pendingRetryBatchTransfers : List P := []
  scheduledTransfers : Finset P := ∅
  transferRetryCounts : P → ℕ := fun _ => 0
  smallFileBatchThreshold : ℕ := 1920 * 1024
  smallBatchMaxFiles : ℕ := 7680
  smallBatchMaxBytes : ℕ := 320 * 1024 * 1024
  rebalanceDoneThreshold : ℕ := 1920 * 1024
  tally : Tally P := Tally.zero P

namespace Transfers

/-- `it != remoteFiles.end() && it->second.fileSize <= smallFileBatchThreshold`, with the
manifest sizes given by `size`. -/
def small (size : P → Option ℕ) (x : Transfers P) (rel : P) : Bool :=
  (size rel).any (· ≤ x.smallFileBatchThreshold)

/-- `enqueueTransfer`. -/
def enqueueTransfer (size : P → Option ℕ) (x : Transfers P) (rel : P) (isRetry : Bool) :
    Transfers P :=
  if isRetry then
    if x.small size rel then
      { x with pendingRetryBatchTransfers := x.pendingRetryBatchTransfers ++ [rel] }
    else { x with pendingRetryTransfers := x.pendingRetryTransfers ++ [rel] }
  else
    if x.small size rel then
      { x with pendingBatchTransfers := x.pendingBatchTransfers ++ [rel] }
    else { x with pendingTransfers := x.pendingTransfers ++ [rel] }

/-- Add one to `compared` and to the counter of the outcome. -/
def count (x : Transfers P) (rel : Option P) (o : Outcome) : Transfers P :=
  { x with tally := x.tally.count rel o }

/-- `markTransferFailed`. -/
def markTransferFailed (x : Transfers P) (rel : P) : Transfers P := x.count (some rel) .failed

/-- The regular queue turns its eligible paths over to the batch queue, at most `budget` of
them: the moved paths and those that remain. -/
def moveEligible (eligible : P → Bool) : List P → ℕ → List P × List P
  | [], _ => ([], [])
  | rel :: queue, budget =>
    if eligible rel && decide (0 < budget) then
      let r := moveEligible eligible queue (budget - 1)
      (rel :: r.1, r.2)
    else
      let r := moveEligible eligible queue budget
      (r.1, rel :: r.2)

/-- `rebalanceTransfersTowardBatch`. -/
def rebalanceTransfersTowardBatch (size : P → Option ℕ) (x : Transfers P) : Transfers P :=
  if x.smallFileBatchThreshold ≤ x.rebalanceDoneThreshold then x
  else
    let moveBudget := max 512 x.smallBatchMaxFiles
    let regular := moveEligible (x.small size) x.pendingTransfers moveBudget
    let retryBudgetBase := max (moveBudget / 2) 256
    let retryBudget :=
      if regular.1.length ≥ retryBudgetBase then 0 else retryBudgetBase - regular.1.length
    let retry := moveEligible (x.small size) x.pendingRetryTransfers retryBudget
    { x with
      pendingTransfers := regular.2
      pendingBatchTransfers := x.pendingBatchTransfers ++ regular.1
      pendingRetryTransfers := retry.2
      pendingRetryBatchTransfers := x.pendingRetryBatchTransfers ++ retry.1
      rebalanceDoneThreshold :=
        if regular.1.length = 0 ∧ retry.1.length = 0 then x.smallFileBatchThreshold
        else x.rebalanceDoneThreshold }

/-- The threshold, file and byte limits `refreshSmallBatchTuning` picks for a backlog. -/
def batchTuning (backlog : ℕ) : ℕ × ℕ × ℕ :=
  if backlog > 120000 then (5120 * 1024, 20480, 960 * 1024 * 1024)
  else if backlog > 60000 then (3840 * 1024, 15360, 640 * 1024 * 1024)
  else if backlog > 16000 then (2560 * 1024, 10240, 480 * 1024 * 1024)
  else if backlog < 1000 then (1280 * 1024, 5120, 200 * 1024 * 1024)
  else (1920 * 1024, 7680, 320 * 1024 * 1024)

/-- `refreshSmallBatchTuning`: few streams get larger batches. -/
def refreshSmallBatchTuning (streamLimit : ℕ) (x : Transfers P) : Transfers P :=
  let backlog := x.pendingBatchTransfers.length + x.pendingRetryBatchTransfers.length +
    (x.pendingTransfers.length + x.pendingRetryTransfers.length)
  let t := batchTuning backlog
  if streamLimit ≤ 8 then
    { x with
      smallFileBatchThreshold := max t.1 (3200 * 1024)
      smallBatchMaxFiles := max t.2.1 12800
      smallBatchMaxBytes := max t.2.2 (640 * 1024 * 1024) }
  else
    { x with
      smallFileBatchThreshold := t.1
      smallBatchMaxFiles := t.2.1
      smallBatchMaxBytes := t.2.2 }

variable [DecidableEq P]

/-- `scheduleTransfer`. -/
def scheduleTransfer (size : P → Option ℕ) (x : Transfers P) (rel : P) : Transfers P :=
  if rel ∈ x.scheduledTransfers then x
  else
    { x with scheduledTransfers := insert rel x.scheduledTransfers }.enqueueTransfer size rel false

/-- `transferRetryCounts.erase(rel)`. -/
def forgetRetries (x : Transfers P) (rel : P) : Transfers P :=
  { x with transferRetryCounts := Function.update x.transferRetryCounts rel 0 }

/-- `retryOrFail`. -/
def retryOrFail (size : P → Option ℕ) (x : Transfers P) (rel : P) : Transfers P :=
  if x.transferRetryCounts rel < kMaxTransferRetries then
    { x with
      transferRetryCounts :=
        Function.update x.transferRetryCounts rel (x.transferRetryCounts rel + 1) }.enqueueTransfer
      size rel true
  else (x.markTransferFailed rel).forgetRetries rel

/-- The queue `tryStartTransfers` serves next. -/
inductive Queue where
  | batch
  | regular
  | retryBatch
  | retryRegular
  deriving DecidableEq

/-- The choice at the head of the loop of `tryStartTransfers`. -/
def nextQueue (x : Transfers P) : Option Queue :=
  if x.pendingBatchTransfers ≠ [] then some .batch
  else if x.pendingTransfers ≠ [] then some .regular
  else if x.pendingRetryBatchTransfers ≠ [] then some .retryBatch
  else if x.pendingRetryTransfers ≠ [] then some .retryRegular
  else none

/-- The paths of a queue. -/
def queue (x : Transfers P) : Queue → List P
  | .batch => x.pendingBatchTransfers
  | .regular => x.pendingTransfers
  | .retryBatch => x.pendingRetryBatchTransfers
  | .retryRegular => x.pendingRetryTransfers

/-- The queue replaced. -/
def setQueue (x : Transfers P) (paths : List P) : Queue → Transfers P
  | .batch => { x with pendingBatchTransfers := paths }
  | .regular => { x with pendingTransfers := paths }
  | .retryBatch => { x with pendingRetryBatchTransfers := paths }
  | .retryRegular => { x with pendingRetryTransfers := paths }

/-- The inner loop of `tryStartTransfers`: how many paths from the front of a queue fit a
batch that already has `files` paths of `bytes` bytes. -/
def batchTake (size : P → Option ℕ) (maxFiles maxBytes : ℕ) : List P → ℕ → ℕ → ℕ
  | [], _, _ => 0
  | rel :: queue, files, bytes =>
    if files < maxFiles ∧ bytes < maxBytes then
      1 + batchTake size maxFiles maxBytes queue (files + 1) (bytes + (size rel).getD 0)
    else 0

end Transfers

end FastClone.Client
