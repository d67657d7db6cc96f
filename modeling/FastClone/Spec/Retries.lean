import FastClone.Spec.ClientStep
import FastClone.Spec.RetryLife

/-!
# The opens of a run

`opens` is a ghost: the files that the turns of `tryStartTransfers` took from a queue along a
run, each as often as it was taken, whether or not the open and the send that followed went
well. `Orderly` says what the server promises about a step.
-/

namespace FastClone.Client

variable {P H : Type} [DecidableEq P]

/-- How often a file was counted transferred or failed. -/
def Transfers.resolved (x : Transfers P) (f : P) : ℕ :=
  x.tally.log.countP fun r => decide (r.1 = some f) && decide (r.2 ≠ .unchanged)

namespace State

/-- The paths `startBatch` takes. -/
def batchPaths (cfg : Config) (s : State P H) (q : Transfers.Queue) (lane : ℕ) : List P :=
  if s.pool.canPick (s.laneCap cfg true) false lane then
    (s.xfer.queue q).take (Transfers.batchTake s.size s.xfer.smallBatchMaxFiles
      s.xfer.smallBatchMaxBytes (s.xfer.queue q) 0 0)
  else []

/-- The path `startDownload` takes, if it takes one. -/
def downloadPath (cfg : Config) (s : State P H) (q : Transfers.Queue) (globalSlotCap lane : ℕ) :
    List P :=
  let reservedBatchSlots :=
    if globalSlotCap > 1 ∧
        (s.xfer.pendingBatchTransfers ≠ [] ∨ s.xfer.pendingRetryBatchTransfers ≠ []) then 1 else 0
  if s.streams.countWhere Stream.isDownload ≥ globalSlotCap - reservedBatchSlots then []
  else
    match s.xfer.queue q with
    | [] => []
    | rel :: _ =>
      let isLarge := (s.size rel).any (cfg.largeFileThresholdBytes ≤ ·)
      if s.pool.canPick (s.laneCap cfg true) (isLarge && !cfg.largeFilePrefersAux) lane then [rel]
      else []

/-- The files that one turn of the loop of `tryStartTransfers` opens. -/
def startedPaths (cfg : Config) (s : State P H) (lane healthyAtStart : ℕ) : List P :=
  let globalSlotCap := s.activeStreamLimit * max 1 healthyAtStart
  if s.streams.countWhere (fun st => st.isDownload || st.isBatch) ≥ globalSlotCap then []
  else if s.io.ioInFlightBytes > cfg.ioInFlightLimitBytes then []
  else
    match s.xfer.nextQueue with
    | none => []
    | some .batch => s.batchPaths cfg .batch lane
    | some .retryBatch => s.batchPaths cfg .retryBatch lane
    | some .regular => s.downloadPath cfg .regular globalSlotCap lane
    | some .retryRegular => s.downloadPath cfg .retryRegular globalSlotCap lane

/-- The files that an event opens. -/
def opened (cfg : Config) (s : State P H) : Event P H → List P
  | .startTransfer lane healthyAtStart _ _ => s.startedPaths cfg lane healthyAtStart
  | _ => []

/-- The range a `FileRangeError` is tagged with, or else the file it names. -/
def fileRangeErrorFile (s : State P H) (k : Key) (rel : P) : P :=
  match s.streams.find k with
  | some (.fileRange r) => r.rel
  | _ => rel

end State

variable [DecidableEq H]

/-- The files opened along a run, in order. -/
def opens (cfg : Config) : State P H → List (Event P H) → List P
  | _, [] => []
  | s, e :: es => s.opened cfg e ++ opens cfg (exec cfg s e) es

/-- The manifest lists no path twice, and a `FileRangeError` is about a file that was in block
mode: it still is, it was abandoned, or it was counted. -/
def Orderly (s : State P H) : Event P H → Prop
  | .manifestEntry rel _ => rel ∉ s.remoteFiles
  | .fileRangeError k rel =>
    let rel := s.fileRangeErrorFile k rel
    rel ∈ s.range.book.states ∨ rel ∈ s.range.book.abandoned ∨ 0 < s.xfer.resolved rel
  | _ => True

instance (s : State P H) (e : Event P H) : Decidable (Orderly s e) := by
  apply Event.casesOn (motive := fun e => Decidable (Orderly s e)) e <;> intros <;>
    dsimp only [Orderly] <;> infer_instance

end FastClone.Client
