import FastClone.Spec.Transfer
import FastClone.Spec.Ranges
import FastClone.Spec.HashPhase

/-!
# State of the client's main loop

The state is split as the functions of the source use it: compare stage, hash stage,
transfer queues, open streams, write pool, delta files, block-mode files, lanes. Paths are
of any type `P` with decidable equality, hashes of any type `H`.
-/

namespace FastClone.Client

/-- `LargeFileLane`. -/
inductive LargeFileLane where
  | primary
  | aux
  | auto
  deriving DecidableEq, Repr

/-- The options and limits a session is run with. `streamLimit` is the tuned one (`tuned.streamLimit`),
`wanStreamLimit` the one that a slow link may raise (`wanTune.streamLimit`). -/
structure Config where
  laneCount : ℕ
  streamLimit : ℕ
  wanStreamLimit : ℕ
  streamBackoff : Bool := false
  deltaEnabled : Bool := true
  deltaMinSizeBytes : ℕ := 1024 * 1024
  largeFileBlockAllowed : Bool := true
  serverCapFileRange : Bool := true
  largeFileThresholdBytes : ℕ
  largeFileBlockBytes : ℕ
  largeFileLane : LargeFileLane := .auto
  auxWeightAtLeastTwo : Bool := false
  effectiveChunkSize : ℕ
  maxInFlightCompareTasks : ℕ
  maxInFlightHashRequests : ℕ
  maxInFlightDeltaSig : ℕ := 0
  ioInFlightLimitBytes : ℕ
  laneCount_pos : 0 < laneCount
  streamLimit_pos : 0 < streamLimit
  streamLimit_le : streamLimit ≤ wanStreamLimit
  block_pos : 0 < largeFileBlockBytes
  chunk_pos : 0 < effectiveChunkSize
  compare_pos : 0 < maxInFlightCompareTasks
  hash_pos : 0 < maxInFlightHashRequests

/-- `largeFilePrefersAux`. -/
def Config.largeFilePrefersAux (cfg : Config) : Bool :=
  match cfg.largeFileLane with
  | .primary => false
  | .aux => true
  | .auto => cfg.auxWeightAtLeastTwo

/-- `FileEntry` of a manifest file. -/
structure FileEntry where
  fileSize : ℕ
  mtimeNs : ℤ
  deriving DecidableEq, Repr

/-- `TempFinalizeResult`: what the disk answers to the end of a temp file. -/
inductive TempFinalizeResult where
  | ok
  | ioFailure
  | verifyFailure
  deriving DecidableEq, Repr

/-- The batch of one write worker: tasks not yet written, and results not yet published. -/
structure IoBatch (P : Type) where
  todo : List (IoWriteTask P)
  done : List (P × Bool)

/-- How many files the workers hold. -/
def ioRunning {P : Type} (batches : List (IoBatch P)) : ℕ :=
  (batches.map fun b => b.todo.length + b.done.length).sum

/-- The write pool. -/
structure IoPool (P : Type) where
  ioTasks : List (IoWriteTask P)
  running : List (IoBatch P)
  ioResults : List (P × Bool)
  ioInFlightBytes : ℕ
  ioOutstanding : ℕ
  outstanding_eq : ioOutstanding = ioTasks.length + ioRunning running + ioResults.length

namespace IoPool

variable {P : Type}

/-- Nothing to write. -/
def empty (P : Type) : IoPool P where
  ioTasks := []
  running := []
  ioResults := []
  ioInFlightBytes := 0
  ioOutstanding := 0
  outstanding_eq := by simp [ioRunning]

/-- The enqueue of `dispatchBatchWrite`. -/
def dispatch (io : IoPool P) (task : IoWriteTask P) : IoPool P :=
  { io with
    ioTasks := io.ioTasks ++ [task]
    ioInFlightBytes := io.ioInFlightBytes + task.data.length
    ioOutstanding := io.ioOutstanding + 1
    outstanding_eq := by
      have := io.outstanding_eq
      simp only [List.length_append, List.length_singleton]
      omega }

/-- `kIoBatchPop`. -/
def kIoBatchPop : ℕ := 16

/-- A worker pops a batch. -/
def workerTake (io : IoPool P) : IoPool P :=
  { io with
    ioTasks := io.ioTasks.drop kIoBatchPop
    running := ⟨io.ioTasks.take kIoBatchPop, []⟩ :: io.running
    outstanding_eq := by
      have h := io.outstanding_eq
      have hl := congrArg List.length (List.take_append_drop kIoBatchPop io.ioTasks)
      simp only [List.length_append] at hl
      simp only [ioRunning, List.map_cons, List.sum_cons, List.length_nil] at h ⊢
      omega }

theorem sum_modify {α : Type} (w : α → ℕ) (g : α → α) (hg : ∀ x, w (g x) = w x) :
    ∀ (l : List α) (i : ℕ), ((l.modify i g).map w).sum = (l.map w).sum
  | [], i => by simp
  | x :: l, 0 => by simp [hg]
  | x :: l, i + 1 => by simp [sum_modify w g hg l i]

theorem sum_eraseIdx {α : Type} (w : α → ℕ) : ∀ (l : List α) (i : ℕ) (x : α), l[i]? = some x →
    (l.map w).sum = w x + ((l.eraseIdx i).map w).sum
  | [], i, x, h => by simp at h
  | y :: l, 0, x, h => by simp_all
  | y :: l, i + 1, x, h => by
    have ih := sum_eraseIdx w l i x (by simpa using h)
    simp only [List.eraseIdx_cons_succ, List.map_cons, List.sum_cons, ih]
    omega

/-- The first task of a batch is written, with the given success. -/
def writeNext (ok : Bool) (b : IoBatch P) : IoBatch P :=
  match b.todo with
  | [] => b
  | t :: rest => ⟨rest, b.done ++ [(t.relPath, ok)]⟩

theorem writeNext_length (ok : Bool) (b : IoBatch P) :
    (writeNext ok b).todo.length + (writeNext ok b).done.length = b.todo.length + b.done.length := by
  unfold writeNext
  cases h : b.todo with
  | nil => simp [h]
  | cons t rest =>
    simp only [List.length_append, List.length_cons, List.length_nil]
    omega

/-- The worker at position `i` writes its next file. -/
def workerWrite (io : IoPool P) (i : ℕ) (ok : Bool) : IoPool P :=
  { io with
    running := io.running.modify i (writeNext ok)
    ioInFlightBytes := io.ioInFlightBytes -
      ((io.running[i]?.bind fun b => b.todo.head?).map fun t => t.data.length).getD 0
    outstanding_eq := by
      have h := io.outstanding_eq
      have hm := sum_modify (fun b : IoBatch P => b.todo.length + b.done.length) (writeNext ok)
        (writeNext_length ok) io.running i
      unfold ioRunning at h ⊢
      rw [hm]
      exact h }

/-- The worker at position `i` publishes its results, once all of its batch is written. -/
def workerPublish (io : IoPool P) (i : ℕ) : IoPool P :=
  match h : io.running[i]? with
  | none => io
  | some b =>
    if ht : b.todo = [] then
      { io with
        running := io.running.eraseIdx i
        ioResults := io.ioResults ++ b.done
        outstanding_eq := by
          have h' := io.outstanding_eq
          have hs := sum_eraseIdx (fun b : IoBatch P => b.todo.length + b.done.length) io.running i b h
          simp only [ioRunning, ht, List.length_nil] at h' hs ⊢
          rw [List.length_append]
          omega }
    else io

/-- The main thread takes one result. -/
def drainOne (io : IoPool P) : Option ((P × Bool) × IoPool P) :=
  match h : io.ioResults with
  | [] => none
  | r :: rest =>
    some (r,
      { io with
        ioResults := rest
        ioOutstanding := io.ioOutstanding - 1
        outstanding_eq := by
          have h' := io.outstanding_eq
          rw [h] at h'
          simp only [List.length_cons] at h'
          omega })

end IoPool

/-- `DeltaPlanResult`: the file, and its ranges when the plan is usable. -/
structure PlanResult (P : Type) where
  rel : P
  ranges : Option (List Spans.Span)

/-- The delta files. `sigJobs` is the peer's side: the signature requests that reached the
server over a lane and are not answered yet. -/
structure DeltaStage (P : Type) where
  book : RangeBook P
  pendingDeltaSigRequests : List P
  deltaSigRequested : Finset P
  deltaSigInFlight : ℕ
  planTasks : List P
  planning : List P
  planResults : List (PlanResult P)
  deltaPlanInFlight : ℕ
  sigJobs : List (ℕ × P)
  plans_eq : deltaPlanInFlight = planTasks.length + planning.length + planResults.length

/-- No delta file. -/
def DeltaStage.empty (P : Type) : DeltaStage P where
  book := RangeBook.empty P
  pendingDeltaSigRequests := []
  deltaSigRequested := ∅
  deltaSigInFlight := 0
  planTasks := []
  planning := []
  planResults := []
  deltaPlanInFlight := 0
  sigJobs := []
  plans_eq := by simp

namespace DeltaStage

variable {P : Type}

/-- The `BlockSigResponse` handler hands the file to the plan workers. -/
def pushPlan (d : DeltaStage P) (rel : P) : DeltaStage P :=
  { d with
    planTasks := d.planTasks ++ [rel]
    deltaPlanInFlight := d.deltaPlanInFlight + 1
    plans_eq := by
      have := d.plans_eq
      simp only [List.length_append, List.length_singleton]
      omega }

theorem planTake_plans (d : DeltaStage P) {rel : P} {rest : List P} (h : d.planTasks = rel :: rest) :
    d.deltaPlanInFlight = rest.length + (rel :: d.planning).length + d.planResults.length := by
  have h' := d.plans_eq
  rw [h] at h'
  simp only [List.length_cons] at h' ⊢
  omega

/-- A plan worker pops a task. -/
def planTake (d : DeltaStage P) : DeltaStage P :=
  match h : d.planTasks with
  | [] => d
  | rel :: rest =>
    { d with
      planTasks := rest
      planning := rel :: d.planning
      plans_eq := d.planTake_plans h }

theorem planPublish_plans (d : DeltaStage P) {i : ℕ} {rel : P} (ranges : Option (List Spans.Span))
    (h : d.planning[i]? = some rel) : d.deltaPlanInFlight =
      d.planTasks.length + (d.planning.eraseIdx i).length + (d.planResults ++ [PlanResult.mk rel ranges]).length := by
  have h' := d.plans_eq
  have hi : i < d.planning.length := (List.getElem?_eq_some_iff.1 h).1
  rw [List.length_eraseIdx_of_lt hi]
  simp only [List.length_append, List.length_singleton]
  omega

/-- The plan worker at position `i` publishes its result. -/
def planPublish (d : DeltaStage P) (i : ℕ) (ranges : Option (List Spans.Span)) : DeltaStage P :=
  match h : d.planning[i]? with
  | none => d
  | some rel =>
    { d with
      planning := d.planning.eraseIdx i
      planResults := d.planResults ++ [⟨rel, ranges⟩]
      plans_eq := d.planPublish_plans ranges h }

/-- The main thread takes one plan result. -/
def drainPlan (d : DeltaStage P) : Option (PlanResult P × DeltaStage P) :=
  match h : d.planResults with
  | [] => none
  | r :: rest =>
    some (r,
      { d with
        planResults := rest
        deltaPlanInFlight := d.deltaPlanInFlight - 1
        plans_eq := by
          have h' := d.plans_eq
          rw [h] at h'
          simp only [List.length_cons] at h'
          omega })

end DeltaStage

/-- The block-mode files. -/
structure FileRangeStage (P : Type) where
  book : RangeBook P
  pendingFileRangePlans : List P

/-- Where the main loop stands: inside it, left by its completion test, left because every lane
is closed, or left by an exception. -/
inductive Mode where
  | running
  | completed
  | closed
  | aborted (what : String)
  deriving DecidableEq, Repr

/-- The state of the client. -/
structure State (P H : Type) where
  pool : Pool
  activeStreamLimit : ℕ
  remoteFiles : AList fun _ : P => FileEntry
  remoteDirs : Finset P
  manifestDone : Bool
  compare : CompareStage P
  hash : HashStage P H
  xfer : Transfers P
  streams : Streams P
  io : IoPool P
  delta : DeltaStage P
  range : FileRangeStage P
  recvClosed : Bool
  mode : Mode

/-- The state in which the main loop is entered: every lane is up, the `ManifestRequest` is out
on the primary. -/
def State.start (P H : Type) (cfg : Config) : State P H where
  pool := List.replicate cfg.laneCount {}
  activeStreamLimit := cfg.wanStreamLimit
  remoteFiles := ∅
  remoteDirs := ∅
  manifestDone := false
  compare := CompareStage.empty P
  hash := HashStage.empty P H
  xfer := {}
  streams := Streams.none P
  io := IoPool.empty P
  delta := DeltaStage.empty P
  range := ⟨RangeBook.empty P, []⟩
  recvClosed := false
  mode := .running

end FastClone.Client
