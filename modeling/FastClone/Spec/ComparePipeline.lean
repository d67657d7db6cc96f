import FastClone.Lib.Worklist
import FastClone.Spec.Compare

/-!
# The compare pipeline (`compare_pipeline.cpp`)

The caller's thread puts entries into a buffer, flushes the buffer into a queue, and drains results. A pool of
threads takes batches from the queue, probes the local file of each entry, decides, and puts the results into
a second queue. How many threads may have a batch is capped, and the cap may change at any time.

A thread that waits on `taskCv_` may wake at any time, so a notification enables nothing that was not
possible before. `stop_` and `activeCap_` are written without `taskMu_`, also while a thread holds it: its
wait and its gate read them one after the other.
-/

namespace FastClone.ComparePipeline

open FastClone.Wire FastClone.Compare

structure ComparePipelineConfig where
  mode : CompareMode := .fast
  workerCount : ℕ := 4
  batchPop : ℕ := 32

/-- The number of threads. -/
def ComparePipelineConfig.count (cfg : ComparePipelineConfig) : ℕ := max 1 cfg.workerCount

/-- An entry and the number of its `Enqueue`. -/
structure Task where
  serial : ℕ
  remote : FileEntry

structure ComparedItem where
  serial : ℕ
  remote : FileEntry
  localFile : Option FileEntry
  outcome : CompareOutcome

def ComparedItem.task (i : ComparedItem) : Task := ⟨i.serial, i.remote⟩

/-- What a probe does: it throws, or finds a local file or none. -/
inductive Probe where
  | throws
  | returns (localFile : Option FileEntry)

/-- An exception of the probe is no local file. -/
def Probe.localFile : Probe → Option FileEntry
  | .throws => none
  | .returns localFile => localFile

/-- One turn of the loop over a batch. -/
def Task.compared (mode : CompareMode) (t : Task) (probe : Probe) : ComparedItem :=
  ⟨t.serial, t.remote, probe.localFile, decideCompare mode probe.localFile t.remote⟩

/-- Where a thread stands: at `taskCv_`, past it with `taskMu_`, with a batch (what is left of it, and the
results), past `resultMu_` with `n` results not added to `pending_`, before it gives its slot back, or at its end. -/
inductive Worker where
  | waiting
  | holding
  | busy (batch : List Task) (resultBatch : List ComparedItem)
  | published (n : ℕ)
  | releasing
  | gone

structure State where
  dispatchBuffer : List Task := []
  tasks : List Task := []
  results : List ComparedItem := []
  issued : ℕ := 0
  drained : ℕ := 0
  /-- Below 0 where a drain comes before the addition. -/
  pending : ℤ := 0
  stop : Bool := false
  activeCap : ℕ := 0
  activeWorkers : ℕ := 0
  /-- Some thread of the pool has `taskMu_`. -/
  locked : Bool := false
  worker : ℕ → Worker := fun _ => .waiting
  /-- Everything enqueued, everything drained, what the probes have said, and what was flushed after `Stop`. -/
  enqueued : List Task := []
  out : List ComparedItem := []
  probes : List (ℕ × Probe) := []
  late : List Task := []

inductive Event where
  | enqueue (remote : FileEntry)
  | flush
  | drain
  | setActiveCap (cap : ℕ)
  | stop
  /-- The wait returns. -/
  | wake (w : ℕ)
  /-- The rest of the section under `taskMu_`: the thread leaves, waits once more, or takes a batch. -/
  | gate (w : ℕ)
  | probe (w : ℕ) (p : Probe)
  | publish (w : ℕ)
  | count (w : ℕ)
  | release (w : ℕ)

namespace State

def set (s : State) (w : ℕ) (x : Worker) : State := { s with worker := Function.update s.worker w x }

/-- `Enqueue`. -/
def enqueue (s : State) (remote : FileEntry) : State :=
  let t : Task := ⟨s.enqueued.length, remote⟩
  { s with
    dispatchBuffer := s.dispatchBuffer ++ [t]
    issued := s.issued + 1
    enqueued := s.enqueued ++ [t] }

/-- `Flush`. -/
def flush (s : State) : State :=
  { s with
    tasks := s.tasks ++ s.dispatchBuffer
    dispatchBuffer := []
    late := if s.stop then s.late ++ s.dispatchBuffer else s.late }

/-- `Drain`. -/
def drain (s : State) : State :=
  { s with
    results := []
    pending := s.pending - s.results.length
    drained := s.drained + s.results.length
    out := s.out ++ s.results }

/-- `InFlight`. -/
def inFlight (s : State) : ℕ := if s.issued ≥ s.drained then s.issued - s.drained else 0

/-- The predicate of the wait. -/
def awake (s : State) : Bool :=
  s.stop || (!s.tasks.isEmpty && (decide (s.activeCap = 0) || decide (s.activeWorkers < s.activeCap)))

/-- The thread takes a slot and a batch. -/
def claim (cfg : ComparePipelineConfig) (s : State) (w : ℕ) : State :=
  let take := min cfg.batchPop s.tasks.length
  { s.set w (.busy (s.tasks.take take) []) with
    activeWorkers := s.activeWorkers + 1
    tasks := s.tasks.drop take
    locked := false }

/-- The section under `taskMu_`, behind the wait. -/
def gate (cfg : ComparePipelineConfig) (s : State) (w : ℕ) : State :=
  if s.stop = true ∧ s.tasks = [] then { s.set w .gone with locked := false }
  else if s.stop = false ∧ s.activeCap > 0 ∧ s.activeWorkers ≥ s.activeCap then { s.set w .waiting with locked := false }
  else s.claim cfg w

def step (cfg : ComparePipelineConfig) (s : State) : Event → Option State
  | .enqueue remote => some (s.enqueue remote)
  | .flush => if s.locked then none else some s.flush
  | .drain => some s.drain
  | .setActiveCap cap => some { s with activeCap := cap }
  | .stop => some { s with stop := true }
  | .wake w =>
    match s.worker w with
    | .waiting => if w < cfg.count ∧ s.locked = false ∧ s.awake = true then some { s.set w .holding with locked := true } else none
    | _ => none
  | .gate w =>
    match s.worker w with
    | .holding => some (s.gate cfg w)
    | _ => none
  | .probe w p =>
    match s.worker w with
    | .busy (t :: batch) resultBatch =>
      some { s.set w (.busy batch (resultBatch ++ [t.compared cfg.mode p])) with probes := s.probes ++ [(t.serial, p)] }
    | _ => none
  | .publish w =>
    match s.worker w with
    | .busy [] resultBatch =>
      if resultBatch = [] then some (s.set w .releasing)
      else some { s.set w (.published resultBatch.length) with results := s.results ++ resultBatch }
    | _ => none
  | .count w =>
    match s.worker w with
    | .published n => some { s.set w .releasing with pending := s.pending + n }
    | _ => none
  | .release w =>
    match s.worker w with
    | .releasing => if s.locked then none else some { s.set w .waiting with activeWorkers := s.activeWorkers - 1 }
    | _ => none

/-- `Join` has returned. -/
def joined (cfg : ComparePipelineConfig) (s : State) : Prop := ∀ w < cfg.count, s.worker w matches .gone

instance (cfg : ComparePipelineConfig) (s : State) : Decidable (s.joined cfg) :=
  inferInstanceAs (Decidable (∀ w < cfg.count, (s.worker w matches .gone) = true))

end State

def machine (cfg : ComparePipelineConfig) : Runs.Machine State Event where
  init := {}
  can s e := (s.step cfg e).isSome
  next s e := (s.step cfg e).getD s

instance (cfg : ComparePipelineConfig) (s : State) (e : Event) : Decidable ((machine cfg).can s e) :=
  inferInstanceAs (Decidable ((s.step cfg e).isSome = true))

/-! ### Where the entries are -/

/-- The entries of a thread's batch, compared or not. -/
def Worker.held : Worker → Multiset Task
  | .busy batch resultBatch => (batch : Multiset Task) + (resultBatch.map ComparedItem.task : List Task)
  | _ => 0

/-- The thread has a slot. -/
def Worker.active : Worker → ℕ
  | .busy _ _ | .published _ | .releasing => 1
  | _ => 0

/-- The entries that are not drained: in the buffer, in the queue, with a thread, or among the results. -/
def State.undrained (cfg : ComparePipelineConfig) (s : State) : Multiset Task :=
  (s.dispatchBuffer : Multiset Task) + (s.tasks : Multiset Task) +
    Worklist.total cfg.count (fun w => (s.worker w).held) + (s.results.map ComparedItem.task : List Task)

end FastClone.ComparePipeline
