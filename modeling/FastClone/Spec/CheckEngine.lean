import FastClone.Lib.Table
import FastClone.Spec.ComparePipeline
import Mathlib.Data.List.Sort

/-!
# The check engine of FastCheck (`check_engine.cpp`)

One thread receives frames, and it alone decides. The compare pipeline probes the files of the manifest; a file
that needs a hash goes through `hashQueue` to a `HashRequest`, and its local hash to a pool of threads of its
own. A file is recorded when its local hash and its `HashResponse` are both there, whichever comes first.

A step is what the main thread does between two points where it meets others: a lock, a queue that others
fill, or the channel. The gate on the local backlog and the two AIMD controllers read counters that others
change meanwhile: what they read is part of the event. So is what the channel delivers.
-/

namespace FastClone.CheckEngine

open FastClone.Delta FastClone.Wire FastClone.Compare
open FastClone.ComparePipeline (ComparePipelineConfig ComparedItem)

structure FilterSet where
  diff : Bool := true
  missing : Bool := true
  extra : Bool := true
  same : Bool := false

/-- The options, and `hardware_concurrency` of the host. -/
structure CheckOptions where
  mode : CompareMode := .fast
  checkers : ℕ := 32
  hashWorkers : ℕ := 0
  summaryOnly : Bool := false
  filter : FilterSet := {}
  hardwareConcurrency : ℕ := 1

inductive ExitCode where
  | identical
  | diffFound
  | connFailed
  | localPrecondFailed
  | interrupted
  deriving DecidableEq, Repr

namespace CheckOptions

def hardwareThreads (o : CheckOptions) : ℕ := max 1 o.hardwareConcurrency

def compareCfg (o : CheckOptions) : ComparePipelineConfig := ⟨o.mode, max 4 o.hardwareThreads, 32⟩

def compareInFlightCap (o : CheckOptions) : ℕ := max 8192 (o.compareCfg.workerCount * 256)

/-- `ResolveMaxHashWorkers`. -/
def maxWorkers (o : CheckOptions) : ℕ :=
  if o.hashWorkers = 0 then o.hardwareThreads else max o.hashWorkers (4 * o.hardwareThreads)

def initialWorkers (o : CheckOptions) : ℕ := if o.hashWorkers = 0 then o.hardwareThreads else o.hashWorkers

end CheckOptions

/-- `NextLocalWorkerCap`. -/
def nextLocalWorkerCap (currentCap maxCap taskQueueLen localInFlight readFailDelta : ℕ) : ℕ :=
  if readFailDelta > 0 then max 1 (currentCap / 2)
  else if taskQueueLen > 0 ∧ localInFlight ≥ currentCap ∧ currentCap < maxCap then currentCap + 1
  else currentCap

def kRecvBatch : ℕ := 4096

structure HashNeed where
  remote : FileEntry
  localFile : Option FileEntry

structure HashTask where
  rel : Bytes
  knownSize : Option UInt64

inductive LocalResult where
  | hashed (hash : Hash)
  | failed
  deriving DecidableEq

/-- A thread of the hash pool: at `hashTaskCv`, with a task, with its result stored and not announced, or at
its end. -/
inductive HashWorker where
  | waiting
  | hashing (task : HashTask)
  | stored (rel : Bytes)
  | gone

structure CompareCounters where
  enumerated : ℕ := 0
  same : ℕ := 0
  diff : ℕ := 0
  missing : ℕ := 0
  extraLocal : ℕ := 0

structure DiffEntry where
  type : CompareCategory
  path : Bytes
  localSize : Option UInt64
  remoteSize : Option UInt64
  hashCompared : Bool

/-- The arguments of a call of `record`. -/
structure Record where
  category : CompareCategory
  remote : FileEntry
  localFile : Option FileEntry
  hashCompared : Bool

/-- What arrives; the last are the frames a check session does not expect. -/
inductive Frame where
  | manifestEntry (remote : FileEntry)
  | manifestProgress
  | manifestEnd
  | hashResponse (rel : Bytes) (hash : Hash)
  | unexpected

/-- Where the main thread stands. `drainReady` has the paths that are left of its swap; it comes once more
(`last`) after the threads are joined. `recv` is the blocking call, `more` the condition in front of it. -/
inductive Pc where
  | loop
  | drainCompare
  | swapReady (last : Bool)
  | drainReady (last : Bool) (done : List Bytes)
  | refill
  | flush
  | pump (next : Pc)
  | tune
  | more (batched : ℕ)
  | recv (batched : ℕ)
  | wait
  | stop
  | join
  | joinWorkers
  | outcome
  | finished
  deriving DecidableEq

/-- The loop is over. -/
def Pc.ending : Pc → Bool
  | .stop | .join | .joinWorkers | .swapReady true | .drainReady true _ | .outcome | .finished => true
  | _ => false

structure State where
  pipe : ComparePipeline.State := {}
  pc : Pc := .loop
  manifestDone : Bool := false
  userInterrupted : Bool := false
  disconnected : Bool := false
  localReadFailed : Bool := false
  delayedCompareEntries : List FileEntry := []
  hashQueue : List HashNeed := []
  awaiting : AList fun _ : Bytes => HashNeed := ∅
  inFlight : ℕ := 0
  hashWindow : ℕ
  hashTaskQueue : List HashTask := []
  hashStop : Bool := false
  hashWorkerCap : ℕ
  hashWorker : ℕ → HashWorker := fun _ => .waiting
  localResults : AList fun _ : Bytes => LocalResult := ∅
  readyQueue : List Bytes := []
  serverHashReady : AList fun _ : Bytes => Hash := ∅
  counters : CompareCounters := {}
  entries : List DiffEntry := []
  partialRun : Bool := false
  exit : Option ExitCode := none
  /-- The files received, the calls of `record`, and what went with a request that could not be sent. -/
  manifest : List FileEntry := []
  recorded : List Record := []
  lost : List HashNeed := []
  /-- The requests sent, those without an answer, the answers, and the results of the hash pool. -/
  requested : List Bytes := []
  unanswered : List Bytes := []
  answers : List (Bytes × Hash) := []
  localHashes : List (Bytes × LocalResult) := []

def State.start (o : CheckOptions) : State where
  hashWindow := o.checkers
  hashWorkerCap := o.initialWorkers

inductive Event where
  | loop (interrupted : Bool)
  | drainCompare
  | swapReady
  | drainReady
  | refill
  | flush
  /-- One turn of `pump`; `room` is what it reads about the local backlog. -/
  | pump (room : Bool)
  | sendFails
  /-- `maybeTuneLocal`, with what it reads, when its time has come. -/
  | tune (sample : Option (ℕ × ℕ × ℕ))
  | more
  /-- A frame, and the window that `NextNetWindow` gives where it is called. -/
  | frame (f : Frame) (window : ℕ)
  | recvFails
  | waited
  | stop
  | join
  | joinWorkers
  /-- The end, with the local files that are extra and what a probe says about each. -/
  | outcome (extras : List (Bytes × Option FileEntry))
  /-- A thread of the compare pipeline. -/
  | pipe (e : ComparePipeline.Event)
  | hashTake (w : ℕ)
  | hashStore (w : ℕ) (r : LocalResult)
  | hashReady (w : ℕ)
  | hashLeave (w : ℕ)

/-- The events of the pipeline that are its threads'. -/
def isWorker : ComparePipeline.Event → Bool
  | .wake _ | .gate _ | .probe _ _ | .publish _ | .count _ | .release _ => true
  | _ => false

namespace State

def setWorker (s : State) (w : ℕ) (x : HashWorker) : State := { s with hashWorker := Function.update s.hashWorker w x }

def keep (o : CheckOptions) : CompareCategory → Bool
  | .diff => o.filter.diff
  | .missing => o.filter.missing
  | .extra => o.filter.extra
  | .same => o.filter.same

def count (c : CompareCounters) : CompareCategory → CompareCounters
  | .same => { c with same := c.same + 1 }
  | .diff => { c with diff := c.diff + 1 }
  | .missing => { c with missing := c.missing + 1 }
  | .extra => { c with extraLocal := c.extraLocal + 1 }

/-- What `record` puts into the report. -/
def entryOf (r : Record) : DiffEntry where
  type := r.category
  path := r.remote.relativePath
  localSize := r.localFile.map FileEntry.fileSize
  remoteSize := if r.category ≠ .extra then some r.remote.fileSize else none
  hashCompared := r.hashCompared

def record (o : CheckOptions) (s : State) (r : Record) : State :=
  { s with
    counters := count s.counters r.category
    entries := if !o.summaryOnly && keep o r.category then s.entries ++ [entryOf r] else s.entries
    recorded := s.recorded ++ [r] }

/-- `finalizePaired`, at an entry of `awaiting`. -/
def finalizePaired (o : CheckOptions) (s : State) (rel : Bytes) (need : HashNeed) (lr : LocalResult)
    (serverHash : Hash) : State :=
  match lr with
  | .hashed hash =>
    { s.record o ⟨classifyByHash true hash serverHash, need.remote, need.localFile, true⟩ with
      awaiting := s.awaiting.erase rel
      serverHashReady := s.serverHashReady.erase rel }
  | .failed => { s with localReadFailed := true }

def sendHashRequest (s : State) (need : HashNeed) : State :=
  let rel := need.remote.relativePath
  { s with
    awaiting := if (s.awaiting.lookup rel).isSome then s.awaiting else s.awaiting.insert rel need
    hashTaskQueue := s.hashTaskQueue ++ [⟨rel, need.localFile.map FileEntry.fileSize⟩]
    inFlight := s.inFlight + 1
    requested := s.requested ++ [rel]
    unanswered := s.unanswered ++ [rel] }

/-- One turn of `pump`. -/
def pump (s : State) (room : Bool) (next : Pc) : State :=
  match s.hashQueue with
  | need :: hashQueue =>
    if s.inFlight < s.hashWindow ∧ room = true then { s.sendHashRequest need with hashQueue := hashQueue }
    else { s with pc := next }
  | [] => { s with pc := next }

/-- The results of the pipeline in the order `drainCompare` routes them; both sorts are stable. -/
def hashFirst (items : List ComparedItem) : List ComparedItem :=
  (items.filter fun i => i.outcome.needHash).insertionSort
    (fun a b => a.remote.relativePath ≤ b.remote.relativePath) ++ items.filter fun i => !i.outcome.needHash

def route (o : CheckOptions) (s : State) (item : ComparedItem) : State :=
  if item.outcome.needHash then { s with hashQueue := s.hashQueue ++ [⟨item.remote, item.localFile⟩] }
  else s.record o ⟨item.outcome.category, item.remote, item.localFile, false⟩

/-- `drainCompare` up to its `pump`. -/
def drainCompare (o : CheckOptions) (s : State) : State :=
  let items := s.pipe.results
  let s := (hashFirst items).foldl (route o) { s with pipe := s.pipe.drain }
  { s with pc := if items = [] then .swapReady false else .pump (.swapReady false) }

/-- Where the main thread goes behind `drainReady`. -/
def afterReady (s : State) (last : Bool) : Pc :=
  if last then .outcome else if s.localReadFailed then .stop else .refill

/-- One turn of the loop of `drainReady`. -/
def drainReady (o : CheckOptions) (s : State) (last : Bool) (done : List Bytes) : State :=
  match done with
  | [] => { s with pc := s.afterReady last }
  | rel :: done =>
    match s.awaiting.lookup rel, s.serverHashReady.lookup rel, s.localResults.lookup rel with
    | some need, some serverHash, some lr =>
      let s := s.finalizePaired o rel need lr serverHash
      { s with pc := if s.localReadFailed then s.afterReady last else .drainReady last done }
    | _, _, _ => { s with pc := .drainReady last done }

/-- One turn of the loop that refills the pipeline. -/
def refill (o : CheckOptions) (s : State) : State :=
  match s.delayedCompareEntries with
  | remote :: delayed =>
    if s.pipe.inFlight < o.compareInFlightCap then
      { s with
        pipe := s.pipe.enqueue remote
        delayedCompareEntries := delayed }
    else { s with pc := .flush }
  | [] => { s with pc := .flush }

/-- `expectFrame`, and `stillWant` in front of each `recv`. -/
def stillWant (o : CheckOptions) (s : State) : Bool :=
  (!s.manifestDone && decide (s.pipe.inFlight < o.compareInFlightCap)) || decide (s.inFlight > 0)

def tune (o : CheckOptions) (s : State) (sample : Option (ℕ × ℕ × ℕ)) : State :=
  { s with
    hashWorkerCap := match sample with
      | none => s.hashWorkerCap
      | some (queued, localInFlight, delta) =>
        nextLocalWorkerCap s.hashWorkerCap o.maxWorkers queued localInFlight delta
    pc := if s.stillWant o then .more 0 else .wait }

def more (o : CheckOptions) (s : State) (batched : ℕ) : State :=
  { s with pc := if batched < kRecvBatch ∧ s.stillWant o = true then .recv batched else .loop }

def manifestEntry (o : CheckOptions) (s : State) (remote : FileEntry) : State :=
  if remote.isDirectory then s
  else
    let s := { s with
      counters := { s.counters with enumerated := s.counters.enumerated + 1 }
      manifest := s.manifest ++ [remote] }
    if s.pipe.inFlight ≥ o.compareInFlightCap then
      { s with delayedCompareEntries := s.delayedCompareEntries ++ [remote] }
    else { s with pipe := s.pipe.enqueue remote }

/-- `handleHashResponse` up to its `pump`, in turn `batched` of the loop. -/
def handleHashResponse (o : CheckOptions) (s : State) (rel : Bytes) (hash : Hash) (window batched : ℕ) : State :=
  let s := { s with
    unanswered := s.unanswered.erase rel
    answers := s.answers ++ [(rel, hash)] }
  match s.awaiting.lookup rel with
  | none => { s with pc := .more (batched + 1) }
  | some need =>
    let s := { s with
      inFlight := s.inFlight - 1
      hashWindow := window }
    match s.localResults.lookup rel with
    | some lr =>
      let s := s.finalizePaired o rel need lr hash
      { s with pc := if s.localReadFailed then .loop else .pump (.more (batched + 1)) }
    | none => { s with
        serverHashReady := s.serverHashReady.insert rel hash
        pc := .pump (.more (batched + 1)) }

def frame (o : CheckOptions) (s : State) (f : Frame) (window batched : ℕ) : State :=
  match f with
  | .manifestEntry remote => { s.manifestEntry o remote with pc := .more (batched + 1) }
  | .manifestEnd => { s with manifestDone := true, pc := .loop }
  | .hashResponse rel hash => s.handleHashResponse o rel hash window batched
  | .manifestProgress | .unexpected => { s with pc := .more (batched + 1) }

/-- The condition of the main loop. -/
def goesOn (s : State) : Bool :=
  !s.manifestDone || decide (s.pipe.inFlight > 0) || !s.delayedCompareEntries.isEmpty || !s.hashQueue.isEmpty ||
    decide (s.inFlight > 0) || !s.awaiting.entries.isEmpty

def loop (s : State) (interrupted : Bool) : State :=
  if s.goesOn then
    if interrupted then { s with userInterrupted := true, pc := .stop } else { s with pc := .drainCompare }
  else { s with pc := .stop }

def extraRecord (e : Bytes × Option FileEntry) : Record := ⟨.extra, ⟨e.1, false, 0, 0⟩, e.2, false⟩

def outcome (o : CheckOptions) (s : State) (extras : List (Bytes × Option FileEntry)) : State :=
  let s := { s with pc := .finished }
  if s.userInterrupted then { s with partialRun := true, exit := some .interrupted }
  else if s.disconnected then { s with partialRun := true, exit := some .connFailed }
  else if s.localReadFailed then { s with partialRun := true, exit := some .localPrecondFailed }
  else
    let s := (extras.map extraRecord).foldl (record o) s
    { s with
      exit := some <|
        if s.counters.diff = 0 ∧ s.counters.missing = 0 ∧ s.counters.extraLocal = 0 then .identical else .diffFound }

/-- Every thread of the hash pool has left. -/
def workersJoined (o : CheckOptions) (s : State) : Prop := ∀ w < o.maxWorkers, s.hashWorker w matches .gone

instance (o : CheckOptions) (s : State) : Decidable (s.workersJoined o) :=
  inferInstanceAs (Decidable (∀ w < o.maxWorkers, (s.hashWorker w matches .gone) = true))

def step (o : CheckOptions) (s : State) : Event → Option State
  | .loop interrupted => if s.pc = .loop then some (s.loop interrupted) else none
  | .drainCompare => if s.pc = .drainCompare then some (s.drainCompare o) else none
  | .swapReady =>
    match s.pc with
    | .swapReady last => some { s with pc := .drainReady last s.readyQueue, readyQueue := [] }
    | _ => none
  | .drainReady =>
    match s.pc with
    | .drainReady last done => some (s.drainReady o last done)
    | _ => none
  | .refill => if s.pc = .refill then some (s.refill o) else none
  | .flush =>
    if s.pc = .flush then (s.pipe.step o.compareCfg .flush).map fun p => { s with pipe := p, pc := .pump .tune }
    else none
  | .pump room =>
    match s.pc with
    | .pump next => some (s.pump room next)
    | _ => none
  | .sendFails =>
    match s.pc, s.hashQueue with
    | .pump _, need :: hashQueue =>
      if s.inFlight < s.hashWindow then
        some { s with hashQueue := hashQueue, lost := need :: s.lost, disconnected := true, pc := .stop }
      else none
    | _, _ => none
  | .tune sample => if s.pc = .tune then some (s.tune o sample) else none
  | .more =>
    match s.pc with
    | .more batched => some (s.more o batched)
    | _ => none
  | .frame f window =>
    match s.pc with
    | .recv batched => some (s.frame o f window batched)
    | _ => none
  | .recvFails =>
    match s.pc with
    | .recv _ => some { s with disconnected := true, pc := .stop }
    | _ => none
  | .waited => if s.pc = .wait then some { s with pc := .loop } else none
  | .stop => if s.pc = .stop then some { s with pipe := { s.pipe with stop := true }, pc := .join } else none
  | .join => if s.pc = .join ∧ s.pipe.joined o.compareCfg then some { s with hashStop := true, pc := .joinWorkers } else none
  | .joinWorkers =>
    if s.pc = .joinWorkers ∧ s.workersJoined o then
      some { s with pc := if s.localReadFailed then .outcome else .swapReady true }
    else none
  | .outcome extras => if s.pc = .outcome then some (s.outcome o extras) else none
  | .pipe e => if isWorker e then (s.pipe.step o.compareCfg e).map fun p => { s with pipe := p } else none
  | .hashTake w =>
    match s.hashWorker w, s.hashTaskQueue with
    | .waiting, task :: tasks =>
      if w < o.maxWorkers ∧ w < s.hashWorkerCap then some { s.setWorker w (.hashing task) with hashTaskQueue := tasks }
      else none
    | _, _ => none
  | .hashStore w r =>
    match s.hashWorker w with
    | .hashing task =>
      some { s.setWorker w (.stored task.rel) with
        localResults := s.localResults.insert task.rel r
        localHashes := s.localHashes ++ [(task.rel, r)] }
    | _ => none
  | .hashReady w =>
    match s.hashWorker w with
    | .stored rel => some { s.setWorker w .waiting with readyQueue := s.readyQueue ++ [rel] }
    | _ => none
  | .hashLeave w =>
    match s.hashWorker w with
    | .waiting =>
      if w < o.maxWorkers ∧ s.hashStop = true ∧ (s.hashTaskQueue = [] ∨ s.hashWorkerCap ≤ w) then
        some (s.setWorker w .gone)
      else none
    | _ => none

end State

def machine (o : CheckOptions) : Runs.Machine State Event where
  init := .start o
  can s e := (s.step o e).isSome
  next s e := (s.step o e).getD s

instance (o : CheckOptions) (s : State) (e : Event) : Decidable ((machine o).can s e) :=
  inferInstanceAs (Decidable ((s.step o e).isSome = true))

/-! ### The peer, and what a run is to say -/

/-- Each request gets one response. -/
def Answers (s : State) : Event → Prop
  | .frame (.hashResponse rel _) _ => rel ∈ s.unanswered
  | _ => True

instance (s : State) : ∀ e, Decidable (Answers s e)
  | .frame (.hashResponse rel _) _ => inferInstanceAs (Decidable (rel ∈ s.unanswered))
  | .frame (.manifestEntry _) _ | .frame .manifestProgress _ | .frame .manifestEnd _ | .frame .unexpected _ => .isTrue trivial
  | .loop _ | .drainCompare | .swapReady | .drainReady | .refill | .flush | .pump _ | .sendFails | .tune _ | .more
  | .recvFails | .waited | .stop | .join | .joinWorkers | .outcome _ | .pipe _ | .hashTake _ | .hashStore _ _
  | .hashReady _ | .hashLeave _ => .isTrue trivial

/-- The event brings no file whose path the manifest has named. -/
def Fresh (s : State) : Event → Prop
  | .frame (.manifestEntry remote) _ =>
    remote.isDirectory = false → remote.relativePath ∉ s.manifest.map FileEntry.relativePath
  | _ => True

instance (s : State) : ∀ e, Decidable (Fresh s e)
  | .frame (.manifestEntry remote) _ =>
    inferInstanceAs (Decidable (remote.isDirectory = false → remote.relativePath ∉ s.manifest.map FileEntry.relativePath))
  | .frame (.hashResponse _ _) _ | .frame .manifestProgress _ | .frame .manifestEnd _ | .frame .unexpected _ => .isTrue trivial
  | .loop _ | .drainCompare | .swapReady | .drainReady | .refill | .flush | .pump _ | .sendFails | .tune _ | .more
  | .recvFails | .waited | .stop | .join | .joinWorkers | .outcome _ | .pipe _ | .hashTake _ | .hashStore _ _
  | .hashReady _ | .hashLeave _ => .isTrue trivial

/-- The manifest names no path twice, and each request gets one response. -/
def Conforms (s : State) (e : Event) : Prop := Fresh s e ∧ Answers s e

instance (s : State) (e : Event) : Decidable (Conforms s e) := inferInstanceAs (Decidable (_ ∧ _))

/-- The records of files of the manifest. -/
def State.verdicts (s : State) : List Record := s.recorded.filter fun r => decide (r.category ≠ .extra)

/-- The category is that of the decision about the probe, or of the two hashes where it asks for them. -/
inductive Right (s : State) (i : ComparedItem) (r : Record) : Prop where
  | decided (hneed : i.outcome.needHash = false) (hflag : r.hashCompared = false)
      (hcategory : r.category = i.outcome.category)
  | hashed {localHash serverHash : Hash} (hneed : i.outcome.needHash = true) (hflag : r.hashCompared = true)
      (hlocal : (r.remote.relativePath, LocalResult.hashed localHash) ∈ s.localHashes)
      (hserver : (r.remote.relativePath, serverHash) ∈ s.answers)
      (hcategory : r.category = classifyByHash true localHash serverHash)

end FastClone.CheckEngine
