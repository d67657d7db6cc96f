import FastClone.Lib.Intrusive
import FastClone.Lib.Runs
import Mathlib.Algebra.Ring.Nat
import Mathlib.Data.Finset.Erase
import Mathlib.Data.Finset.Insert
import Mathlib.Data.List.Perm.Subperm

/-!
# The disk driver (`DiskIoDriver`)

Callers put requests into a read and a write queue. The scheduler thread picks one at a time,
hands it to the backend, reaps what the backend has completed and files every completion under
its file; a completion is also threaded into one list over all files, in the order of arrival.
Callers drain everything or one file, cancel what has not been picked, and release a file.

One step is one critical section, so every interleaving at lock granularity is a run of
`machine`. The sections of `EnqueueCompletion` under `cmu_` and `countMu_` are separate steps:
`submit` and `releaseFile` can come between them, drains cannot. Requests and completions carry
the number of the acceptance; no decision of the driver reads it.
-/

namespace FastClone.DiskIo

inductive OpKind where
  | read
  | write
  deriving DecidableEq

inductive Prio where
  | small
  | large
  deriving DecidableEq

inductive IoStatus where
  | ok
  | eof
  | cancelled
  | error
  deriving DecidableEq

structure IoRequest where
  kind : OpKind := .read
  fileId : ℕ := 0
  offset : ℕ := 0
  length : ℕ := 0
  prio : Prio := .large
  userTag : ℕ := 0
  data : List UInt8 := []
  deriving DecidableEq

structure IoCompletion where
  kind : OpKind := .read
  fileId : ℕ := 0
  offset : ℕ := 0
  requested : ℕ := 0
  transferred : ℕ := 0
  status : IoStatus := .ok
  userTag : ℕ := 0
  data : List UInt8 := []
  deriving DecidableEq

/-- The part of `IoDriverConfig` the driver reads. -/
structure IoDriverConfig where
  maxReadQueue : ℕ := 256
  maxWriteQueue : ℕ := 256
  readWeight : ℕ := 1
  writeWeight : ℕ := 1
  maxInFlight : ℕ := 64

/-- How an operation ended. -/
structure IoResult where
  status : IoStatus
  transferred : ℕ := 0
  data : List UInt8 := []
  deriving DecidableEq

/-- What a completion shares with its request. -/
structure Ident where
  kind : OpKind
  fileId : ℕ
  offset : ℕ
  requested : ℕ
  userTag : ℕ
  deriving DecidableEq

def IoRequest.ident (r : IoRequest) : Ident := ⟨r.kind, r.fileId, r.offset, r.length, r.userTag⟩

def IoCompletion.ident (c : IoCompletion) : Ident :=
  ⟨c.kind, c.fileId, c.offset, c.requested, c.userTag⟩

/-- The completion of a request, filled in field by field. -/
def IoRequest.completion (r : IoRequest) (res : IoResult) : IoCompletion where
  kind := r.kind
  fileId := r.fileId
  offset := r.offset
  requested := r.length
  transferred := res.transferred
  status := res.status
  userTag := r.userTag
  data := res.data

/-- A request and the number of its acceptance. -/
structure Op where
  serial : ℕ
  req : IoRequest
  deriving DecidableEq

/-- A completion and the number of the acceptance of its request. -/
structure Done where
  serial : ℕ
  completion : IoCompletion
  deriving DecidableEq

def Done.fileId (d : Done) : ℕ := d.completion.fileId

def Op.ticket (op : Op) : ℕ × Ident := (op.serial, op.req.ident)

def Done.ticket (d : Done) : ℕ × Ident := (d.serial, d.completion.ident)

/-- The completion of an operation. -/
def Op.complete (op : Op) (res : IoResult) : Done := ⟨op.serial, op.req.completion res⟩

/-! ### What `cmu_` guards -/

/-- The address of a `PendingCompletion`. -/
abbrev Addr := ℕ

/-- `completionsByFile_` (no entry is the empty list), the nodes, and the order list. -/
structure Completions where
  completionsByFile : ℕ → List Addr := fun _ => []
  nodes : Addr → Option Done := fun _ => none
  order : Intrusive.Chain Addr := .empty Addr

namespace Completions

/-- The first lines of `EnqueueCompletion`: a new node at the end of its file, linked last. -/
def push (c : Completions) (addr : Addr) (d : Done) : Completions where
  completionsByFile :=
    Function.update c.completionsByFile d.fileId (c.completionsByFile d.fileId ++ [addr])
  nodes := Function.update c.nodes addr (some d)
  order := c.order.link addr

/-- `out.push_back(front().completion); pop_front()` on the list of a file. -/
def popFront (c : Completions) (fileId : ℕ) : Completions × List Done :=
  match c.completionsByFile fileId with
  | [] => (c, [])
  | a :: rest =>
    ({ c with
        completionsByFile := Function.update c.completionsByFile fileId rest
        nodes := Function.update c.nodes a none },
      (c.nodes a).toList)

/-- The loop of `drainCompletions`. -/
def drainLoop : ℕ → Completions → Completions × List Done
  | 0, c => (c, [])
  | n + 1, c =>
    match c.order.head with
    | none => (c, [])
    | some pc =>
      let c := { c with order := c.order.unlink pc }
      match c.nodes pc with
      | none => drainLoop n c
      | some d =>
        let r := c.popFront d.fileId
        let r' := drainLoop n r.1
        (r'.1, r.2 ++ r'.2)

/-- `drainCompletions`; each turn of its loop unlinks one node. -/
def drainCompletions (c : Completions) : Completions × List Done := drainLoop c.order.count c

/-- The loop of `drainCompletionsForFile`. -/
def drainFileLoop (fileId : ℕ) : ℕ → Completions → Completions × List Done
  | 0, c => (c, [])
  | n + 1, c =>
    match c.completionsByFile fileId with
    | [] => (c, [])
    | pc :: _ =>
      let r := { c with order := c.order.unlink pc }.popFront fileId
      let r' := drainFileLoop fileId n r.1
      (r'.1, r.2 ++ r'.2)

/-- `drainCompletionsForFile`; each turn of its loop pops one node. -/
def drainCompletionsForFile (c : Completions) (fileId : ℕ) : Completions × List Done :=
  drainFileLoop fileId (c.completionsByFile fileId).length c

/-- `ReleaseFileLocked`: what is left of it, and what is dropped. -/
def releaseFileLocked (c : Completions) (fileId : ℕ) : Completions × List Done :=
  let pcs := c.completionsByFile fileId
  ({ order := pcs.foldl Intrusive.Chain.unlink c.order
     completionsByFile := Function.update c.completionsByFile fileId []
     nodes := fun a => if a ∈ pcs then none else c.nodes a },
    pcs.filterMap c.nodes)

end Completions

/-! ### The driver -/

/-- Where the scheduler thread stands: at the top of its loop, with an operation that is not
yet submitted, or delivering completions before it frees the slots of the operations. -/
inductive Scheduler where
  | top
  | picked (op : Op)
  | delivering (todo : List Done) (slots : ℕ)

namespace Scheduler

def atTop : Scheduler → Bool
  | .top => true
  | _ => false

def hasPicked : Scheduler → Bool
  | .picked _ => true
  | _ => false

/-- All completions are delivered, and the slots not yet freed. -/
def hasDelivered : Scheduler → Bool
  | .delivering [] _ => true
  | _ => false

end Scheduler

/-- The threads that call `EnqueueCompletion`. -/
inductive Caller where
  | scheduler
  | canceller
  deriving DecidableEq

/-- A call of `EnqueueCompletion` that holds `cmu_`: before or after its section under
`countMu_`. -/
inductive Enqueue where
  | pushed (who : Caller) (fileId : ℕ)
  | settled (who : Caller) (fileId : ℕ) (doRelease : Bool)
  deriving DecidableEq

def Enqueue.who : Enqueue → Caller
  | .pushed who _ => who
  | .settled who _ _ => who

def Enqueue.isPushed : Enqueue → Bool
  | .pushed _ _ => true
  | .settled _ _ _ => false

structure Driver where
  readQ : List Op := []
  writeQ : List Op := []
  readCredit : ℕ
  writeCredit : ℕ
  cancelled : Bool := false
  inFlight : ℕ := 0
  scheduler : Scheduler := .top
  /-- Accepted by the backend and not reaped. -/
  backend : List Op := []
  /-- What `requestCancel` has taken and not delivered. -/
  flush : List Done := []
  done : Completions := {}
  /-- The holder of `cmu_`. -/
  enqueuing : Option Enqueue := none
  /-- No entry is 0. -/
  fileOutstanding : ℕ → ℕ := fun _ => 0
  pendingRelease : Finset ℕ := ∅
  /-- Calls of `releaseFile` between their two sections. -/
  releasing : List ℕ := []
  /-- Everything accepted, in order. -/
  accepted : List Op := []
  /-- Everything enqueued, in order. -/
  enqueued : List Done := []
  /-- Everything the drains have returned. -/
  delivered : List Done := []
  /-- Everything dropped, with the file whose release dropped it. -/
  discarded : List (ℕ × Done) := []
  /-- The files of the calls of `releaseFile`. -/
  released : List ℕ := []

/-- A weight of 0 counts as 1. -/
def credit (weight : ℕ) : ℕ := if weight = 0 then 1 else weight

/-- The constructor. -/
def Driver.init (cfg : IoDriverConfig) : Driver where
  readCredit := credit cfg.readWeight
  writeCredit := credit cfg.writeWeight

/-- The first small operation, and the rest. -/
def popSmall : List Op → Option (Op × List Op)
  | [] => none
  | op :: q =>
    if op.req.prio = .small then some (op, q) else (popSmall q).map fun r => (r.1, op :: r.2)

/-- `PopPreferSmall`. -/
def popPreferSmall (q : List Op) : Option (Op × List Op) :=
  match popSmall q with
  | some r => some r
  | none =>
    match q with
    | [] => none
    | op :: rest => some (op, rest)

namespace Driver

/-- A request joins a queue; the deltas of a batch are merged before `qmu_` is released. -/
def accept (s : Driver) (req : IoRequest) : Driver :=
  let op : Op := ⟨s.accepted.length, req⟩
  let s := { s with
    accepted := s.accepted ++ [op]
    fileOutstanding := Function.update s.fileOutstanding req.fileId (s.fileOutstanding req.fileId + 1) }
  match req.kind with
  | .read => { s with readQ := s.readQ ++ [op] }
  | .write => { s with writeQ := s.writeQ ++ [op] }

/-- The queue of this kind of request is full. -/
def full (cfg : IoDriverConfig) (s : Driver) (req : IoRequest) : Bool :=
  match req.kind with
  | .read => decide (cfg.maxReadQueue ≤ s.readQ.length)
  | .write => decide (cfg.maxWriteQueue ≤ s.writeQ.length)

/-- The loop of `submit`, up to the first request whose queue is full. -/
def acceptAll (cfg : IoDriverConfig) (s : Driver) : List IoRequest → Driver
  | [] => s
  | req :: rest => if s.full cfg req then s else acceptAll cfg (s.accept req) rest

/-- `submit`. -/
def submit (cfg : IoDriverConfig) (s : Driver) (batch : List IoRequest) : Driver :=
  if s.cancelled then s else s.acceptAll cfg batch

/-- Both credits are renewed when both queues wait and neither has credit. -/
def renewCredit (cfg : IoDriverConfig) (s : Driver) : Driver :=
  if s.readQ ≠ [] ∧ s.writeQ ≠ [] ∧ s.readCredit = 0 ∧ s.writeCredit = 0 then
    { s with
      readCredit := credit cfg.readWeight
      writeCredit := credit cfg.writeWeight }
  else s

/-- The direction of the next operation. -/
def isRead (s : Driver) : Bool :=
  if s.readQ ≠ [] ∧ s.writeQ ≠ [] then decide (0 < s.readCredit) else decide (s.readQ ≠ [])

/-- The section of `PickAndSubmit` under `qmu_`; `none` where it returns false. -/
def pick (cfg : IoDriverConfig) (s : Driver) : Option Driver :=
  if s.cancelled ∨ cfg.maxInFlight ≤ s.inFlight then none
  else
    let s := s.renewCredit cfg
    if s.isRead then
      (popPreferSmall s.readQ).map fun r =>
        { s with
          readQ := r.2
          readCredit := s.readCredit - 1
          inFlight := s.inFlight + 1
          scheduler := .picked r.1 }
    else
      (popPreferSmall s.writeQ).map fun r =>
        { s with
          writeQ := r.2
          writeCredit := s.writeCredit - 1
          inFlight := s.inFlight + 1
          scheduler := .picked r.1 }

/-- `backend_->submit`; a hard failure leaves an error completion to deliver. -/
def backendSubmit (s : Driver) (ok : Bool) : Driver :=
  match s.scheduler with
  | .picked op =>
    if ok then { s with backend := s.backend ++ [op], scheduler := .top }
    else { s with scheduler := .delivering [op.complete ⟨.error, 0, []⟩] 1 }
  | _ => s

/-- `backend_->reap`: these operations, in this order, with these results. -/
def reap (s : Driver) (ops : List Op) (result : Op → IoResult) : Driver :=
  { s with
    backend := s.backend.diff ops
    scheduler := .delivering (ops.map fun op => op.complete (result op)) ops.length }

/-- The scheduler frees the slots. -/
def finish (s : Driver) : Driver :=
  match s.scheduler with
  | .delivering [] slots => { s with inFlight := s.inFlight - slots, scheduler := .top }
  | _ => s

/-- What a thread has to deliver next. -/
def nextDone (s : Driver) : Caller → Option Done
  | .canceller => s.flush.head?
  | .scheduler =>
    match s.scheduler with
    | .delivering todo _ => todo.head?
    | _ => none

/-- A thread takes the completion it delivers off its list. -/
def takeDone (s : Driver) : Caller → Driver
  | .canceller => { s with flush := s.flush.tail }
  | .scheduler =>
    match s.scheduler with
    | .delivering todo slots => { s with scheduler := .delivering todo.tail slots }
    | _ => s

/-- `EnqueueCompletion` takes `cmu_` and files the completion in a new node. -/
def enqueuePush (s : Driver) (who : Caller) (addr : Addr) : Driver :=
  match s.nextDone who with
  | none => s
  | some d =>
    let s := s.takeDone who
    { s with
      done := s.done.push addr d
      enqueued := s.enqueued ++ [d]
      enqueuing := some (.pushed who d.fileId) }

/-- The section of `EnqueueCompletion` under `countMu_`. -/
def enqueueSettle (s : Driver) : Driver :=
  match s.enqueuing with
  | some (.pushed who fileId) =>
    let outstanding := s.fileOutstanding fileId - 1
    let s := { s with fileOutstanding := Function.update s.fileOutstanding fileId outstanding }
    if outstanding = 0 then
      { s with
        pendingRelease := s.pendingRelease.erase fileId
        enqueuing := some (.settled who fileId (decide (fileId ∈ s.pendingRelease))) }
    else { s with enqueuing := some (.settled who fileId false) }
  | _ => s

/-- `ReleaseFileLocked`. -/
def releaseFileLocked (s : Driver) (fileId : ℕ) : Driver :=
  let r := s.done.releaseFileLocked fileId
  { s with
    done := r.1
    discarded := s.discarded ++ r.2.map fun d => (fileId, d) }

/-- `EnqueueCompletion` returns and lets `cmu_` go. -/
def enqueueEnd (s : Driver) : Driver :=
  match s.enqueuing with
  | some (.settled _ fileId doRelease) =>
    let s := if doRelease then s.releaseFileLocked fileId else s
    { s with enqueuing := none }
  | _ => s

/-- `drainCompletions`. -/
def drainCompletions (s : Driver) : Driver :=
  let r := s.done.drainCompletions
  { s with done := r.1, delivered := s.delivered ++ r.2 }

/-- `drainCompletionsForFile`. -/
def drainCompletionsForFile (s : Driver) (fileId : ℕ) : Driver :=
  let r := s.done.drainCompletionsForFile fileId
  { s with done := r.1, delivered := s.delivered ++ r.2 }

/-- The section of `requestCancel` under `qmu_`. -/
def requestCancel (s : Driver) : Driver :=
  if s.cancelled then s
  else { s with
    cancelled := true
    readQ := []
    writeQ := []
    flush := (s.readQ ++ s.writeQ).map fun op => op.complete ⟨.cancelled, 0, []⟩ }

/-- The section of `releaseFile` under `countMu_`. -/
def releaseFile (s : Driver) (fileId : ℕ) : Driver :=
  let s := { s with released := s.released ++ [fileId] }
  if s.fileOutstanding fileId = 0 then { s with releasing := s.releasing ++ [fileId] }
  else { s with pendingRelease := insert fileId s.pendingRelease }

/-- The section of `releaseFile` under `cmu_`. -/
def releaseNow (s : Driver) (fileId : ℕ) : Driver :=
  { s with releasing := s.releasing.erase fileId }.releaseFileLocked fileId

end Driver

/-! ### Runs -/

inductive Event where
  | submit (batch : List IoRequest)
  | pick
  | backendSubmit (ok : Bool)
  | reap (ops : List Op) (result : Op → IoResult)
  | finish
  | enqueuePush (who : Caller) (addr : Addr)
  | enqueueSettle
  | enqueueEnd
  | drainCompletions
  | drainCompletionsForFile (fileId : ℕ)
  | requestCancel
  | releaseFile (fileId : ℕ)
  | releaseNow (fileId : ℕ)

namespace Event

/-- When a step can happen. The backend completes only what it has accepted and not completed;
a new node is not at the address of a live one; the steps under `cmu_` wait for its holder. -/
def Can (cfg : IoDriverConfig) (s : Driver) : Event → Prop
  | pick => s.scheduler.atTop ∧ (s.pick cfg).isSome
  | backendSubmit _ => s.scheduler.hasPicked
  | reap ops _ => s.scheduler.atTop ∧ ops ≠ [] ∧ ops.length ≤ 128 ∧ ops.Subperm s.backend
  | finish => s.scheduler.hasDelivered ∧ s.enqueuing.map Enqueue.who ≠ some .scheduler
  | enqueuePush who addr => s.enqueuing = none ∧ (s.nextDone who).isSome ∧ s.done.nodes addr = none
  | enqueueSettle => s.enqueuing.any Enqueue.isPushed
  | enqueueEnd => s.enqueuing.any fun q => !q.isPushed
  | drainCompletions | drainCompletionsForFile _ => s.enqueuing = none
  | releaseNow fileId => fileId ∈ s.releasing ∧ s.enqueuing = none
  | submit _ | requestCancel | releaseFile _ => True

instance (cfg : IoDriverConfig) (s : Driver) : (e : Event) → Decidable (Can cfg s e)
  | pick => inferInstanceAs (Decidable (_ ∧ _))
  | backendSubmit _ => inferInstanceAs (Decidable (_ = true))
  | reap _ _ => inferInstanceAs (Decidable (_ ∧ _ ∧ _ ∧ _))
  | finish => inferInstanceAs (Decidable (_ ∧ _))
  | enqueuePush _ _ => inferInstanceAs (Decidable (_ ∧ _ ∧ _))
  | enqueueSettle | enqueueEnd => inferInstanceAs (Decidable (_ = true))
  | drainCompletions | drainCompletionsForFile _ => inferInstanceAs (Decidable (_ = _))
  | releaseNow _ => inferInstanceAs (Decidable (_ ∧ _))
  | submit _ | requestCancel | releaseFile _ => .isTrue trivial

/-- What a step does. -/
def exec (cfg : IoDriverConfig) (s : Driver) : Event → Driver
  | submit batch => s.submit cfg batch
  | pick => (s.pick cfg).getD s
  | backendSubmit ok => s.backendSubmit ok
  | reap ops result => s.reap ops result
  | finish => s.finish
  | enqueuePush who addr => s.enqueuePush who addr
  | enqueueSettle => s.enqueueSettle
  | enqueueEnd => s.enqueueEnd
  | drainCompletions => s.drainCompletions
  | drainCompletionsForFile fileId => s.drainCompletionsForFile fileId
  | requestCancel => s.requestCancel
  | releaseFile fileId => s.releaseFile fileId
  | releaseNow fileId => s.releaseNow fileId

/-- The steps the driver takes by itself: the scheduler, the backend, and a call of
`requestCancel` that has the queues. -/
def internal : Event → Bool
  | pick | backendSubmit _ | reap _ _ | finish | enqueuePush _ _ | enqueueSettle
  | enqueueEnd => true
  | _ => false

end Event

def machine (cfg : IoDriverConfig) : Runs.Machine Driver Event where
  init := .init cfg
  can := Event.Can cfg
  next := Event.exec cfg

instance (cfg : IoDriverConfig) (s : Driver) (e : Event) : Decidable ((machine cfg).can s e) :=
  inferInstanceAs (Decidable (Event.Can cfg s e))

end FastClone.DiskIo
