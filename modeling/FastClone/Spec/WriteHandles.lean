import FastClone.Spec.DiskIo

/-!
# The client's write handles (`sync_engine_client.cpp`)

Three kinds of download write through the disk driver: a single stream to the target itself,
delta and block downloads to a temporary file, and a worker of the write pool that writes a
whole small file. Each keeps two counters beside its handle, the writes that were accepted and
those that were reaped, and closes the handle behind a gate that waits until the second has
come up to the first. One more counter, shared by all, adds up the bytes of the writes that are
accepted and not reaped.

The driver is the one of `FastClone.DiskIo`, with all its steps in between. A step of a client
thread is one call of the driver with the counters that follow it. The files the client only
reads share the driver; their requests are steps of the driver here.
-/

namespace FastClone.WriteHandles

open FastClone.DiskIo Runs

/-! ### State -/

/-- The places that wait for the writes of a handle. -/
inductive Gate where
  /-- `FileEnd`. -/
  | fileEnd
  /-- `FileError`. -/
  | fileError
  /-- `failoverScan`. -/
  | failover
  /-- `finalizeTempVerifyRename`, of a delta or a block download. -/
  | finalize
  /-- `DeltaError`. -/
  | deltaError
  /-- `FileRangeError`. -/
  | fileRangeError
  /-- `buildDeltaPlanOffloaded`, behind the copies. -/
  | plan
  deriving DecidableEq, Repr

/-- Who has a handle, and what for. -/
inductive Phase where
  | unopened
  /-- Open for reading. -/
  | reader
  /-- In `activeDownloads`. -/
  | download
  /-- With a plan worker that writes its copies. -/
  | planning
  /-- With the plan worker, behind its gate. -/
  | planned
  /-- In `deltaPlanResults`. -/
  | handedOver
  /-- In `deltaStates`. -/
  | delta
  /-- In `fileRangeStates`. -/
  | fileRange
  /-- In the loop of `driverWriteWholeFile`. -/
  | whole (data : List UInt8) (off : ℕ) (inflight : UInt32) (ok : Bool)
  /-- In `drainFileWritesToCompletion`. -/
  | draining (gate : Gate)
  /-- Behind the gate, before `closeFile`. -/
  | closing
  | closed
  deriving DecidableEq, Repr

/-- A handle with the counters its owner keeps. -/
structure Handle where
  phase : Phase
  submitted : UInt32
  completed : UInt32
  writeError : Bool
  deriving DecidableEq, Repr

structure State where
  driver : Driver
  /-- `driverWriteOutstandingBytes`. -/
  outstandingBytes : UInt64
  /-- `nextId_` of the backend. -/
  nextId : ℕ
  handles : ℕ → Handle

structure Config where
  io : IoDriverConfig
  /-- `chunkBytes`; 0 stands for 1 MiB. -/
  chunkBytes : ℕ

def Config.chunk (cfg : Config) : ℕ := if cfg.chunkBytes = 0 then 2 ^ 20 else cfg.chunkBytes

def State.start (cfg : Config) : State where
  driver := .init cfg.io
  outstandingBytes := 0
  nextId := 1
  handles := fun _ => ⟨.unopened, 0, 0, false⟩

def State.setHandle (s : State) (h : ℕ) (x : Handle) : State :=
  { s with handles := Function.update s.handles h x }

def State.goto (s : State) (h : ℕ) (p : Phase) : State := s.setHandle h { s.handles h with phase := p }

/-! ### Writing and reaping -/

def writeRequest (h offset : ℕ) (data : List UInt8) : IoRequest where
  kind := .write
  fileId := h
  offset := offset
  length := data.length
  userTag := offset
  data := data

/-- The driver took the one request of the batch. -/
def State.accepts (s : State) (cfg : Config) (h offset : ℕ) (data : List UInt8) : Bool :=
  (s.driver.submit cfg.io [writeRequest h offset data]).accepted.length == s.driver.accepted.length + 1

/-- The driver after it took the request, and its bytes counted. -/
def State.charge (s : State) (cfg : Config) (h offset : ℕ) (data : List UInt8) : State :=
  { s with
    driver := s.driver.submit cfg.io [writeRequest h offset data]
    outstandingBytes := s.outstandingBytes + UInt64.ofNat data.length }

/-- A round of `submitDriverWrite`; where the queue is full nothing happens, and the caller
reaps and tries again, or leaves. -/
def State.submitDriverWrite (s : State) (cfg : Config) (h offset : ℕ) (data : List UInt8) : State :=
  if s.accepts cfg h offset data then
    (s.charge cfg h offset data).setHandle h
      { s.handles h with submitted := (s.handles h).submitted + 1 }
  else s

def kWindow : UInt32 := 8

/-- A round of the inner loop of `driverWriteWholeFile`. -/
def State.submitWhole (s : State) (cfg : Config) (h : ℕ) (data : List UInt8) (off : ℕ) (inflight : UInt32)
    (ok : Bool) : State :=
  let len := min cfg.chunk (data.length - off)
  let piece := (data.drop off).take len
  if s.accepts cfg h off piece then
    (s.charge cfg h off piece).goto h (.whole data (off + len) (inflight + 1) ok)
  else s

/-- A completion reports an error or a short write. -/
def failed (c : IoCompletion) : Bool := c.status = .error || c.transferred != c.requested

/-- What the owner of a handle notes for a completion. -/
def Handle.account (x : Handle) (c : IoCompletion) : Handle :=
  match x.phase with
  | .whole data off inflight ok =>
    { x with phase := .whole data off (if 0 < inflight then inflight - 1 else inflight) (ok && !failed c) }
  | _ =>
    { x with
      completed := x.completed + 1
      writeError := x.writeError || failed c }

/-- `reapDriverWrites`, and the reaping in `driverWriteWholeFile`. -/
def State.reapDriverWrites (s : State) (h : ℕ) : State :=
  let comps := (s.driver.done.drainCompletionsForFile h).2.map Done.completion
  { s with
    driver := s.driver.drainCompletionsForFile h
    outstandingBytes := comps.foldl (fun n c => n - UInt64.ofNat c.requested) s.outstandingBytes
    handles := Function.update s.handles h (comps.foldl Handle.account (s.handles h)) }

/-! ### Who does what with a handle -/

namespace Phase

/-- `submitDriverWrite` may be called. -/
def writes : Phase → Bool
  | .download | .planning | .delta | .fileRange => true
  | _ => false

/-- Completions may be reaped. -/
def reaps : Phase → Bool
  | .download | .planning | .delta | .fileRange | .draining _ | .whole _ _ _ _ => true
  | _ => false

/-- The gates of a kind of handle. -/
def gates : Phase → Gate → Bool
  | .download, .fileEnd | .download, .fileError | .download, .failover => true
  | .delta, .finalize | .delta, .deltaError => true
  | .fileRange, .finalize | .fileRange, .fileRangeError => true
  | .planning, .plan => true
  | _, _ => false

/-- What comes behind a gate: the plan worker has still to decide, the others close. -/
def behind : Gate → Phase
  | .plan => .planned
  | _ => .closing

/-- A handle is opened for one of these. -/
def opens : Phase → Bool
  | .reader | .download | .planning | .fileRange => true
  | .whole _ off inflight ok => off = 0 && inflight = 0 && ok
  | _ => false

/-- `closeFile` is called: behind a gate, by `discardTemp`, by `applyDeltaPlanResult` on a plan
that has no state any more or is not good, and at the end of `driverWriteWholeFile`. -/
def closes : Phase → Bool
  | .closing | .planned | .handedOver => true
  | .whole data off inflight _ => !(off < data.length || 0 < inflight)
  | _ => false

end Phase

/-- The steps of the driver's own threads, and the client's use of files it reads. -/
def State.besides (s : State) : DiskIo.Event → Bool
  | .submit batch => batch.all fun r => r.kind = .read && (s.handles r.fileId).phase = .reader
  | .drainCompletionsForFile f | .releaseFile f | .releaseNow f => (s.handles f).phase = .reader
  | .drainCompletions => false
  | .requestCancel => true
  | e => e.internal

/-! ### Runs -/

inductive Event where
  | disk (e : DiskIo.Event)
  | openFile (p : Phase)
  | submit (h offset : ℕ) (data : List UInt8)
  | submitWhole (h : ℕ)
  | reap (h : ℕ)
  | enter (h : ℕ) (gate : Gate)
  /-- `drainFileWritesToCompletion` returns. -/
  | drained (h : ℕ)
  /-- The plan worker returns a good plan. -/
  | handOver (h : ℕ)
  /-- `applyDeltaPlanResult` gives the handle to the delta state. -/
  | adopt (h : ℕ)
  | closeFile (h : ℕ)

namespace Event

/-- When a step can happen. A drain of the driver waits for the holder of `cmu_`; a request is at
most a 32-bit length long. -/
def Can (cfg : Config) (s : State) : Event → Prop
  | disk e => s.besides e = true ∧ e.Can cfg.io s.driver
  | openFile p => p.opens = true
  | submit h _ data => (s.handles h).phase.writes = true ∧ data.length < 2 ^ 32
  | submitWhole h =>
    match (s.handles h).phase with
    | .whole data off inflight ok => ok = true ∧ off < data.length ∧ inflight < kWindow
    | _ => False
  | reap h => (s.handles h).phase.reaps = true ∧ s.driver.enqueuing = none
  | enter h gate => (s.handles h).phase.gates gate = true
  | drained h =>
    match (s.handles h).phase with
    | .draining _ => ¬ (s.handles h).completed < (s.handles h).submitted
    | _ => False
  | handOver h => (s.handles h).phase = .planned
  | adopt h => (s.handles h).phase = .handedOver
  | closeFile h => (s.handles h).phase.closes = true

instance (cfg : Config) (s : State) : (e : Event) → Decidable (Can cfg s e)
  | disk e => inferInstanceAs (Decidable (s.besides e = true ∧ e.Can cfg.io s.driver))
  | openFile _ | enter _ _ | closeFile _ => inferInstanceAs (Decidable (_ = true))
  | submit _ _ _ | reap _ => inferInstanceAs (Decidable (_ ∧ _))
  | submitWhole h =>
    match hp : (s.handles h).phase with
    | .whole data off inflight ok =>
      decidable_of_iff (ok = true ∧ off < data.length ∧ inflight < kWindow) (by simp [Can, hp])
    | .unopened | .reader | .download | .planning | .planned | .handedOver | .delta | .fileRange
    | .draining _ | .closing | .closed => .isFalse (by simp [Can, hp])
  | drained h =>
    match hp : (s.handles h).phase with
    | .draining _ =>
      decidable_of_iff (¬ (s.handles h).completed < (s.handles h).submitted) (by simp [Can, hp])
    | .unopened | .reader | .download | .planning | .planned | .handedOver | .delta | .fileRange
    | .whole _ _ _ _ | .closing | .closed => .isFalse (by simp [Can, hp])
  | handOver _ | adopt _ => inferInstanceAs (Decidable (_ = _))

def exec (cfg : Config) (s : State) : Event → State
  | disk e => { s with driver := e.exec cfg.io s.driver }
  | openFile p =>
    { s.setHandle s.nextId ⟨p, 0, 0, false⟩ with nextId := s.nextId + 1 }
  | submit h offset data => s.submitDriverWrite cfg h offset data
  | submitWhole h =>
    match (s.handles h).phase with
    | .whole data off inflight ok => s.submitWhole cfg h data off inflight ok
    | _ => s
  | reap h => s.reapDriverWrites h
  | enter h gate => s.goto h (.draining gate)
  | drained h =>
    match (s.handles h).phase with
    | .draining gate => s.goto h (.behind gate)
    | _ => s
  | handOver h => s.goto h .handedOver
  | adopt h => s.goto h .delta
  | closeFile h => s.goto h .closed

end Event

def machine (cfg : Config) : Machine State Event where
  init := .start cfg
  can := Event.Can cfg
  next := Event.exec cfg

instance (cfg : Config) (s : State) (e : Event) : Decidable ((machine cfg).can s e) :=
  inferInstanceAs (Decidable (Event.Can cfg s e))

/-! ### The discipline -/

/-- The writes accepted and not reaped. -/
def State.unreaped (s : State) : List Op :=
  s.driver.accepted.filter fun op =>
    op.req.kind = .write ∧ op.serial ∉ s.driver.delivered.map Done.serial

/-- The shared counter is the sum of the lengths of the writes accepted and not reaped, and no
such write is on a handle that has been closed. -/
structure State.Disciplined (s : State) : Prop where
  outstanding : s.outstandingBytes = UInt64.ofNat (s.unreaped.map fun op => op.req.length).sum
  closed : ∀ op ∈ s.unreaped, (s.handles op.req.fileId).phase ≠ .closed

/-- The writes accepted on a handle so far. -/
def State.writesOn (s : State) (h : ℕ) : ℕ := s.driver.accepted.countP fun op => op.req.fileId = h

/-- A handle whose owner counts its writes in 32 bits gets fewer than `2 ^ 32`. -/
def Fits (s : State) : Event → Prop
  | .submit h _ _ => s.writesOn h + 1 < 2 ^ 32
  | _ => True

instance (s : State) : DecidablePred (Fits s)
  | .submit h _ _ => inferInstanceAs (Decidable (s.writesOn h + 1 < 2 ^ 32))
  | .disk _ | .openFile _ | .submitWhole _ | .reap _ | .enter _ _ | .drained _ | .handOver _ | .adopt _
  | .closeFile _ => .isTrue trivial

end FastClone.WriteHandles
