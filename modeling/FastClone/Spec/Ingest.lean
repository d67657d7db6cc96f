import FastClone.Lib.Runs
import FastClone.Spec.Frames
import Mathlib.Data.List.AList
import Mathlib.Data.Finset.Insert
import Mathlib.Logic.Function.Basic

/-!
# How the manifest reaches the client's main thread (`sync_engine_client.cpp`)

One thread per connection receives frames. It collects manifest frames in a batch of its own
and moves the batch to a shared queue; all other frames go one by one to a second shared
queue. The main thread drains both queues a budget at a time and processes what it took in
order, until the transfer is done or every connection is lost. Behind its loop stands the
gate: only a complete manifest lets it remove local files and create directories.

Each event is what one thread does between two looks at shared data. What the rest of the
main loop decides (whether anything is left to transfer, how many comparisons are delayed,
whether a file frame is refused) is a parameter of the event.
-/

namespace FastClone.Ingest

open FastClone.Delta FastClone.Wire FastClone.Frames Runs

/-! ### Frames -/

structure IncomingFrame where
  connId : ℕ
  frame : Frame
  deriving DecidableEq, Repr

/-- `frameWireBytes`. -/
def frameWireBytes (f : Frame) : UInt64 := 9 + UInt64.ofNat f.payload.length

def isManifestFrame (f : Frame) : Bool :=
  f.type = MsgType.manifestEntry.toByte || f.type = MsgType.manifestProgress.toByte ||
    f.type = MsgType.manifestEnd.toByte

/-- The types a server sends to a client once the session is open. -/
def serverTypes : List MsgType :=
  [.manifestEntry, .manifestProgress, .manifestEnd, .hashResponse, .fileChunk, .fileEnd, .fileError,
    .fileBatchOpen, .fileBatchChunk, .fileBatchEnd, .blockSigResponse, .deltaRangeChunk,
    .deltaRangeEnd, .deltaError, .fileRangeData, .fileRangeEnd, .fileRangeError]

/-- The `switch` of the receiving thread. -/
def isServerFrame (f : Frame) : Bool := (serverTypes.map MsgType.toByte).contains f.type

theorem isServerFrame_of_manifest {f : Frame} (h : isManifestFrame f = true) :
    isServerFrame f = true := by
  simp only [isManifestFrame, Bool.or_eq_true, decide_eq_true_eq] at h
  simp only [isServerFrame, List.contains_iff_mem]
  rcases h with (h | h) | h <;> rw [h] <;> decide

/-! ### State -/

/-- Where a receiving thread is. -/
inductive Pc where
  | reading
  /-- In `flushManifestBatch`; after it, this frame is pushed. -/
  | flushing (next : Option Frame)
  | pushing (f : Frame)
  /-- Left by an exception: its batch is gone, and nobody reads from its socket. -/
  | stopped
  deriving DecidableEq, Repr

structure Lane where
  /-- History: what the server has sent on this connection. -/
  sent : List Frame
  /-- Sent and not received yet. -/
  wire : List Frame
  pc : Pc
  manifestBatch : List IncomingFrame
  manifestBatchBytes : UInt64
  healthy : Bool
  downReason : String
  deriving DecidableEq, Repr

/-- Where the main thread is. -/
inductive Main where
  /-- At the top of the loop, before `failoverScan`. -/
  | scanning
  /-- Between `failoverScan` and the drain. -/
  | working
  /-- With the frames of `readyFrames` that are still to be processed. -/
  | processing (ready : List IncomingFrame)
  /-- The drain brought nothing. -/
  | starved
  /-- Behind the loop. -/
  | left
  /-- In `RemoveLocalExtras`. -/
  | removing
  /-- Creating the empty directories. -/
  | creating
  | finished
  | aborted
  /-- The loop was left by an exception, which ends the session. -/
  | thrown
  deriving DecidableEq, Repr

structure State where
  lanes : ℕ → Lane
  incomingPriorityFrames : List IncomingFrame
  incomingManifestFrames : List IncomingFrame
  incomingQueuedBytes : UInt64
  remoteFiles : AList fun _ : Bytes => FileEntry
  remoteDirs : Finset Bytes
  manifestDone : Bool
  recvClosed : Bool
  recvError : String
  ingestPaused : Bool
  main : Main

def Lane.start : Lane where
  sent := []
  wire := []
  pc := .reading
  manifestBatch := []
  manifestBatchBytes := 0
  healthy := true
  downReason := ""

def State.start : State where
  lanes := fun _ => Lane.start
  incomingPriorityFrames := []
  incomingManifestFrames := []
  incomingQueuedBytes := 0
  remoteFiles := ∅
  remoteDirs := ∅
  manifestDone := false
  recvClosed := false
  recvError := ""
  ingestPaused := false
  main := .scanning

def State.setLane (s : State) (l : ℕ) (x : Lane) : State :=
  { s with lanes := Function.update s.lanes l x }

/-! ### The receiving threads -/

def kRecvManifestBatchFrames : ℕ := 1024

def kRecvManifestBatchBytes : UInt64 := 4 * 1024 * 1024

/-- The `catch` of the thread. -/
def Lane.fail (x : Lane) (reason : String) : Lane :=
  { x with
    pc := .stopped
    healthy := false
    downReason := reason }

/-- A manifest frame joins the batch, which is flushed when it is large or the manifest ends. -/
def Lane.collect (x : Lane) (l : ℕ) (f : Frame) : Lane :=
  let bytes := x.manifestBatchBytes + frameWireBytes f
  let batch := x.manifestBatch ++ [⟨l, f⟩]
  let forceFlush := f.type = MsgType.manifestEnd.toByte
  { x with
    manifestBatch := batch
    manifestBatchBytes := bytes
    pc := if forceFlush ∨ kRecvManifestBatchFrames ≤ batch.length ∨ kRecvManifestBatchBytes ≤ bytes then
      .flushing none else .reading }

/-- A round of the receiving loop up to its first lock. -/
def Lane.receive (x : Lane) (l : ℕ) (f : Frame) : Lane :=
  if isServerFrame f then
    if isManifestFrame f then x.collect l f else { x with pc := .flushing (some f) }
  else x.fail "client received wrong-direction/unknown frame"

/-- The thread goes on after the flush. -/
def Pc.flushed : Option Frame → Pc
  | none => .reading
  | some f => .pushing f

/-- `flushManifestBatch`. -/
def State.flush (s : State) (l : ℕ) (next : Option Frame) : State :=
  let x := s.lanes l
  if x.manifestBatch = [] then s.setLane l { x with pc := .flushed next }
  else
    { s.setLane l
        { x with
          pc := .flushed next
          manifestBatch := []
          manifestBatchBytes := 0 } with
      incomingManifestFrames := s.incomingManifestFrames ++ x.manifestBatch
      incomingQueuedBytes := s.incomingQueuedBytes + x.manifestBatchBytes }

def State.push (s : State) (l : ℕ) (f : Frame) : State :=
  { s.setLane l { s.lanes l with pc := .reading } with
    incomingPriorityFrames := s.incomingPriorityFrames ++ [⟨l, f⟩]
    incomingQueuedBytes := s.incomingQueuedBytes + frameWireBytes f }

/-! ### The main thread -/

/-- The options and the pool that the model reads. -/
structure Config where
  queuedFileSizeBytes : UInt64
  poolSize : ℕ

def Config.incomingSoftLimitBytes (cfg : Config) : UInt64 :=
  max (256 * 1024 * 1024) cfg.queuedFileSizeBytes

def State.healthyConnCount (s : State) (cfg : Config) : ℕ :=
  (List.range cfg.poolSize).countP fun l => (s.lanes l).healthy

/-- The end of `failoverScan`: all lanes are dead. -/
def State.failoverScan (s : State) (cfg : Config) : State :=
  if s.healthyConnCount cfg = 0 ∧ s.recvClosed = false then
    let reasons := (List.range cfg.poolSize).map fun l => (s.lanes l).downReason
    { s with
      recvError := (reasons.find? (· ≠ "")).getD "all connections closed"
      recvClosed := true }
  else s

/-- `markConnDown`. -/
def Lane.markConnDown (x : Lane) (reason : String) : Lane :=
  if x.healthy then
    { x with
      healthy := false
      downReason := reason }
  else x

def kDelayedHighWater : ℕ := 512 * 1024

def kDelayedLowWater : ℕ := 256 * 1024

/-- The pause of the ingest, with its two thresholds. -/
def State.updatePause (s : State) (delayedBacklog : ℕ) : Bool :=
  if s.ingestPaused then !(delayedBacklog ≤ kDelayedLowWater : Bool)
  else (kDelayedHighWater ≤ delayedBacklog : Bool)

def drainBudget (softLimit queuedBytes : UInt64) (queuedFrames : ℕ) : ℕ :=
  let byBytes :=
    if softLimit * 3 < queuedBytes then 4096
    else if softLimit * 2 < queuedBytes then 3072
    else if softLimit < queuedBytes then 2048
    else if softLimit / 2 < queuedBytes then 1024
    else 512
  let byFrames :=
    if 50000 < queuedFrames then 8192
    else if 8000 < queuedFrames then 4096
    else if 2000 < queuedFrames then 2048
    else 512
  max byBytes byFrames

/-- The bytes of the frames taken leave the count, which stops at 0. -/
def releaseBytes (queued : UInt64) (taken : List IncomingFrame) : UInt64 :=
  taken.foldl (fun q rf => if frameWireBytes rf.frame ≤ q then q - frameWireBytes rf.frame else 0) queued

/-- The part of an iteration under `incomingMu`. -/
def State.drain (s : State) (cfg : Config) : State :=
  let budget := drainBudget cfg.incomingSoftLimitBytes s.incomingQueuedBytes
    (s.incomingPriorityFrames.length + s.incomingManifestFrames.length)
  let prioCount := min s.incomingPriorityFrames.length (budget * 3 / 4)
  let manifestCount :=
    if s.ingestPaused then 0 else min s.incomingManifestFrames.length (budget - prioCount)
  let ready := s.incomingPriorityFrames.take prioCount ++ s.incomingManifestFrames.take manifestCount
  { s with
    incomingPriorityFrames := s.incomingPriorityFrames.drop prioCount
    incomingManifestFrames := s.incomingManifestFrames.drop manifestCount
    incomingQueuedBytes := releaseBytes s.incomingQueuedBytes ready
    main := if ready = [] then .starved else .processing ready }

/-- What becomes of an entry of the manifest. -/
def State.record (s : State) (e : FileEntry) : State :=
  if e.isDirectory then { s with remoteDirs := insert e.relativePath s.remoteDirs }
  else { s with remoteFiles := s.remoteFiles.insert e.relativePath e }

/-- `processIncomingFrame`; `none` is an exception. For a frame that is not of the manifest,
`throws` says whether its handler raises one. -/
def State.processIncomingFrame (s : State) (rf : IncomingFrame) (throws : Bool) : Option State :=
  if rf.frame.type = MsgType.manifestEntry.toByte then
    match decodeManifestEntry rf.frame.payload with
    | .ok (e, _) => some (s.record e)
    | .error _ => none
  else if rf.frame.type = MsgType.manifestProgress.toByte then
    match readU64 rf.frame.payload with
    | .ok _ => some s
    | .error _ => none
  else if rf.frame.type = MsgType.manifestEnd.toByte then some { s with manifestDone := true }
  else if throws then none
  else some s

/-- One round of the loop over `readyFrames`. -/
def State.process (s : State) (rf : IncomingFrame) (rest : List IncomingFrame) (throws : Bool) : State :=
  match s.processIncomingFrame rf throws with
  | some s' => { s' with main := if rest = [] then .scanning else .processing rest }
  | none => { s with main := .thrown }

/-- `recvDrainedAndClosed`. -/
def State.recvDrainedAndClosed (s : State) : Bool :=
  s.recvClosed && s.incomingPriorityFrames.isEmpty && s.incomingManifestFrames.isEmpty

/-- The gate behind the loop. -/
def State.manifestComplete (s : State) : Bool :=
  s.manifestDone && s.recvError = "" && !s.recvClosed

/-! ### Events -/

inductive Event where
  /-- The server puts a frame on a connection. -/
  | serverSends (l : ℕ) (f : Frame)
  | receive (l : ℕ)
  /-- `RecvFrame` throws: the connection is lost or the header is not one. -/
  | recvFails (l : ℕ) (reason : String)
  | flush (l : ℕ)
  | push (l : ℕ)
  | failoverScan
  /-- A send of the main thread fails. -/
  | sendFails (l : ℕ) (reason : String)
  /-- The manifest is done and nothing is left to do: `break`. -/
  | leave
  /-- No frame is needed: `continue`. -/
  | wait
  | drain (delayedBacklog : ℕ)
  | starve (compareWorkPending : Bool)
  | process (throws : Bool)
  /-- An exception elsewhere in the loop. -/
  | throwOut
  | gate
  | removeLocalExtras
  | createDirs
  deriving DecidableEq, Repr

def State.step (cfg : Config) (s : State) : Event → Option State
  | .serverSends l f =>
    let x := s.lanes l
    if l < cfg.poolSize then
      some (s.setLane l
        { x with
          sent := x.sent ++ [f]
          wire := x.wire ++ [f] })
    else none
  | .receive l =>
    match (s.lanes l).pc, (s.lanes l).wire with
    | .reading, f :: rest => some (s.setLane l ({ s.lanes l with wire := rest }.receive l f))
    | _, _ => none
  | .recvFails l reason =>
    match (s.lanes l).pc with
    | .reading => some (s.setLane l ((s.lanes l).fail reason))
    | _ => none
  | .flush l =>
    match (s.lanes l).pc with
    | .flushing next => some (s.flush l next)
    | _ => none
  | .push l =>
    match (s.lanes l).pc with
    | .pushing f => some (s.push l f)
    | _ => none
  | .failoverScan =>
    match s.main with
    | .scanning => some { s.failoverScan cfg with main := .working }
    | _ => none
  | .sendFails l reason =>
    match s.main with
    | .working => some (s.setLane l ((s.lanes l).markConnDown reason))
    | _ => none
  | .leave =>
    match s.main, s.manifestDone with
    | .working, true => some { s with main := .left }
    | _, _ => none
  | .wait =>
    match s.main, s.manifestDone, s.recvClosed with
    | .working, true, false => some { s with main := .scanning }
    | _, _, _ => none
  | .drain delayedBacklog =>
    match s.main with
    | .working => some ({ s with ingestPaused := s.updatePause delayedBacklog }.drain cfg)
    | _ => none
  | .starve compareWorkPending =>
    match s.main with
    | .starved =>
      if s.ingestPaused || compareWorkPending then some { s with main := .scanning }
      else if s.recvDrainedAndClosed then some { s with main := .left }
      else some { s with main := .scanning }
    | _ => none
  | .process throws =>
    match s.main with
    | .processing (rf :: rest) => some (s.process rf rest throws)
    | _ => none
  | .throwOut =>
    match s.main with
    | .scanning | .working | .starved => some { s with main := .thrown }
    | _ => none
  | .gate =>
    match s.main with
    | .left => some { s with main := if s.manifestComplete then .removing else .aborted }
    | _ => none
  | .removeLocalExtras =>
    match s.main with
    | .removing => some { s with main := .creating }
    | _ => none
  | .createDirs =>
    match s.main with
    | .creating => some { s with main := .finished }
    | _ => none

def machine (cfg : Config) : Machine State Event where
  init := State.start
  can s e := (s.step cfg e).isSome
  next s e := (s.step cfg e).getD s

instance (cfg : Config) (s : State) (e : Event) : Decidable ((machine cfg).can s e) :=
  inferInstanceAs (Decidable ((s.step cfg e).isSome = true))

/-! ### What is asked of the server, and what the client owes -/

/-- The server sends its manifest on the connection `m`, and no entry after the end. -/
def Orderly (m : ℕ) (s : State) : Event → Prop
  | .serverSends l f =>
    (f.type = MsgType.manifestEntry.toByte → l = m ∧
      ∀ g ∈ (s.lanes m).sent, g.type ≠ MsgType.manifestEnd.toByte) ∧
    (f.type = MsgType.manifestEnd.toByte → l = m)
  | _ => True

instance (m : ℕ) (s : State) : DecidablePred (Orderly m s)
  | .serverSends l f =>
    inferInstanceAs (Decidable ((f.type = MsgType.manifestEntry.toByte → l = m ∧
      ∀ g ∈ (s.lanes m).sent, g.type ≠ MsgType.manifestEnd.toByte) ∧
      (f.type = MsgType.manifestEnd.toByte → l = m)))
  | .receive _ | .recvFails _ _ | .flush _ | .push _ | .failoverScan | .sendFails _ _ | .leave
  | .wait | .drain _ | .starve _ | .process _ | .throwOut | .gate | .removeLocalExtras | .createDirs =>
    inferInstanceAs (Decidable True)

/-- The client has the path of an entry among its remote paths. -/
def State.Recorded (s : State) (e : FileEntry) : Prop :=
  if e.isDirectory then e.relativePath ∈ s.remoteDirs else e.relativePath ∈ s.remoteFiles

/-- A frame of the manifest is processed: it was an entry, and its path is recorded. -/
def State.Processed (s : State) (f : Frame) : Prop :=
  ∃ e rest, decodeManifestEntry f.payload = .ok (e, rest) ∧ s.Recorded e

end FastClone.Ingest
