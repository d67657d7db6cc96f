import FastClone.Lib.SparseFile
import FastClone.Spec.DriverAnswers
import FastClone.Spec.WriteHandles

/-!
# A download on a stream of its own (`sync_engine_client.cpp`)

The chunks of the stream are collected in a buffer and written in pieces of the driver's chunk size; a
piece that the driver does not take stays in the buffer until the next frame. `FileEnd` writes the rest,
waits for all writes, and closes the file, which sets it to the size it was opened with: the size in the
manifest.

The main thread is one loop of steps here, each of them one call of the driver with what follows it. A
stream that ends in another way (`FileError`, the loss of its lane) is not counted as transferred.
-/

namespace FastClone.StreamDownload

open FastClone.DiskIo Runs

abbrev Bytes := List UInt8

/-- What the target is opened with, and what it holds then. -/
structure Config where
  fileId : ℕ
  /-- `chunkBytes`; 0 stands for 1 MiB. -/
  chunkBytes : ℕ
  /-- The size in the manifest. -/
  expectedSize : ℕ
  target : Bytes

def Config.chunk (cfg : Config) : ℕ := if cfg.chunkBytes = 0 then 2 ^ 20 else cfg.chunkBytes

inductive Phase where
  | idle
  /-- At the head of the loop of `pumpDownloadWrites`. -/
  | pumping (flushTail : Bool)
  /-- Behind an accepted submission of the loop, before `reapDriverWrites`. -/
  | reaping (flushTail : Bool)
  /-- In the loop of a blocking submission, behind a rejection. -/
  | retrying
  /-- In `drainFileWritesToCompletion`. -/
  | draining
  /-- Behind the gate. -/
  | closing
  /-- Counted as transferred, or handed to `retryOrFail`. -/
  | finished (ok : Bool)
  deriving DecidableEq, Repr

/-- `DownloadState`, with what the driver does for it. -/
structure State where
  phase : Phase := .idle
  writeBuffer : Bytes := []
  nextWriteOffset : ℕ := 0
  submittedWrites : UInt32 := 0
  completedWrites : UInt32 := 0
  writeError : Bool := false
  /-- The payloads so far. -/
  received : Bytes := []
  /-- The accepted writes, in the order of their submission. -/
  accepted : List IoRequest := []
  outstanding : List IoRequest := []
  delivered : List (IoRequest × IoResult) := []
  disk : Bytes

def State.goto (s : State) (p : Phase) : State := { s with phase := p }

/-- An accepted submission of the first `len` bytes of the buffer. -/
def State.accept (cfg : Config) (s : State) (len : ℕ) : State :=
  let r := WriteHandles.writeRequest cfg.fileId s.nextWriteOffset (s.writeBuffer.take len)
  { s with
    submittedWrites := s.submittedWrites + 1
    nextWriteOffset := s.nextWriteOffset + len
    writeBuffer := s.writeBuffer.drop len
    accepted := s.accepted ++ [r]
    outstanding := s.outstanding ++ [r] }

/-- `pumpDownloadWrites` has something to submit: a whole piece, or the tail. -/
def State.hasPiece (cfg : Config) (s : State) (flushTail : Bool) : Bool :=
  s.writeBuffer.length ≥ cfg.chunk || (flushTail && s.writeBuffer ≠ [])

/-- A submission of `pumpDownloadWrites`; `taken` is the driver's answer. Only a flush is blocking. -/
def State.pump (cfg : Config) (s : State) (flushTail taken : Bool) : State :=
  if taken then
    if s.writeBuffer.length ≥ cfg.chunk then (s.accept cfg cfg.chunk).goto (.reaping flushTail)
    else (s.accept cfg s.writeBuffer.length).goto .draining
  else s.goto (if flushTail then .retrying else .idle)

/-- One completion that is reaped; the driver has written what it transferred. -/
def State.deliver (s : State) (d : IoRequest × IoResult) : State :=
  { s with
    completedWrites := s.completedWrites + 1
    writeError := s.writeError || WriteHandles.failed (d.1.completion d.2)
    outstanding := s.outstanding.erase d.1
    delivered := s.delivered ++ [d]
    disk := SparseFile.pwrite 0 s.disk d.1.offset (d.1.data.take d.2.transferred) }

/-- `reapDriverWrites`. -/
def State.reap (s : State) (done : List (IoRequest × IoResult)) : State := done.foldl State.deliver s

/-- `closeFile`: whether the length was set, and whether all the rest went well. -/
def State.closeFile (cfg : Config) (s : State) (truncated rest : Bool) : State :=
  { s with
    phase := .finished (!s.writeError && (truncated && rest))
    disk := if truncated then SparseFile.ftruncate 0 s.disk cfg.expectedSize else s.disk }

/-! ### Runs -/

inductive Event where
  | fileChunk (payload : Bytes)
  | fileEnd
  | submit (flushTail taken : Bool)
  /-- `pumpDownloadWrites` returns. -/
  | pumped (flushTail : Bool)
  | reap (done : List (IoRequest × IoResult))
  /-- `drainFileWritesToCompletion` returns. -/
  | drained
  | closeFile (truncated rest : Bool)

namespace Event

def Can (cfg : Config) (s : State) : Event → Prop
  | fileChunk _ | fileEnd => s.phase = .idle
  | submit flushTail _ => s.phase = .pumping flushTail ∧ s.hasPiece cfg flushTail = true
  | pumped flushTail => s.phase = .pumping flushTail ∧ s.hasPiece cfg flushTail = false
  | reap done =>
    (s.phase = .reaping false ∨ s.phase = .reaping true ∨ s.phase = .retrying ∨
      (s.phase = .draining ∧ s.completedWrites < s.submittedWrites)) ∧ Deliverable s.outstanding done
  | drained => s.phase = .draining ∧ ¬ s.completedWrites < s.submittedWrites
  | closeFile _ _ => s.phase = .closing

instance (cfg : Config) (s : State) : (e : Event) → Decidable (Can cfg s e)
  | fileChunk _ | fileEnd | closeFile _ _ => inferInstanceAs (Decidable (_ = _))
  | submit _ _ | pumped _ | reap _ | drained => inferInstanceAs (Decidable (_ ∧ _))

/-- Where the loop goes on after a reap. -/
def afterReap : Phase → Phase
  | .reaping flushTail => .pumping flushTail
  | .retrying => .pumping true
  | p => p

def exec (cfg : Config) (s : State) : Event → State
  | fileChunk payload =>
    { s with
      phase := .pumping false
      writeBuffer := s.writeBuffer ++ payload
      received := s.received ++ payload }
  | fileEnd => s.goto (.pumping true)
  | submit flushTail taken => s.pump cfg flushTail taken
  | pumped flushTail => s.goto (if flushTail then .draining else .idle)
  | reap done => (s.reap done).goto (afterReap s.phase)
  | drained => s.goto .closing
  | closeFile truncated rest => s.closeFile cfg truncated rest

end Event

def machine (cfg : Config) : Machine State Event where
  init := { disk := cfg.target }
  can := Event.Can cfg
  next := Event.exec cfg

instance (cfg : Config) (s : State) (e : Event) : Decidable ((machine cfg).can s e) :=
  inferInstanceAs (Decidable (Event.Can cfg s e))

/-- The stream gets fewer than `2 ^ 32` writes, which is what its counters count. -/
def Fits (s : State) : Event → Prop
  | .submit _ true => s.accepted.length + 1 < 2 ^ 32
  | _ => True

instance (s : State) : DecidablePred (Fits s)
  | .submit _ true => inferInstanceAs (Decidable (_ < _))
  | .submit _ false | .fileChunk _ | .fileEnd | .pumped _ | .reap _ | .drained | .closeFile _ _ => .isTrue trivial

end FastClone.StreamDownload
