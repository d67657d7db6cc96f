import FastClone.Spec.Batch
import Mathlib.Algebra.Ring.Nat

/-!
# Batch streams on the server (`ServerBatchStream` and the send loop)

The send loop visits each batch stream in turn. A visit sends the header if it has not
been sent, then chunks until the burst is used up, and closes the stream with
`FileBatchEnd` when no file is left, or with `FileError` when a file cannot be opened or
read. Records that are not ok and empty files take no bytes.

The disk answers by the index of the file in the batch; a file is read at increasing
offsets, so it is asked at most once for an offset.
-/

namespace FastClone.Server

open FastClone.Client

variable {P : Type}

/-- The frames of a batch stream. -/
inductive BatchFrame (P : Type) where
  | fileBatchOpen (records : List (BatchFileRecord P))
  | fileBatchChunk (payload : List UInt8)
  | fileBatchEnd
  | fileError

/-- `openFile` succeeds, and `DriverReadRangeChunk` at an index, an offset and a length
(`none` on an error). -/
structure Disk where
  opens : ℕ → Bool
  read : ℕ → ℕ → ℕ → Option (List UInt8)

/-- `ServerBatchStream`; `fileOpen` is `fileId != 0`. -/
structure ServerBatchStream (P : Type) where
  files : List (BatchFileRecord P)
  index : ℕ := 0
  headerSent : Bool := false
  fileOpen : Bool := false
  nextReadOffset : ℕ := 0
  remainingBytes : ℕ := 0

/-- What a visit is allowed: `perStreamBurstBytes` and `effectiveChunkSize`. -/
structure Visit where
  perStreamBurstBytes : ℕ
  effectiveChunkSize : ℕ

namespace ServerBatchStream

/-- The inner loop over records that are not ok. -/
def skipFailed (s : ServerBatchStream P) : ServerBatchStream P :=
  { s with index := s.index + ((s.files.drop s.index).takeWhile fun f => !f.ok).length }

/-- The current file, opened if it was not. -/
def openCurrent (disk : Disk) (s : ServerBatchStream P) (file : BatchFileRecord P) :
    ServerBatchStream P :=
  if s.fileOpen then s
  else { s with
    nextReadOffset := 0
    remainingBytes := file.fileSize
    fileOpen := disk.opens s.index }

/-- An empty file is passed. -/
def passEmpty (s : ServerBatchStream P) : ServerBatchStream P :=
  { s with
    nextReadOffset := 0
    remainingBytes := 0
    index := s.index + 1 }

/-- After `got` bytes; a file that is done is closed. -/
def advance (s : ServerBatchStream P) (got : ℕ) : ServerBatchStream P :=
  let s := { s with
    nextReadOffset := s.nextReadOffset + got
    remainingBytes := s.remainingBytes - got }
  if s.remainingBytes = 0 then { s with fileOpen := false, index := s.index + 1 } else s

theorem advance_index (s : ServerBatchStream P) (got : ℕ) :
    s.index ≤ (s.advance got).index ∧ (s.advance got).files = s.files := by
  unfold advance
  dsimp only
  split
  · exact ⟨Nat.le_succ _, rfl⟩
  · exact ⟨Nat.le_refl _, rfl⟩

theorem openCurrent_index (disk : Disk) (s : ServerBatchStream P) (file : BatchFileRecord P) :
    (s.openCurrent disk file).index = s.index ∧ (s.openCurrent disk file).files = s.files := by
  unfold openCurrent
  split <;> exact ⟨rfl, rfl⟩

/-- The burst loop: the stream after it, the frames, and whether it was aborted. -/
def burst (disk : Disk) (v : Visit) (s : ServerBatchStream P) (burstBytes : ℕ) :
    ServerBatchStream P × List (BatchFrame P) × Bool :=
  if _hburst : burstBytes < v.perStreamBurstBytes then
    match _hfile : s.skipFailed.files[s.skipFailed.index]? with
    | none => (s.skipFailed, [], false)
    | some file =>
      if !s.skipFailed.fileOpen && file.fileSize == 0 then
        burst disk v s.skipFailed.passEmpty burstBytes
      else
        let t := s.skipFailed.openCurrent disk file
        if !t.fileOpen then (t, [.fileError], true)
        else
          match disk.read t.index t.nextReadOffset (min t.remainingBytes v.effectiveChunkSize) with
          | none => (t, [.fileError], true)
          | some [] => (t, [.fileError], true)
          | some (b :: chunk) =>
            let r := burst disk v (t.advance (chunk.length + 1)) (burstBytes + (chunk.length + 1))
            (r.1, .fileBatchChunk (b :: chunk) :: r.2.1, r.2.2)
  else (s, [], false)
termination_by (s.files.length - s.index) + (v.perStreamBurstBytes - burstBytes)
decreasing_by
  · have hlt := (List.getElem?_eq_some_iff.1 _hfile).1
    have hle : s.index ≤ s.skipFailed.index := Nat.le_add_right _ _
    have hfiles : s.skipFailed.files = s.files := rfl
    show s.skipFailed.files.length - (s.skipFailed.index + 1) + _ < _
    rw [hfiles] at hlt ⊢
    omega
  · have hle : s.index ≤ s.skipFailed.index := Nat.le_add_right _ _
    have hfiles : s.skipFailed.files = s.files := rfl
    have hopen := openCurrent_index disk s.skipFailed file
    have hadv := (s.skipFailed.openCurrent disk file).advance_index (chunk.length + 1)
    rw [hadv.2, hopen.2, hfiles]
    have := hadv.1
    omega

/-- One visit: `none` when the stream is closed. -/
def visit (disk : Disk) (s : ServerBatchStream P) (v : Visit) :
    Option (ServerBatchStream P) × List (BatchFrame P) :=
  let header := if s.headerSent then [] else [.fileBatchOpen s.files]
  let r := burst disk v { s with headerSent := true } 0
  if r.2.2 then (none, header ++ r.2.1)
  else if (r.1.files.drop r.1.index).all (fun f => !f.ok) && !r.1.fileOpen then
    (none, header ++ r.2.1 ++ [.fileBatchEnd])
  else (some r.1, header ++ r.2.1)

/-- A sequence of visits, until the stream is closed. -/
def serve (disk : Disk) : List Visit → ServerBatchStream P →
    Option (ServerBatchStream P) × List (BatchFrame P)
  | [], s => (some s, [])
  | v :: vs, s =>
    match s.visit disk v with
    | (none, frames) => (none, frames)
    | (some s', frames) => ((serve disk vs s').1, frames ++ (serve disk vs s').2)

end ServerBatchStream

/-! ### The client side of the same frames -/

/-- A frame of the stream at the client: the batch after it and the requests of the entries
it finished. -/
def receiveFrame (batch : BatchDownloadState P) :
    BatchFrame P → Except String (BatchDownloadState P × List (BatchOut P))
  | .fileBatchOpen records => .ok (BatchDownloadState.open records)
  | .fileBatchChunk payload =>
    if batch.headerReady then .ok (batch.chunk payload)
    else .error "Received batch chunk before batch open"
  | .fileBatchEnd => .ok (batch, batch.entries.flatMap endBatchEntry)
  | .fileError => .ok (batch, batch.entries.flatMap errorBatchEntry)

/-- Frames in order. -/
def receive : BatchDownloadState P → List (BatchFrame P) →
    Except String (BatchDownloadState P × List (BatchOut P))
  | batch, [] => .ok (batch, [])
  | batch, frame :: frames => do
    let r ← receiveFrame batch frame
    let q ← receive r.1 frames
    return (q.1, r.2 ++ q.2)

/-! ### What a batch stream is for -/

/-- A file of a batch: its record and its content. -/
abbrev BatchFile (P : Type) := BatchFileRecord P × List UInt8

/-- What the reads return is the content of the file asked for. -/
def Disk.Serves (disk : Disk) (files : List (BatchFile P)) : Prop :=
  ∀ i file, files[i]? = some file → ∀ off want bytes, disk.read i off want = some bytes →
    bytes.length ≤ want ∧ bytes <+: file.2.drop off

/-- Files that are ok can be opened, and reads return something up to their size. -/
def Disk.Reliable (disk : Disk) (files : List (BatchFile P)) : Prop :=
  ∀ i file, files[i]? = some file → file.1.ok = true → disk.opens i = true ∧
    ∀ off want, off < file.1.fileSize → 0 < want → ∃ b bytes, disk.read i off want = some (b :: bytes)

/-- What a file asks for when it is complete: its own bytes written once, or a failure that
the server reported. -/
def delivered (file : BatchFile P) : BatchOut P :=
  if file.1.ok then
    .write ⟨file.1.relativePath, file.2.take file.1.fileSize, file.1.mtimeNs⟩
  else .fail file.1.relativePath

/-- What the files ask for when the stream breaks after `n` bytes: those whose bytes have
all arrived are delivered, the others are retried. -/
def outcome : List (BatchFile P) → ℕ → List (BatchOut P)
  | [], _ => []
  | file :: files, n =>
    if file.1.ok then
      (if file.1.fileSize ≤ n then delivered file else .retry file.1.relativePath) ::
        outcome files (n - file.1.fileSize)
    else delivered file :: outcome files n

/-- The bytes of the chunks among some frames. -/
def payloadBytes : List (BatchFrame P) → ℕ
  | [] => 0
  | .fileBatchChunk payload :: frames => payload.length + payloadBytes frames
  | _ :: frames => payloadBytes frames

end FastClone.Server
