import Mathlib.Data.List.Basic
import Mathlib.Data.Int.Notation

/-!
# Batch streams on the client (`BatchDownloadState` and its frame handlers)

One batch stream carries many small files. The `FileBatchOpen` reply lists the files,
`FileBatchChunk` payloads are their bytes run together, and `FileBatchEnd`, `FileError`
or the failover of the lane close the stream. Finishing an entry asks something of the
rest of the client; the handlers return these requests as a list of `BatchOut`.
-/

namespace FastClone.Client

/-- `BatchFileRecord`: one record of the `FileBatchOpen` reply. -/
structure BatchFileRecord (P : Type) where
  relativePath : P
  fileSize : ℕ
  mtimeNs : ℤ
  ok : Bool

/-- `BatchDownloadEntry`. -/
structure BatchDownloadEntry (P : Type) where
  relPath : P
  fileSize : ℕ
  mtimeNs : ℤ
  serverOk : Bool
  shouldWrite : Bool
  finalized : Bool := false
  received : ℕ := 0
  buffer : List UInt8 := []

/-- `BatchDownloadState`. -/
structure BatchDownloadState (P : Type) where
  headerReady : Bool := false
  entries : List (BatchDownloadEntry P) := []
  currentIndex : ℕ := 0

/-- `IoWriteTask`: a whole file for the write pool. -/
structure IoWriteTask (P : Type) where
  relPath : P
  data : List UInt8
  mtimeNs : ℤ

/-- What a finished entry asks for: a pool write, `markTransferFailed` (with the retry count
dropped), or `retryOrFail`. -/
inductive BatchOut (P : Type) where
  | write (task : IoWriteTask P)
  | fail (rel : P)
  | retry (rel : P)

/-- The file a request is about. -/
def BatchOut.rel {P : Type} : BatchOut P → P
  | .write task => task.relPath
  | .fail rel => rel
  | .retry rel => rel

variable {P : Type}

/-- `finalizeBatchEntry`: the path of failures and of entries that are not written. -/
def finalizeBatchEntry (entry : BatchDownloadEntry P) : BatchDownloadEntry P × List (BatchOut P) :=
  if entry.finalized then (entry, [])
  else ({ entry with finalized := true },
    [if entry.serverOk then .retry entry.relPath else .fail entry.relPath])

/-- `dispatchBatchWrite`: the buffer moves into a write task. -/
def dispatchBatchWrite (entry : BatchDownloadEntry P) : BatchDownloadEntry P × List (BatchOut P) :=
  ({ entry with
      finalized := true
      buffer := [] },
    [.write ⟨entry.relPath, entry.buffer, entry.mtimeNs⟩])

/-- `completeBatchEntry`. -/
def completeBatchEntry (entry : BatchDownloadEntry P) : BatchDownloadEntry P × List (BatchOut P) :=
  if entry.finalized then (entry, [])
  else if entry.shouldWrite then dispatchBatchWrite entry
  else finalizeBatchEntry entry

/-- One turn of the loop over the records of the reply. -/
def openBatchEntry (record : BatchFileRecord P) : BatchDownloadEntry P × List (BatchOut P) :=
  let entry : BatchDownloadEntry P :=
    { relPath := record.relativePath
      fileSize := record.fileSize
      mtimeNs := record.mtimeNs
      serverOk := record.ok
      shouldWrite := record.ok }
  if !entry.serverOk then finalizeBatchEntry entry
  else if entry.fileSize = 0 then completeBatchEntry entry
  else (entry, [])

/-- The `FileBatchOpen` handler: fresh entries, then the index moves past what needs no bytes. -/
def BatchDownloadState.open (records : List (BatchFileRecord P)) :
    BatchDownloadState P × List (BatchOut P) :=
  let entries := records.map fun r => (openBatchEntry r).1
  ({ headerReady := true
     entries := entries
     currentIndex := (entries.takeWhile fun e => e.finalized || e.fileSize == 0).length },
    records.flatMap fun r => (openBatchEntry r).2)

/-- How much of a payload an entry takes. -/
def BatchDownloadEntry.room (entry : BatchDownloadEntry P) (payload : List UInt8) : ℕ :=
  min (entry.fileSize - entry.received) payload.length

/-- The entry with its part of a payload; bytes that will not be written are only counted. -/
def BatchDownloadEntry.receive (entry : BatchDownloadEntry P) (payload : List UInt8) :
    BatchDownloadEntry P :=
  { entry with
    buffer := if entry.shouldWrite then entry.buffer ++ payload.take (entry.room payload)
      else entry.buffer
    received := entry.received + entry.room payload }

/-- The loop of the `FileBatchChunk` handler over the entries from `currentIndex` on: the
entries it has passed, those that remain, and the requests of the finished ones. -/
def feedBatch : List (BatchDownloadEntry P) → List UInt8 →
    List (BatchDownloadEntry P) × List (BatchDownloadEntry P) × List (BatchOut P)
  | [], _ => ([], [], [])
  | entry :: rest, [] => ([], entry :: rest, [])
  | entry :: rest, b :: payload =>
    if entry.finalized || entry.fileSize == 0 || decide (entry.fileSize ≤ entry.received) then
      let done := if !entry.finalized && decide (entry.fileSize ≤ entry.received)
        then completeBatchEntry entry else (entry, [])
      let r := feedBatch rest (b :: payload)
      (done.1 :: r.1, r.2.1, done.2 ++ r.2.2)
    else
      let entry' := entry.receive (b :: payload)
      if entry'.fileSize ≤ entry'.received then
        let done := completeBatchEntry entry'
        let r := feedBatch rest ((b :: payload).drop (entry.room (b :: payload)))
        (done.1 :: r.1, r.2.1, done.2 ++ r.2.2)
      -- the payload is used up inside this entry
      else ([], entry' :: rest, [])

/-- The `FileBatchChunk` handler. -/
def BatchDownloadState.chunk (batch : BatchDownloadState P) (payload : List UInt8) :
    BatchDownloadState P × List (BatchOut P) :=
  let r := feedBatch (batch.entries.drop batch.currentIndex) payload
  ({ batch with
      entries := batch.entries.take batch.currentIndex ++ r.1 ++ r.2.1
      currentIndex := batch.currentIndex + r.1.length },
    r.2.2)

/-- What `FileBatchEnd` does to one entry. -/
def endBatchEntry (entry : BatchDownloadEntry P) : List (BatchOut P) :=
  if entry.finalized then []
  else (completeBatchEntry
    (if entry.received < entry.fileSize then { entry with shouldWrite := false } else entry)).2

/-- What `FileError` does to one entry. -/
def errorBatchEntry (entry : BatchDownloadEntry P) : List (BatchOut P) :=
  if entry.finalized then []
  else (finalizeBatchEntry { entry with shouldWrite := false }).2

/-- What the failover of the lane does to one entry. -/
def failoverBatchEntry (entry : BatchDownloadEntry P) : List (BatchOut P) :=
  if entry.finalized then [] else [.retry entry.relPath]

end FastClone.Client
