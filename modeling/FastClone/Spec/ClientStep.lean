import FastClone.Spec.Client
import FastClone.Lib.Runs

/-!
# Steps of the client's main loop

Each function of the main loop and each frame handler is a function of the state. What the
disk, the network and the peer answer comes with the event. One turn of a dispatch loop is
one event, so every interleaving of the loop with its worker threads is a run of `machine`.
-/

namespace FastClone.Client

namespace State

variable {P H : Type} [DecidableEq P]

/-- The manifest size of a file. -/
def size (s : State P H) (rel : P) : Option ℕ := (s.remoteFiles.lookup rel).map FileEntry.fileSize

/-- `scheduleTransfer`. -/
def scheduleTransfer (s : State P H) (rel : P) : State P H :=
  { s with xfer := s.xfer.scheduleTransfer s.size rel }

/-- `retryOrFail`. -/
def retryOrFail (s : State P H) (rel : P) : State P H :=
  { s with xfer := s.xfer.retryOrFail s.size rel }

/-- Count a file. -/
def count (s : State P H) (rel : Option P) (o : Outcome) : State P H :=
  { s with xfer := s.xfer.count rel o }

/-- `++compared; ++transferred; transferRetryCounts.erase(rel)`. -/
def countTransferred (s : State P H) (rel : P) : State P H :=
  { s with xfer := (s.xfer.count (some rel) .transferred).forgetRetries rel }

/-! ### Admission -/

/-- `tryEnterDelta`; `oldReadable` is the answer of the disk to its condition G4. -/
def tryEnterDelta (cfg : Config) (s : State P H) (rel : P) (oldReadable : Bool) :
    Option (State P H) :=
  if cfg.deltaEnabled && decide (rel ∉ s.delta.deltaSigRequested) &&
      (s.size rel).any (cfg.deltaMinSizeBytes ≤ ·) && oldReadable then
    (s.delta.book.manage rel ((s.size rel).getD 0)).map fun book =>
      { s with delta := { s.delta with
          book := book
          pendingDeltaSigRequests := s.delta.pendingDeltaSigRequests ++ [rel] } }
  else none

/-- `tryEnterFileRange`. -/
def tryEnterFileRange (cfg : Config) (s : State P H) (rel : P) : Option (State P H) :=
  if cfg.largeFileBlockAllowed && cfg.serverCapFileRange &&
      (s.size rel).any (cfg.largeFileThresholdBytes ≤ ·) &&
      decide (2 ≤ s.pool.healthyConnCount) then
    (s.range.book.manage rel ((s.size rel).getD 0)).map fun book =>
      { s with range :=
        { book := book
          pendingFileRangePlans := s.range.pendingFileRangePlans ++ [rel] } }
  else none

/-- `if (!tryEnterFileRange(rel)) scheduleTransfer(rel)`. -/
def enterFileRangeOrSchedule (cfg : Config) (s : State P H) (rel : P) : State P H :=
  (s.tryEnterFileRange cfg rel).getD (s.scheduleTransfer rel)

/-- `if (!tryEnterDelta(rel) && !tryEnterFileRange(rel)) scheduleTransfer(rel)`. -/
def enterOrSchedule (cfg : Config) (s : State P H) (rel : P) (oldReadable : Bool) : State P H :=
  (s.tryEnterDelta cfg rel oldReadable).getD (s.enterFileRangeOrSchedule cfg rel)

/-! ### Compare and hash stages -/

/-- `handleCompareResult`. -/
def handleCompareResult (cfg : Config) (s : State P H) (rel : P) (action : CompareAction)
    (oldReadable : Bool) : State P H :=
  match action with
  | .transferNow => s.enterOrSchedule cfg rel oldReadable
  | .skip => s.count (some rel) .unchanged
  | .needHash => { s with hash := s.hash.request rel }

/-- The drain of one compare result. -/
def drainCompare (cfg : Config) (s : State P H) (oldReadable : Bool) : State P H :=
  match s.compare.drainOne with
  | none => s
  | some (r, c) => { s with compare := c }.handleCompareResult cfg r.1 r.2 oldReadable

/-- The `HashResponse` handler. A block-mode file that never asked for a hash stays out of the
fallback queue. -/
def hashResponse (s : State P H) (conn : ℕ) (rel : P) (v : H) : State P H :=
  let blockOnly := decide (rel ∈ s.range.book.states) && decide (rel ∉ s.hash.hashRequested)
  { s with hash := s.hash.response conn rel v (!blockOnly) }

section

variable [DecidableEq H]

/-- The body of the loop of `resolveFallbackIfReady`. -/
def resolveCandidate (cfg : Config) (s : State P H) (rel : P) (oldReadable : Bool) : State P H :=
  if rel ∈ s.hash.hashResolved then s
  else
    match s.hash.remoteHashes rel with
    | none => s
    | some remote =>
      if s.hash.localHashes rel = none ∧ rel ∉ s.hash.localHashFailed then s
      else
        let s' :=
          if rel ∈ s.hash.localHashFailed ∨ s.hash.localHashes rel ≠ some remote then
            s.enterOrSchedule cfg rel oldReadable
          else s.count (some rel) .unchanged
        { s' with hash := s'.hash.resolve rel }

/-- One turn of the loop of `resolveFallbackIfReady`. -/
def resolveFallback (cfg : Config) (s : State P H) (oldReadable : Bool) : State P H :=
  match s.hash.fallbackReadyQueue with
  | [] => s
  | rel :: rest =>
    { s with hash := { s.hash with fallbackReadyQueue := rest } }.resolveCandidate cfg rel
      oldReadable

/-- The forced transfer of `sweepUnresolvedFallbackIfQuiescent`. -/
def forceTransfer (s : State P H) (rel : P) : State P H :=
  if rel ∈ s.hash.hashResolved then s
  else
    let s' := s.scheduleTransfer rel
    { s' with hash := s'.hash.resolve rel }

/-- `sweepUnresolvedFallbackIfQuiescent`; `unresolved` lists the unresolved files in the order
the hash set yields them. -/
def sweepUnresolvedFallbackIfQuiescent (cfg : Config) (s : State P H) (unresolved : List P)
    (oldReadable : P → Bool) : State P H :=
  if s.hash.fallbackResolved < s.hash.fallbackCount ∧ s.hash.pendingHashRequests = [] ∧
      s.hash.hashRequestsSent = s.hash.hashResponsesReceived ∧ s.hash.localHashInFlight = 0 then
    let ready := s.hash.fallbackReadyQueue ++ unresolved
    let s := { s with hash := { s.hash with fallbackReadyQueue := [] } }
    let s := ready.foldl (fun s rel => s.resolveCandidate cfg rel (oldReadable rel)) s
    unresolved.foldl forceTransfer s
  else s

end

/-- One flush of `dispatchHashRequests`: a failed send takes the lane down. -/
def dispatchHashRequests (cfg : Config) (s : State P H) (lane : ℕ) (sendOk : Bool)
    (reached : ℕ) : State P H :=
  if s.hash.flushSize cfg.maxInFlightHashRequests = 0 then s
  else if sendOk then
    { s with hash := s.hash.dispatch cfg.maxInFlightHashRequests lane 256 }
  else
    { s with
      hash := s.hash.dispatch cfg.maxInFlightHashRequests lane reached
      pool := s.pool.markConnDown lane }

/-! ### Transfers -/

/-- `blockModeActive`. -/
def blockModeActive (cfg : Config) (s : State P H) : Bool :=
  cfg.largeFileBlockAllowed && cfg.serverCapFileRange && decide (2 ≤ s.pool.healthyConnCount)

/-- The cap of `pickConnection`. -/
def laneCap (cfg : Config) (s : State P H) (reserveFileRange : Bool) : ℕ :=
  if reserveFileRange && s.blockModeActive cfg then
    s.activeStreamLimit - computeFileRangeReservedSlots s.activeStreamLimit
  else s.activeStreamLimit

/-- The batch branch of `tryStartTransfers`. The stream records none of the paths it asks for. -/
def startBatch (cfg : Config) (s : State P H) (q : Transfers.Queue) (lane : ℕ) (sendOk : Bool) :
    State P H :=
  if s.pool.canPick (s.laneCap cfg true) false lane then
    let n := Transfers.batchTake s.size s.xfer.smallBatchMaxFiles s.xfer.smallBatchMaxBytes
      (s.xfer.queue q) 0 0
    let batchPaths := (s.xfer.queue q).take n
    let s := { s with xfer := s.xfer.setQueue ((s.xfer.queue q).drop n) q }
    if batchPaths = [] then s
    else if sendOk then
      { s with
        streams := s.streams.openNext lane (.batch batchPaths {})
        pool := s.pool.acquireSlot lane }
    else
      batchPaths.foldl retryOrFail
        { s with
          streams := s.streams.skipId lane
          pool := s.pool.markConnDown lane }
  else s

/-- The single-file branch of `tryStartTransfers`. After a failed send the stream stays for
`failoverScan` to requeue. -/
def startDownload (cfg : Config) (s : State P H) (q : Transfers.Queue) (globalSlotCap lane : ℕ)
    (openOk sendOk : Bool) : State P H :=
  let reservedBatchSlots :=
    if globalSlotCap > 1 ∧
        (s.xfer.pendingBatchTransfers ≠ [] ∨ s.xfer.pendingRetryBatchTransfers ≠ []) then 1 else 0
  if s.streams.countWhere Stream.isDownload ≥ globalSlotCap - reservedBatchSlots then s
  else
    match s.xfer.queue q with
    | [] => s
    | rel :: rest =>
      let isLarge := (s.size rel).any (cfg.largeFileThresholdBytes ≤ ·)
      if s.pool.canPick (s.laneCap cfg true) (isLarge && !cfg.largeFilePrefersAux) lane then
        let s := { s with xfer := s.xfer.setQueue rest q }
        if !openOk then s.retryOrFail rel
        else
          { s with
            streams := s.streams.openNext lane (.download rel)
            pool := if sendOk then s.pool.acquireSlot lane else s.pool.markConnDown lane }
      else s

/-- One turn of the loop of `tryStartTransfers`; `healthyAtStart` is the number of healthy lanes
it read before the loop. -/
def tryStartTransfer (cfg : Config) (s : State P H) (lane healthyAtStart : ℕ)
    (openOk sendOk : Bool) : State P H :=
  let globalSlotCap := s.activeStreamLimit * max 1 healthyAtStart
  if s.streams.countWhere (fun st => st.isDownload || st.isBatch) ≥ globalSlotCap then s
  else if s.io.ioInFlightBytes > cfg.ioInFlightLimitBytes then s
  else
    match s.xfer.nextQueue with
    | none => s
    | some .batch => s.startBatch cfg .batch lane sendOk
    | some .retryBatch => s.startBatch cfg .retryBatch lane sendOk
    | some .regular => s.startDownload cfg .regular globalSlotCap lane openOk sendOk
    | some .retryRegular => s.startDownload cfg .retryRegular globalSlotCap lane openOk sendOk

/-- What a finished batch entry asks for. -/
def applyOut (s : State P H) : BatchOut P → State P H
  | .write task => { s with io := s.io.dispatch task }
  | .fail rel => { s with xfer := (s.xfer.markTransferFailed rel).forgetRetries rel }
  | .retry rel => s.retryOrFail rel

/-- The requests of a batch handler, in order. -/
def applyOuts (s : State P H) (outs : List (BatchOut P)) : State P H := outs.foldl applyOut s

/-- The drain of one write result. -/
def drainIo (s : State P H) : State P H :=
  match s.io.drainOne with
  | none => s
  | some (r, io) =>
    if r.2 then { s with io := io }.countTransferred r.1 else { s with io := io }.retryOrFail r.1

/-! ### Ranges -/

/-- `finalizeDelta`. -/
def finalizeDelta (cfg : Config) (s : State P H) (rel : P) (fin : TempFinalizeResult) :
    State P H :=
  match s.delta.book.states.lookup rel with
  | none => s
  | some st =>
    let book := s.delta.book.noteFinalized rel st
    if fin = .ok then
      { s with delta := { s.delta with book := book.forget rel } }.countTransferred rel
    else
      { s with delta := { s.delta with book := book.abandon rel } }.enterFileRangeOrSchedule cfg rel

/-- `finalizeFileRange`. -/
def finalizeFileRange (s : State P H) (rel : P) (fin : TempFinalizeResult) : State P H :=
  match s.range.book.states.lookup rel with
  | none => s
  | some st =>
    let book := s.range.book.noteFinalized rel st
    if fin = .ok then
      { s with range := { s.range with book := book.forget rel } }.countTransferred rel
    else
      { s with range := { s.range with book := book.abandon rel } }.scheduleTransfer rel

/-- `applyDeltaPlanResult` for the next plan result. -/
def applyDeltaPlanResult (cfg : Config) (s : State P H) (fin : TempFinalizeResult) : State P H :=
  match s.delta.drainPlan with
  | none => s
  | some (r, d) =>
    match d.book.states.lookup r.rel with
    | none => { s with delta := d }
    | some st =>
      match r.ranges with
      | none =>
        { s with delta := { d with book := d.book.abandon r.rel } }.enterFileRangeOrSchedule cfg
          r.rel
      | some ranges =>
        let s := { s with delta := { d with book := d.book.adopt r.rel st ranges } }
        if ranges.length % 2 ^ 32 = 0 then s.finalizeDelta cfg r.rel fin else s

/-- The loop of `pumpDeltaSignatures`: the requests of this pass and the queue it leaves.
`room` is the free part of the window, if there is one. -/
def sigBatch (managed : P → Bool) : Option ℕ → List P → List P × List P
  | _, [] => ([], [])
  | some 0, queue => ([], queue)
  | some (room + 1), rel :: queue =>
    if managed rel then
      let r := sigBatch managed (some room) queue
      (rel :: r.1, r.2)
    else sigBatch managed (some (room + 1)) queue
  | none, rel :: queue =>
    if managed rel then
      let r := sigBatch managed none queue
      (rel :: r.1, r.2)
    else sigBatch managed none queue

/-- `pumpDeltaSignatures`: after a failed send the requests go back to the front. -/
def pumpDeltaSignatures (cfg : Config) (s : State P H) (lane : ℕ) (sendOk : Bool) (reached : ℕ) :
    State P H :=
  let room := if cfg.maxInFlightDeltaSig = 0 then none
    else some (cfg.maxInFlightDeltaSig - s.delta.deltaSigInFlight)
  let r := sigBatch (fun rel => decide (rel ∈ s.delta.book.states)) room
    s.delta.pendingDeltaSigRequests
  if r.1 = [] then { s with delta := { s.delta with pendingDeltaSigRequests := r.2 } }
  else if sendOk then
    { s with delta := { s.delta with
        pendingDeltaSigRequests := r.2
        deltaSigRequested := s.delta.deltaSigRequested ∪ r.1.toFinset
        deltaSigInFlight := s.delta.deltaSigInFlight + r.1.length
        sigJobs := s.delta.sigJobs ++ r.1.map fun f => (lane, f) } }
  else
    { s with
      delta := { s.delta with
        pendingDeltaSigRequests := r.1 ++ r.2
        sigJobs := s.delta.sigJobs ++ (r.1.take reached).map fun f => (lane, f) }
      pool := s.pool.markConnDown lane }

/-- One turn of the loop of `tryStartDeltaRanges`. -/
def tryStartDeltaRange (cfg : Config) (s : State P H) (lane : ℕ) (sendOk : Bool) : State P H :=
  match s.delta.book.pending with
  | [] => s
  | t :: rest =>
    let popped := { s.delta with book := s.delta.book.setPending rest }
    if t.rel ∉ s.delta.book.states then { s with delta := popped }
    else if s.pool.canPick (s.laneCap cfg true) false lane then
      if sendOk then
        { s with
          delta := popped
          streams := s.streams.openNext lane (.deltaRange ⟨t.rel, t.offset, t.length, 0⟩)
          pool := s.pool.acquireSlot lane }
      else
        { s with
          streams := s.streams.skipId lane
          pool := s.pool.markConnDown lane }
    else s

/-- One turn of the loop of `pumpFileRangePlans` with `beginFileRangePlan`. -/
def beginFileRangePlan (cfg : Config) (s : State P H) (openOk : Bool) (fin : TempFinalizeResult) :
    State P H :=
  match s.range.pendingFileRangePlans with
  | [] => s
  | rel :: rest =>
    let s := { s with range := { s.range with pendingFileRangePlans := rest } }
    match s.range.book.states.lookup rel with
    | none => s
    | some st =>
      if st.planned then s
      else if !openOk then
        { s with range := { s.range with book := s.range.book.abandon rel } }.scheduleTransfer rel
      else
        let plan := fileRangePlan cfg.largeFileBlockBytes st.bytes
        let s := { s with range := { s.range with book := s.range.book.adopt rel st plan } }
        if plan.length % 2 ^ 32 = 0 then s.finalizeFileRange rel fin else s

/-- One turn of the loop of `tryStartFileRanges`: blocks may use the reserved slots. -/
def tryStartFileRange (cfg : Config) (s : State P H) (lane : ℕ) (sendOk : Bool) : State P H :=
  match s.range.book.pending with
  | [] => s
  | t :: rest =>
    let popped := { s.range with book := s.range.book.setPending rest }
    if t.rel ∉ s.range.book.states then { s with range := popped }
    else if s.pool.canPick (s.laneCap cfg false) false lane then
      if sendOk then
        { s with
          range := popped
          streams := s.streams.openNext lane (.fileRange ⟨t.rel, t.offset, t.length, 0⟩)
          pool := s.pool.acquireSlot lane }
      else
        { s with
          streams := s.streams.skipId lane
          pool := s.pool.markConnDown lane }
    else s

/-! ### Frames -/

/-- A frame for a stream that is not open: stale if its lane is dead, else a desync. -/
def unknownStream (s : State P H) (conn : ℕ) (what : String) : State P H :=
  if s.pool.healthy conn then { s with mode := .aborted what } else s

/-- Erase a stream and release its slot. -/
def closeStream (s : State P H) (k : Key) : State P H :=
  { s with
    streams := s.streams.close k
    pool := s.pool.releaseSlot k.1 }

/-- The `ManifestEntry` handler for a file. -/
def manifestEntry (cfg : Config) (s : State P H) (rel : P) (e : FileEntry) : State P H :=
  { s with
    remoteFiles := s.remoteFiles.insert rel e
    compare := s.compare.offer cfg.maxInFlightCompareTasks rel }

/-- The `FileBatchOpen` handler. -/
def fileBatchOpen (s : State P H) (k : Key) (records : List (BatchFileRecord P)) : State P H :=
  match s.streams.find k with
  | some (.batch requested _) =>
    let r := BatchDownloadState.open records
    { s with streams := s.streams.update k (.batch requested r.1) }.applyOuts r.2
  | _ => s.unknownStream k.1 "Received batch open for unknown stream"

/-- The `FileBatchChunk` handler. -/
def fileBatchChunk (s : State P H) (k : Key) (payload : List UInt8) : State P H :=
  match s.streams.find k with
  | some (.batch requested b) =>
    if b.headerReady then
      let r := b.chunk payload
      { s with streams := s.streams.update k (.batch requested r.1) }.applyOuts r.2
    else { s with mode := .aborted "Received batch chunk before batch open" }
  | _ => s.unknownStream k.1 "Received batch chunk for unknown stream"

/-- The `FileBatchEnd` handler. -/
def fileBatchEnd (s : State P H) (k : Key) : State P H :=
  match s.streams.find k with
  | some (.batch _ b) => (s.closeStream k).applyOuts (b.entries.flatMap endBatchEntry)
  | _ => s.unknownStream k.1 "Received batch end for unknown stream"

/-- The `FileChunk` handler, as far as the stream table goes. -/
def fileChunk (s : State P H) (k : Key) : State P H :=
  match s.streams.find k with
  | some (.download _) => s
  | _ => s.unknownStream k.1 "Received chunk for unknown stream"

/-- The `FileEnd` handler; `ok` is the success of the writes and of the close. -/
def fileEnd (s : State P H) (k : Key) (ok : Bool) : State P H :=
  match s.streams.find k with
  | some (.download rel) =>
    if ok then (s.closeStream k).countTransferred rel else (s.closeStream k).retryOrFail rel
  | _ => s.unknownStream k.1 "Received end for unknown stream"

/-- The `FileError` handler. It never asks whether the frame is stale. -/
def fileError (s : State P H) (k : Key) : State P H :=
  match s.streams.find k with
  | some (.batch _ b) => (s.closeStream k).applyOuts (b.entries.flatMap errorBatchEntry)
  | some (.download rel) => (s.closeStream k).retryOrFail rel
  | _ => { s with pool := s.pool.releaseSlot k.1 }.count none .failed

/-- The `BlockSigResponse` handler. -/
def blockSigResponse (s : State P H) (conn : ℕ) (rel : P) : State P H :=
  let d := { s.delta with
    deltaSigInFlight := s.delta.deltaSigInFlight - 1
    sigJobs := s.delta.sigJobs.erase (conn, rel) }
  match d.book.states.lookup rel with
  | none => { s with delta := d }
  | some st =>
    if st.sigReceived then { s with delta := d }
    else
      { s with delta :=
        { d with book := d.book.update rel { st with sigReceived := true } }.pushPlan rel }

/-- The `DeltaRangeChunk` handler, as far as the range goes. -/
def deltaRangeChunk (s : State P H) (k : Key) (len : ℕ) : State P H :=
  match s.streams.find k with
  | some (.deltaRange r) =>
    { s with streams := s.streams.update k (.deltaRange { r with received := r.received + len }) }
  | _ => s.unknownStream k.1 "Received delta range chunk for unknown stream"

/-- The `DeltaRangeEnd` handler. -/
def deltaRangeEnd (cfg : Config) (s : State P H) (k : Key) (fin : TempFinalizeResult) :
    State P H :=
  match s.streams.find k with
  | some (.deltaRange r) =>
    let s := s.closeStream k
    match s.delta.book.states.lookup r.rel with
    | none => s
    | some st =>
      let s := { s with delta := { s.delta with book := s.delta.book.endRange r.rel st r.span } }
      if st.pendingRanges - 1 = 0 then s.finalizeDelta cfg r.rel fin else s
  | _ => s.unknownStream k.1 "Received delta range end for unknown stream"

/-- The range a `DeltaError` is tagged with. -/
def deltaTag (s : State P H) (k : Key) : Option (ActiveRange P) :=
  match s.streams.find k with
  | some (.deltaRange r) => some r
  | _ => none

/-- `DeltaErrorReleasesSigSlot`. -/
def deltaErrorReleasesSigSlot (rangeTagged deltaStateExists sigReceived : Bool) : Bool :=
  !rangeTagged && deltaStateExists && !sigReceived

/-- The `DeltaError` handler from the point where the file is known. -/
def deltaErrorFor (s : State P H) (rangeTagged : Bool) (rel : P) : State P H :=
  let st := s.delta.book.states.lookup rel
  let wasManaged := st.isSome || decide (rel ∈ s.delta.deltaSigRequested)
  let releases := deltaErrorReleasesSigSlot rangeTagged st.isSome (st.any RangeState.sigReceived) &&
    decide (rel ∈ s.delta.deltaSigRequested)
  let d := { s.delta with
    deltaSigRequested :=
      if releases then s.delta.deltaSigRequested.erase rel else s.delta.deltaSigRequested
    deltaSigInFlight :=
      if releases then s.delta.deltaSigInFlight - 1 else s.delta.deltaSigInFlight }
  if wasManaged && decide (rel ∉ s.delta.book.abandoned) then
    { s with delta := { d with book := d.book.abandon rel } }.scheduleTransfer rel
  else { s with delta := { d with book := d.book.forget rel } }

/-- The `DeltaError` handler. A frame with stream id 0 answers a signature request. -/
def deltaError (s : State P H) (k : Key) (rel : P) : State P H :=
  match s.deltaTag k with
  | some r => (s.closeStream k).deltaErrorFor true r.rel
  | none =>
    { s with delta := { s.delta with
        sigJobs := if k.2 = 0 then s.delta.sigJobs.erase (k.1, rel)
          else s.delta.sigJobs } }.deltaErrorFor false rel

/-- The `FileRangeData` handler, as far as the range goes. -/
def fileRangeData (s : State P H) (k : Key) (len : ℕ) : State P H :=
  match s.streams.find k with
  | some (.fileRange r) =>
    { s with streams := s.streams.update k (.fileRange { r with received := r.received + len }) }
  | _ => s.unknownStream k.1 "Received file range data for unknown stream"

/-- The `FileRangeEnd` handler. -/
def fileRangeEnd (s : State P H) (k : Key) (fin : TempFinalizeResult) : State P H :=
  match s.streams.find k with
  | some (.fileRange r) =>
    let s := s.closeStream k
    match s.range.book.states.lookup r.rel with
    | none => s
    | some st =>
      let s := { s with range := { s.range with book := s.range.book.endRange r.rel st r.span } }
      if st.pendingRanges - 1 = 0 then s.finalizeFileRange r.rel fin else s
  | _ => s.unknownStream k.1 "Received file range end for unknown stream"

/-- The `FileRangeError` handler from the point where the file is known. -/
def fileRangeErrorFor (s : State P H) (rel : P) : State P H :=
  if rel ∈ s.range.book.abandoned then
    { s with range := { s.range with book := s.range.book.forget rel } }
  else { s with range := { s.range with book := s.range.book.abandon rel } }.scheduleTransfer rel

/-- The `FileRangeError` handler. -/
def fileRangeError (s : State P H) (k : Key) (rel : P) : State P H :=
  match s.streams.find k with
  | some (.fileRange r) => (s.closeStream k).fileRangeErrorFor r.rel
  | _ => s.fileRangeErrorFor rel

/-! ### Failover and the exit tests -/

/-- What `failoverScan` does to one stream of a dead lane. -/
def drainStream (s : State P H) (k : Key) : State P H :=
  match s.streams.find k with
  | none => s
  | some (.download rel) => { s with streams := s.streams.close k }.retryOrFail rel
  | some (.batch _ b) =>
    { s with streams := s.streams.close k }.applyOuts (b.entries.flatMap failoverBatchEntry)
  | some (.deltaRange r) =>
    { s with
      streams := s.streams.close k
      delta := { s.delta with book := s.delta.book.requeue r } }
  | some (.fileRange r) =>
    { s with
      streams := s.streams.close k
      range := { s.range with book := s.range.book.requeue r } }

/-- The keys of a lane in the order `failoverScan` visits them: one map after the other, each in
the order `order` in which the maps yield their keys. -/
def laneKeys (s : State P H) (order : List Key) (lane : ℕ) : List Key :=
  [Stream.isDownload, Stream.isBatch, Stream.isDeltaRange, Stream.isFileRange].flatMap fun kind =>
    order.filter fun k => k.1 == lane && (s.streams.find k).any kind

/-- The body of the lane loop of `failoverScan`. -/
def drainLane (order : List Key) (s : State P H) (lane : ℕ) : State P H :=
  if s.pool[lane]?.any fun l => !l.healthy && !l.drained then
    let s := (s.laneKeys order lane).foldl drainStream s
    { s with pool := s.pool.modify lane fun l =>
        { l with
          inFlight := 0
          drained := true } }
  else s

/-- The signature request of a delta file is queued again. -/
def requeueSignature (s : State P H) (rel : P) : State P H :=
  match s.delta.book.states.lookup rel with
  | none => s
  | some st =>
    if !st.sigReceived && decide (rel ∈ s.delta.deltaSigRequested) then
      { s with delta := { s.delta with
          deltaSigRequested := s.delta.deltaSigRequested.erase rel
          pendingDeltaSigRequests := s.delta.pendingDeltaSigRequests ++ [rel]
          deltaSigInFlight := s.delta.deltaSigInFlight - 1 } }
    else s

/-- Lanes whose receive threads end. -/
def lanesDown (s : State P H) (lanes : List ℕ) : State P H :=
  { s with pool := lanes.foldl Pool.markConnDown s.pool }

/-- `failoverScan`. `order` and `sigOrder` are the orders in which the stream maps and
`deltaStates` yield their keys; `lost` and `lost'` are lanes that die during the scan, before
its second and before its third look at the healthy lanes. -/
def failoverScan (s : State P H) (order : List Key) (sigOrder : List P) (lost lost' : List ℕ) :
    State P H :=
  let newlyDown := s.pool.any fun l => !l.healthy && !l.drained
  let s := (List.range s.pool.length).foldl (drainLane order) s
  let s := s.lanesDown lost
  let s := if newlyDown && decide (0 < s.pool.healthyConnCount) then
    sigOrder.foldl requeueSignature s else s
  let s := s.lanesDown lost'
  if s.pool.healthyConnCount = 0 ∧ !s.recvClosed then { s with recvClosed := true } else s

/-- `deltaIdle`. -/
def deltaIdle (s : State P H) : Bool :=
  decide (s.delta.book.states.entries.length = 0) && s.delta.pendingDeltaSigRequests.isEmpty &&
    s.delta.book.pending.isEmpty && s.streams.countWhere Stream.isDeltaRange == 0 &&
    s.delta.deltaPlanInFlight == 0

/-- `fileRangeIdle`. -/
def fileRangeIdle (s : State P H) : Bool :=
  decide (s.range.book.states.entries.length = 0) && s.range.book.pending.isEmpty &&
    s.streams.countWhere Stream.isFileRange == 0 && s.range.pendingFileRangePlans.isEmpty

/-- The completion test of the main loop. -/
def complete (s : State P H) : Bool :=
  s.manifestDone && s.compare.inFlight == 0 &&
    s.xfer.pendingTransfers.isEmpty && s.xfer.pendingBatchTransfers.isEmpty &&
    s.xfer.pendingRetryTransfers.isEmpty && s.xfer.pendingRetryBatchTransfers.isEmpty &&
    s.streams.countWhere Stream.isDownload == 0 && s.streams.countWhere Stream.isBatch == 0 &&
    s.hash.fallbackResolved == s.hash.fallbackCount &&
    s.io.ioOutstanding == 0 && s.deltaIdle && s.fileRangeIdle

/-- The refill of the compare pipeline with the completion test that follows it. -/
def loopTest (cfg : Config) (s : State P H) : State P H :=
  let s := { s with compare := (s.compare.refill cfg.maxInFlightCompareTasks).flush }
  if s.complete then { s with mode := .completed } else s

end State

/-! ### The machine -/

/-- Everything that can happen. -/
inductive Event (P H : Type) where
  | manifestEntry (rel : P) (e : FileEntry)
  | manifestDir (rel : P)
  | manifestEnd
  | compareFlush
  | compareTake
  | comparePublish (i : ℕ) (act : P → CompareAction)
  | drainCompare (oldReadable : Bool)
  | dispatchHashRequests (lane : ℕ) (sendOk : Bool) (reached : ℕ)
  | hashPop
  | hashCount (i : ℕ)
  | hashRecord (i : ℕ) (result : Option H)
  | hashLeave (i : ℕ)
  | hashReady (i : ℕ)
  | hashResponse (conn : ℕ) (rel : P) (v : H)
  | resolveFallback (oldReadable : Bool)
  | sweep (unresolved : List P) (oldReadable : P → Bool)
  | refreshTuning
  | rebalance
  | startTransfer (lane healthyAtStart : ℕ) (openOk sendOk : Bool)
  | backoff
  | ioTake
  | ioWrite (i : ℕ) (ok : Bool)
  | ioPublish (i : ℕ)
  | drainIo
  | pumpSignatures (lane : ℕ) (sendOk : Bool) (reached : ℕ)
  | planTake
  | planPublish (i : ℕ) (misses : Option (List Spans.Span))
  | applyPlan (fin : TempFinalizeResult)
  | startDeltaRange (lane : ℕ) (sendOk : Bool)
  | beginFileRangePlan (openOk : Bool) (fin : TempFinalizeResult)
  | startFileRange (lane : ℕ) (sendOk : Bool)
  | fileBatchOpen (k : Key) (records : List (BatchFileRecord P))
  | fileBatchChunk (k : Key) (payload : List UInt8)
  | fileBatchEnd (k : Key)
  | fileChunk (k : Key)
  | fileEnd (k : Key) (ok : Bool)
  | fileError (k : Key)
  | blockSigResponse (conn : ℕ) (rel : P)
  | deltaRangeChunk (k : Key) (len : ℕ)
  | deltaRangeEnd (k : Key) (fin : TempFinalizeResult)
  | deltaError (k : Key) (rel : P)
  | fileRangeData (k : Key) (len : ℕ)
  | fileRangeEnd (k : Key) (fin : TempFinalizeResult)
  | fileRangeError (k : Key) (rel : P)
  | laneDown (lane : ℕ)
  | failoverScan (order : List Key) (sigOrder : List P) (lost lost' : List ℕ)
  | loopTest
  | recvDrainedAndClosed

variable {P H : Type} [DecidableEq P] [DecidableEq H]

/-- What an event does to a running client. -/
def exec (cfg : Config) (s : State P H) : Event P H → State P H
  | .manifestEntry rel e => s.manifestEntry cfg rel e
  | .manifestDir rel => { s with remoteDirs := insert rel s.remoteDirs }
  | .manifestEnd => { s with manifestDone := true }
  | .compareFlush => { s with compare := s.compare.flush }
  | .compareTake => { s with compare := s.compare.workerTake }
  | .comparePublish i act => { s with compare := s.compare.workerPublish i act }
  | .drainCompare oldReadable => s.drainCompare cfg oldReadable
  | .dispatchHashRequests lane sendOk reached => s.dispatchHashRequests cfg lane sendOk reached
  | .hashPop => { s with hash := s.hash.workerPop }
  | .hashCount i => { s with hash := s.hash.workerCount i }
  | .hashRecord i result => { s with hash := s.hash.workerRecord i result }
  | .hashLeave i => { s with hash := s.hash.workerLeave i }
  | .hashReady i => { s with hash := s.hash.workerReady i }
  | .hashResponse conn rel v => s.hashResponse conn rel v
  | .resolveFallback oldReadable => s.resolveFallback cfg oldReadable
  | .sweep unresolved oldReadable =>
    s.sweepUnresolvedFallbackIfQuiescent cfg unresolved oldReadable
  | .refreshTuning => { s with xfer := s.xfer.refreshSmallBatchTuning cfg.streamLimit }
  | .rebalance => { s with xfer := s.xfer.rebalanceTransfersTowardBatch s.size }
  | .startTransfer lane healthyAtStart openOk sendOk =>
    s.tryStartTransfer cfg lane healthyAtStart openOk sendOk
  | .backoff =>
    if cfg.streamBackoff && decide (s.activeStreamLimit > 4) then
      { s with activeStreamLimit := max 4 (s.activeStreamLimit / 2) } else s
  | .ioTake => { s with io := s.io.workerTake }
  | .ioWrite i ok => { s with io := s.io.workerWrite i ok }
  | .ioPublish i => { s with io := s.io.workerPublish i }
  | .drainIo => s.drainIo
  | .pumpSignatures lane sendOk reached => s.pumpDeltaSignatures cfg lane sendOk reached
  | .planTake => { s with delta := s.delta.planTake }
  | .planPublish i misses =>
    { s with delta := s.delta.planPublish i (misses.map (deltaRanges cfg.effectiveChunkSize)) }
  | .applyPlan fin => s.applyDeltaPlanResult cfg fin
  | .startDeltaRange lane sendOk => s.tryStartDeltaRange cfg lane sendOk
  | .beginFileRangePlan openOk fin => s.beginFileRangePlan cfg openOk fin
  | .startFileRange lane sendOk => s.tryStartFileRange cfg lane sendOk
  | .fileBatchOpen k records => s.fileBatchOpen k records
  | .fileBatchChunk k payload => s.fileBatchChunk k payload
  | .fileBatchEnd k => s.fileBatchEnd k
  | .fileChunk k => s.fileChunk k
  | .fileEnd k ok => s.fileEnd k ok
  | .fileError k => s.fileError k
  | .blockSigResponse conn rel => s.blockSigResponse conn rel
  | .deltaRangeChunk k len => s.deltaRangeChunk k len
  | .deltaRangeEnd k fin => s.deltaRangeEnd cfg k fin
  | .deltaError k rel => s.deltaError k rel
  | .fileRangeData k len => s.fileRangeData k len
  | .fileRangeEnd k fin => s.fileRangeEnd k fin
  | .fileRangeError k rel => s.fileRangeError k rel
  | .laneDown lane => s.lanesDown [lane]
  | .failoverScan order sigOrder lost lost' => s.failoverScan order sigOrder lost lost'
  | .loopTest => s.loopTest cfg
  | .recvDrainedAndClosed => if s.recvClosed then { s with mode := .closed } else s

/-- A lane `controlConn` answers now, or answered before the lane went down. -/
def controlLane (s : State P H) (lane : ℕ) : Prop :=
  lane < s.pool.length ∧ (lane = s.pool.controlConn ∨ s.pool.healthy lane = false)

instance (s : State P H) (lane : ℕ) : Decidable (controlLane s lane) :=
  inferInstanceAs (Decidable (_ ∧ _))

/-- What the rest of the world can do. The server answers each hash and signature request that
reached it at most once, and answers a batch request once, with one record for each requested
path in order; a set yields each of its elements once. -/
def Can (s : State P H) : Event P H → Prop
  | .dispatchHashRequests lane _ _ => controlLane s lane
  | .pumpSignatures lane _ _ => controlLane s lane
  | .hashResponse conn rel _ => (conn, rel) ∈ s.hash.hashJobs
  | .sweep unresolved _ =>
    unresolved.Nodup ∧ unresolved.toFinset = s.hash.hashRequested \ s.hash.hashResolved
  | .startTransfer _ healthyAtStart _ _ =>
    s.pool.healthyConnCount ≤ healthyAtStart ∧ healthyAtStart ≤ s.pool.length
  | .fileBatchOpen k records =>
    match s.streams.find k with
    | some (.batch requested b) =>
      b.headerReady = false ∧ records.map BatchFileRecord.relativePath = requested
    | _ => True
  | .blockSigResponse conn rel => (conn, rel) ∈ s.delta.sigJobs
  | .deltaError k rel => k.2 = 0 → (k.1, rel) ∈ s.delta.sigJobs
  | .failoverScan order sigOrder _ _ =>
    order.Perm s.streams.table.keys ∧ sigOrder.Perm s.delta.book.states.keys
  | _ => True

instance decidableCan (s : State P H) : ∀ e : Event P H, Decidable (Can s e)
  | .dispatchHashRequests _ _ _ => inferInstanceAs (Decidable (controlLane s _))
  | .pumpSignatures _ _ _ => inferInstanceAs (Decidable (controlLane s _))
  | .hashResponse _ _ _ => inferInstanceAs (Decidable (_ ∈ s.hash.hashJobs))
  | .sweep unresolved _ => inferInstanceAs (Decidable (unresolved.Nodup ∧ _ = _))
  | .startTransfer _ _ _ _ => inferInstanceAs (Decidable (_ ≤ _ ∧ _ ≤ _))
  | .fileBatchOpen k records =>
    match h : s.streams.find k with
    | some (.batch requested b) =>
      decidable_of_iff (b.headerReady = false ∧
        records.map BatchFileRecord.relativePath = requested) (by simp only [Can, h])
    | some (.download _) => .isTrue (by simp only [Can, h])
    | some (.deltaRange _) => .isTrue (by simp only [Can, h])
    | some (.fileRange _) => .isTrue (by simp only [Can, h])
    | none => .isTrue (by simp only [Can, h])
  | .blockSigResponse _ _ => inferInstanceAs (Decidable (_ ∈ s.delta.sigJobs))
  | .deltaError k _ => inferInstanceAs (Decidable (k.2 = 0 → _ ∈ s.delta.sigJobs))
  | .failoverScan order sigOrder _ _ =>
    inferInstanceAs (Decidable (order.Perm _ ∧ sigOrder.Perm _))
  | .manifestEntry _ _ | .manifestDir _ | .manifestEnd | .compareFlush | .compareTake
  | .comparePublish _ _ | .drainCompare _ | .hashPop | .hashCount _ | .hashRecord _ _
  | .hashLeave _ | .hashReady _ | .resolveFallback _ | .refreshTuning | .rebalance | .backoff
  | .ioTake | .ioWrite _ _ | .ioPublish _ | .drainIo | .planTake | .planPublish _ _
  | .applyPlan _ | .startDeltaRange _ _ | .beginFileRangePlan _ _ | .startFileRange _ _
  | .fileBatchChunk _ _ | .fileBatchEnd _ | .fileChunk _ | .fileEnd _ _ | .fileError _
  | .deltaRangeChunk _ _ | .deltaRangeEnd _ _ | .fileRangeData _ _ | .fileRangeEnd _ _
  | .fileRangeError _ _ | .laneDown _ | .loopTest | .recvDrainedAndClosed =>
    inferInstanceAs (Decidable True)

/-- The client: it takes events while the main loop runs. -/
def machine (P H : Type) [DecidableEq P] [DecidableEq H] (cfg : Config) :
    Runs.Machine (State P H) (Event P H) where
  init := State.start P H cfg
  can := fun s e => s.mode = .running ∧ Can s e
  next := exec cfg

instance (cfg : Config) (s : State P H) (e : Event P H) :
    Decidable ((machine P H cfg).can s e) :=
  inferInstanceAs (Decidable (s.mode = .running ∧ Can s e))

end FastClone.Client
