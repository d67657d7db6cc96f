import FastClone.Lib.Mux
import FastClone.Lib.Runs
import FastClone.Spec.Frames

/-!
# The send loop of a session (`sync_engine_server.cpp`)

The receiver checks a request, opens the file, and hands the stream over; what it refuses it answers through
the queue of urgent frames. The send loop sends some of these frames, takes the new streams over, and visits in
each round all streams that are open: first those of whole files, then the ranges of deltas, then the ranges of
large files, each in the order of a hash table.

Batch streams, the manifest, and the answers to hash requests go out in between; they have frames of their own.
-/

namespace FastClone.SendLoop

open FastClone.Delta FastClone.Wire FastClone.Frames

/-! ### Sizes -/

/-- As `ResolveTransferOptions` clamps them. -/
structure TunedTransferOptions where
  streamLimit : ℕ
  chunkSize : ℕ
  streamLimit_ge : 1 ≤ streamLimit
  streamLimit_le : streamLimit ≤ 1024
  chunkSize_ge : 64 * 1024 ≤ chunkSize
  chunkSize_le : chunkSize ≤ 64 * 1024 * 1024

/-- `EffectiveChunkSizeForStreams`: a multiple of 4 KiB. -/
def effectiveChunkSizeForStreams (configuredChunkSize streamLimit : ℕ) : ℕ :=
  let base :=
    if streamLimit ≤ 16 then max configuredChunkSize (1024 * 1024)
    else if streamLimit ≤ 32 then max configuredChunkSize (512 * 1024)
    else configuredChunkSize
  max (base / 4096 * 4096) 4096

/-- The tuning of the session, and the bytes behind each file handle of the driver. -/
structure Config where
  tuned : TunedTransferOptions
  content : ℕ → Bytes

def Config.effectiveChunkSize (cfg : Config) : ℕ := effectiveChunkSizeForStreams cfg.tuned.chunkSize cfg.tuned.streamLimit

def Config.perStreamBurstBytes (cfg : Config) : ℕ :=
  if cfg.tuned.streamLimit ≤ 8 then max (2 * 1024 * 1024) (cfg.effectiveChunkSize * 2) else cfg.effectiveChunkSize

/-! ### Reads -/

/-- The answer of the driver: a hard error (or a queue that stays full), or so many bytes at most. -/
inductive Reply where
  | error
  | data (n : ℕ)

/-- `DriverReadRangeChunk`: the bytes, and `err`. No more than `want` bytes come, and they are those at the
offset. -/
def driverReadRangeChunk (content : ℕ → Bytes) (fileId offset want : ℕ) : Reply → Bytes × Bool
  | .error => ([], true)
  | .data n => (((content fileId).drop offset).take (min n want), false)

/-! ### Whole files -/

structure ServerStream where
  relativePath : Bytes
  fileId : ℕ
  fileRemaining : ℕ
  nextReadOffset : ℕ

def frame (type : MsgType) (streamId : UInt32) (payload : Bytes) : Frame := ⟨type.toByte, streamId, payload⟩

/-- The loop of one visit: the stream unless it is closed, and its frames. -/
def ServerStream.burst (cfg : Config) (id : UInt32) (reply : ℕ → Reply) (n burstBytes : ℕ) (ss : ServerStream) :
    Option ServerStream × List Frame :=
  if _hburst : burstBytes < cfg.perStreamBurstBytes then
    if ss.fileRemaining = 0 then (none, [frame .fileEnd id []])
    else
      let toRead := min ss.fileRemaining cfg.effectiveChunkSize
      let r := driverReadRangeChunk cfg.content ss.fileId ss.nextReadOffset (toRead % 2 ^ 32) (reply n)
      if _hgot : r.2 = true ∨ r.1.length = 0 then (none, [frame .fileError id []])
      else
        let rest := burst cfg id reply (n + 1) (burstBytes + r.1.length) { ss with
          nextReadOffset := ss.nextReadOffset + r.1.length
          fileRemaining := ss.fileRemaining - r.1.length }
        (rest.1, frame .fileChunk id r.1 :: rest.2)
  else (some ss, [])
termination_by cfg.perStreamBurstBytes - burstBytes
decreasing_by
  have hpos : r.1.length ≠ 0 := fun h => _hgot (Or.inr h)
  show cfg.perStreamBurstBytes - (burstBytes + r.1.length) < cfg.perStreamBurstBytes - burstBytes
  omega

def ServerStream.visit (cfg : Config) (id : UInt32) (reply : ℕ → Reply) (ss : ServerStream) :
    Option ServerStream × List Frame :=
  ss.burst cfg id reply 0 0

/-! ### Ranges -/

structure ServerRangeStream where
  relativePath : Bytes
  remaining : ℕ
  errored : Bool := false
  fileId : ℕ
  nextReadOffset : ℕ

/-- The inner loop of one visit: the stream after it, and the chunks. -/
def ServerRangeStream.burst (cfg : Config) (reply : ℕ → Reply) (n burstBytes : ℕ) (rs : ServerRangeStream) :
    ServerRangeStream × List Bytes :=
  if _hburst : 0 < rs.remaining ∧ burstBytes < cfg.perStreamBurstBytes then
    let toRead := min rs.remaining cfg.effectiveChunkSize
    let r := driverReadRangeChunk cfg.content rs.fileId rs.nextReadOffset (toRead % 2 ^ 32) (reply n)
    if _hgot : r.2 = true ∨ r.1.length = 0 then ({ rs with errored := true }, [])
    else
      let rest := burst cfg reply (n + 1) (burstBytes + r.1.length) { rs with
        nextReadOffset := rs.nextReadOffset + r.1.length
        remaining := rs.remaining - r.1.length }
      (rest.1, r.1 :: rest.2)
  else (rs, [])
termination_by cfg.perStreamBurstBytes - burstBytes
decreasing_by
  have hpos : r.1.length ≠ 0 := fun h => _hgot (Or.inr h)
  show cfg.perStreamBurstBytes - (burstBytes + r.1.length) < cfg.perStreamBurstBytes - burstBytes
  omega

/-- The two loops over range streams differ in the frames. -/
structure Family where
  chunk : MsgType
  finish : MsgType
  error : MsgType
  encodeError : Bytes → Codec.Stream Unit

def deltaFamily : Family := ⟨.deltaRangeChunk, .deltaRangeEnd, .deltaError, encodeDeltaError⟩

def fileRangeFamily : Family := ⟨.fileRangeData, .fileRangeEnd, .fileRangeError, encodeFileRangeError⟩

/-- The bytes of an encoder. A path that came in a request fits. -/
def encoded (w : Codec.Stream Unit) : Bytes :=
  match w [] with
  | .ok (_, bs) => bs
  | .error _ => []

def Family.errorFrame (family : Family) (id : UInt32) (relativePath : Bytes) : Frame :=
  frame family.error id (encoded (family.encodeError relativePath))

def ServerRangeStream.visit (family : Family) (cfg : Config) (id : UInt32) (reply : ℕ → Reply)
    (rs : ServerRangeStream) : Option ServerRangeStream × List Frame :=
  let r := rs.burst cfg reply 0 0
  let chunks := r.2.map (frame family.chunk id)
  if r.1.errored then (none, chunks ++ [family.errorFrame id r.1.relativePath])
  else if r.1.remaining = 0 then (none, chunks ++ [frame family.finish id []])
  else (some r.1, chunks)

/-! ### The session -/

/-- The streams of one kind: those handed over (`pendingNew…`), and those taken over (`active…`). -/
structure Table (σ : Type) where
  pendingNew : List (UInt32 × σ) := []
  active : List (UInt32 × σ) := []

def Table.push {σ : Type} (t : Table σ) (id : UInt32) (stream : σ) : Table σ :=
  { t with pendingNew := t.pendingNew ++ [(id, stream)] }

/-- A round over the streams in `order`, with the new ones among them. -/
def Table.round {σ : Type} (visit : UInt32 → σ → Option σ × List Frame) (order : List (UInt32 × σ)) :
    Table σ × List Frame :=
  (⟨[], (Mux.visitAll visit order).1⟩, (Mux.visitAll visit order).2)

/-- An open stream of any kind. -/
inductive Served where
  | file (ss : ServerStream)
  | deltaRange (rs : ServerRangeStream)
  | fileRange (rs : ServerRangeStream)

/-- A stream that was opened: how it started, and what the reads of each round since would return. -/
structure Opened where
  id : UInt32
  start : Served
  replies : List (ℕ → Reply) := []

structure State where
  streams : Table ServerStream := {}
  rangeStreams : Table ServerRangeStream := {}
  fileRangeStreams : Table ServerRangeStream := {}
  outboundHigh : List Frame := []
  sent : List Frame := []
  opened : List Opened := []
  /-- The answers to the requests that were refused. -/
  refused : List Frame := []

inductive Event where
  /-- `FileOpen`, with what `file_size` and `openFile` return. -/
  | fileOpen (id : UInt32) (rel : Bytes) (fileSize : Option UInt64) (fileId : ℕ)
  | deltaRangeOpen (id : UInt32) (req : RangeRequest) (fileId : ℕ)
  | fileRangeOpen (id : UInt32) (req : RangeRequest) (fileId : ℕ)
  /-- One turn of the send loop: the orders of the three tables, and what the reads of each stream return. -/
  | round (streams : List (UInt32 × ServerStream)) (rangeStreams fileRangeStreams : List (UInt32 × ServerRangeStream))
      (reply : UInt32 → ℕ → Reply)

def State.refuse (s : State) (f : Frame) : State :=
  { s with
    outboundHigh := s.outboundHigh ++ [f]
    refused := s.refused ++ [f] }

def State.fileOpen (s : State) (id : UInt32) (rel : Bytes) (fileSize : Option UInt64) (fileId : ℕ) : State :=
  match fileSize with
  | none => s.refuse (frame .fileError id rel)
  | some size =>
    if 0 < size.toNat ∧ fileId = 0 then s.refuse (frame .fileError id rel)
    else
      let st : ServerStream := ⟨rel, if 0 < size.toNat then fileId else 0, size.toNat, 0⟩
      { s with
        streams := s.streams.push id st
        opened := s.opened ++ [⟨id, .file st, []⟩] }

/-- The checks that both kinds of ranges share, and the stream if they pass. -/
def openRange (req : RangeRequest) (fileId : ℕ) : Option ServerRangeStream :=
  if req.length.toNat = 0 ∨ req.offset.toNat > 2 ^ 64 - 1 - req.length.toNat then none
  else if fileId = 0 then none
  else some ⟨req.relPath, req.length.toNat, false, fileId, req.offset.toNat⟩

def State.deltaRangeOpen (s : State) (id : UInt32) (req : RangeRequest) (fileId : ℕ) : State :=
  match openRange req fileId with
  | none => s.refuse (deltaFamily.errorFrame id req.relPath)
  | some rs => { s with
    rangeStreams := s.rangeStreams.push id rs
    opened := s.opened ++ [⟨id, .deltaRange rs, []⟩] }

def State.fileRangeOpen (s : State) (id : UInt32) (req : RangeRequest) (fileId : ℕ) : State :=
  match openRange req fileId with
  | none => s.refuse (fileRangeFamily.errorFrame id req.relPath)
  | some rs => { s with
    fileRangeStreams := s.fileRangeStreams.push id rs
    opened := s.opened ++ [⟨id, .fileRange rs, []⟩] }

def highBudget : ℕ := 256

def State.round (cfg : Config) (s : State) (streams : List (UInt32 × ServerStream))
    (rangeStreams fileRangeStreams : List (UInt32 × ServerRangeStream)) (reply : UInt32 → ℕ → Reply) : State :=
  let files := Table.round (fun id ss => ss.visit cfg id (reply id)) streams
  let deltas := Table.round (fun id rs => rs.visit deltaFamily cfg id (reply id)) rangeStreams
  let ranges := Table.round (fun id rs => rs.visit fileRangeFamily cfg id (reply id)) fileRangeStreams
  { s with
    streams := files.1
    rangeStreams := deltas.1
    fileRangeStreams := ranges.1
    outboundHigh := s.outboundHigh.drop highBudget
    sent := s.sent ++ (s.outboundHigh.take highBudget ++ (files.2 ++ (deltas.2 ++ ranges.2)))
    opened := s.opened.map fun o => { o with replies := o.replies ++ [reply o.id] } }

/-- The stream ids of the requests so far. -/
def State.ids (s : State) : List UInt32 := s.opened.map Opened.id ++ s.refused.map Frame.streamId

/-- Stream ids are distinct. The new streams are taken over before the loops, which go through the tables in
whatever order they have. -/
def State.can (s : State) : Event → Prop
  | .fileOpen id _ _ _ | .deltaRangeOpen id _ _ | .fileRangeOpen id _ _ => id ∉ s.ids
  | .round streams rangeStreams fileRangeStreams _ =>
    streams.Perm (s.streams.active ++ s.streams.pendingNew) ∧
      rangeStreams.Perm (s.rangeStreams.active ++ s.rangeStreams.pendingNew) ∧
      fileRangeStreams.Perm (s.fileRangeStreams.active ++ s.fileRangeStreams.pendingNew)

def State.next (cfg : Config) (s : State) : Event → State
  | .fileOpen id rel fileSize fileId => s.fileOpen id rel fileSize fileId
  | .deltaRangeOpen id req fileId => s.deltaRangeOpen id req fileId
  | .fileRangeOpen id req fileId => s.fileRangeOpen id req fileId
  | .round streams rangeStreams fileRangeStreams reply => s.round cfg streams rangeStreams fileRangeStreams reply

def machine (cfg : Config) : Runs.Machine State Event where
  init := {}
  can := State.can
  next := State.next cfg

/-! ### A stream by itself -/

def Served.visit (cfg : Config) (id : UInt32) (reply : ℕ → Reply) : Served → Option Served × List Frame
  | .file ss => ((ss.visit cfg id reply).1.map .file, (ss.visit cfg id reply).2)
  | .deltaRange rs => ((rs.visit deltaFamily cfg id reply).1.map .deltaRange, (rs.visit deltaFamily cfg id reply).2)
  | .fileRange rs =>
    ((rs.visit fileRangeFamily cfg id reply).1.map .fileRange, (rs.visit fileRangeFamily cfg id reply).2)

/-- What the stream does if there are no others. -/
def Opened.alone (cfg : Config) (o : Opened) : Option Served × List Frame :=
  Mux.serve (fun reply st => Served.visit cfg o.id reply st) o.replies o.start

/-- The frames sent on a stream. -/
def State.framesOn (s : State) (id : UInt32) : List Frame := Mux.on Frame.streamId id s.sent

end FastClone.SendLoop
