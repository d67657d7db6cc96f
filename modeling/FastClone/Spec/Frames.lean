import FastClone.Spec.Wire

/-!
# Frames on a socket (`protocol.h`, `protocol.cpp`, `win_socket.cpp`)

A frame is a nine-byte header and a payload. The sender writes frames one by one, in
batches, or appends them to a buffer; the sockets take and deliver bytes in pieces of any
size, and loops on both sides carry on until all bytes are through.
-/

namespace FastClone.Frames

open FastClone.Delta

/-! ### Frames -/

inductive MsgType where
  | hello | auth | authOk | authFail | sessionJoin | checkAuth
  | manifestRequest | manifestEntry | manifestEnd | manifestProgress
  | hashRequest | hashResponse | blockSigRequest | blockSigResponse
  | deltaRangeOpen | deltaRangeChunk | deltaRangeEnd | deltaError
  | fileOpen | fileChunk | fileEnd | fileError | fileBatchOpen | fileBatchChunk | fileBatchEnd
  | fileRangeOpen | fileRangeData | fileRangeEnd | syncDone | fileRangeError | error
  deriving DecidableEq, Repr

def MsgType.toByte : MsgType → UInt8
  | hello => 1
  | auth => 2
  | authOk => 3
  | authFail => 4
  | sessionJoin => 5
  | checkAuth => 6
  | manifestRequest => 10
  | manifestEntry => 11
  | manifestEnd => 12
  | manifestProgress => 13
  | hashRequest => 20
  | hashResponse => 21
  | blockSigRequest => 22
  | blockSigResponse => 23
  | deltaRangeOpen => 24
  | deltaRangeChunk => 25
  | deltaRangeEnd => 26
  | deltaError => 27
  | fileOpen => 30
  | fileChunk => 31
  | fileEnd => 32
  | fileError => 33
  | fileBatchOpen => 34
  | fileBatchChunk => 35
  | fileBatchEnd => 36
  | fileRangeOpen => 37
  | fileRangeData => 38
  | fileRangeEnd => 39
  | syncDone => 40
  | fileRangeError => 41
  | error => 255

/-- `IsKnownMsgType`: the bytes that are a `MsgType`. -/
def isKnownMsgType (typeByte : UInt8) : Bool :=
  match typeByte.toNat with
  | 1 | 2 | 3 | 4 | 5 | 6 => true
  | 10 | 11 | 12 | 13 => true
  | 20 | 21 | 22 | 23 | 24 | 25 | 26 | 27 => true
  | 30 | 31 | 32 | 33 | 34 | 35 | 36 | 37 | 38 | 39 | 40 | 41 => true
  | 255 => true
  | _ => false

theorem isKnownMsgType_toByte (t : MsgType) : isKnownMsgType t.toByte = true := by
  cases t <;> rfl

/-- The type is kept as its byte: a `Frame` object may hold any. -/
structure Frame where
  type : UInt8
  streamId : UInt32
  payload : Bytes
  deriving DecidableEq, Repr

def kHeaderSize : ℕ := 9

/-- 1 GiB. -/
def kMaxSaneFramePayload : UInt32 := 1024 * 1024 * 1024

inductive Error where
  | corrupted (typeByte : UInt8) (streamId : UInt32) (payloadLen : ℕ)
  | sendFailed
  | recvFailed
  | desync (typeByte : UInt8) (streamId payloadLen : UInt32)
  deriving DecidableEq, Repr

/-- `static_cast<uint32_t>(frame.payload.size())`. -/
def Frame.payloadLen (f : Frame) : UInt32 := UInt32.ofNat f.payload.length

/-- The four bytes of a word in a header, lowest first. -/
def headerWord (v : UInt32) : Bytes :=
  [(v &&& 0xFF).toUInt8, ((v >>> 8) &&& 0xFF).toUInt8, ((v >>> 16) &&& 0xFF).toUInt8,
    ((v >>> 24) &&& 0xFF).toUInt8]

def Frame.header (f : Frame) : Bytes := f.type :: (headerWord f.streamId ++ headerWord f.payloadLen)

/-- `EncodeHeader`, with its guard. -/
def encodeHeader (f : Frame) : Except Error Bytes :=
  if isKnownMsgType f.type then .ok f.header
  else .error (.corrupted f.type f.streamId f.payload.length)

/-- `AppendEncodedFrame`, which has no guard. -/
def appendEncodedFrame (out : Bytes) (f : Frame) : Bytes := out ++ f.header ++ f.payload

/-! ### The sending socket -/

/-- What has left the sender, and what the following system calls will answer: at most so
many bytes are taken, and none is a failure. -/
structure Outbox where
  wire : Bytes
  answers : ℕ → ℕ

inductive Platform where
  | windows
  | posix
  deriving DecidableEq, Repr

/-- The platform and the number of buffers it takes in one call. -/
structure Net where
  platform : Platform
  iovLimit : ℕ
  iovLimit_pos : 0 < iovLimit

/-- One `send`, `writev` or `WSASend` of some bytes: how many went out. -/
def Outbox.write (s : Outbox) (offered : Bytes) : Except Error (ℕ × Outbox) :=
  match s.answers 0 with
  | 0 => .error .sendFailed
  | n + 1 =>
    let sent := min (n + 1) offered.length
    .ok (sent, { wire := s.wire ++ offered.take sent, answers := fun i => s.answers (i + 1) })

/-- The loop of `SendAll`; every round takes a byte, so `data.length` rounds are enough. -/
def sendLoop : ℕ → Outbox → Bytes → Except Error Outbox
  | 0, s, _ => .ok s
  | rounds + 1, s, data =>
    if data = [] then .ok s
    else do
      let (sent, s) ← s.write data
      sendLoop rounds s (data.drop sent)

/-- `SendAll`. -/
def sendAll (s : Outbox) (data : Bytes) : Except Error Outbox := sendLoop data.length s data

/-- The inner loop of `SendBuffersAll`: skip what was consumed. -/
def advance : ℕ → List Bytes → List Bytes
  | _, [] => []
  | consumed, b :: bs => if b.length ≤ consumed then advance (consumed - b.length) bs else b.drop consumed :: bs

/-- The outer loop of `SendBuffersAll`. -/
def sendBuffersLoop (limit : ℕ) : ℕ → Outbox → List Bytes → Except Error Outbox
  | 0, s, _ => .ok s
  | rounds + 1, s, pending =>
    if pending = [] then .ok s
    else do
      let (sent, s) ← s.write (pending.take limit).flatten
      sendBuffersLoop limit rounds s (advance sent pending)

/-- The buffers a call is given: 32-bit lengths on Windows, no empty ones elsewhere. -/
def Net.pending (net : Net) (buffers : List Bytes) : List Bytes :=
  match net.platform with
  | .windows => buffers.map fun b => b.take (b.length % 2 ^ 32)
  | .posix => buffers.filter (· ≠ [])

/-- `SendBuffersAll`; a round takes a byte or skips an empty buffer. -/
def sendBuffersAll (net : Net) (s : Outbox) (buffers : List Bytes) : Except Error Outbox :=
  let pending := net.pending buffers
  sendBuffersLoop net.iovLimit (pending.flatten.length + pending.length) s pending

/-- `SendFrame`. -/
def sendFrame (net : Net) (s : Outbox) (f : Frame) : Except Error Outbox := do
  let header ← encodeHeader f
  if f.payload = [] then sendAll s header else sendBuffersAll net s [header, f.payload]

def kFrameChunk : ℕ := 256

/-- The buffers of one group of a batch: headers, each followed by its payload if there is one. -/
def groupBuffers : List Frame → Except Error (List Bytes)
  | [] => .ok []
  | f :: fs => do
    let header ← encodeHeader f
    let rest ← groupBuffers fs
    if f.payload = [] then .ok (header :: rest) else .ok (header :: f.payload :: rest)

/-- The loop of `SendFrameBatch` over groups of `kFrameChunk`; `rounds` groups are enough. -/
def sendGroups (net : Net) : ℕ → Outbox → List Frame → Except Error Outbox
  | 0, s, _ => .ok s
  | rounds + 1, s, frames =>
    if frames = [] then .ok s
    else do
      let buffers ← groupBuffers (frames.take kFrameChunk)
      let s ← sendBuffersAll net s buffers
      sendGroups net rounds s (frames.drop kFrameChunk)

/-- `SendFrameBatch`. -/
def sendFrameBatch (net : Net) (s : Outbox) (frames : List Frame) : Except Error Outbox :=
  sendGroups net frames.length s frames

/-- One use of the sending side. -/
inductive Send where
  | frame (f : Frame)
  | batch (fs : List Frame)
  /-- Frames appended to one buffer, whose bytes are then put on the wire. -/
  | encoded (fs : List Frame)
  deriving Repr

def Send.frames : Send → List Frame
  | frame f => [f]
  | batch fs => fs
  | encoded fs => fs

def send (net : Net) (s : Outbox) : Send → Except Error Outbox
  | .frame f => sendFrame net s f
  | .batch fs => sendFrameBatch net s fs
  | .encoded fs => .ok { s with wire := s.wire ++ fs.foldl appendEncodedFrame [] }

/-- A connection's sends, one after the other. -/
def sends (net : Net) : Outbox → List Send → Except Error Outbox
  | s, [] => .ok s
  | s, x :: xs => do
    let s ← send net s x
    sends net s xs

/-! ### The receiving socket -/

/-- What is still to be received, and how the following calls split it. -/
structure Inbox where
  wire : Bytes
  splits : ℕ → ℕ

/-- The loop of `RecvAll`: a call returns between one byte and all that is wanted and there;
nothing there is the end of the stream. -/
def recvLoop : ℕ → Inbox → ℕ → Except Error (Bytes × Inbox)
  | 0, s, _ => .ok ([], s)
  | rounds + 1, s, remaining =>
    if remaining = 0 then .ok ([], s)
    else if s.wire = [] then .error .recvFailed
    else do
      let recved := min (max 1 (s.splits 0)) (min remaining s.wire.length)
      let (more, s') ← recvLoop rounds
        { wire := s.wire.drop recved, splits := fun i => s.splits (i + 1) } (remaining - recved)
      pure (s.wire.take recved ++ more, s')

/-- `RecvAll`. -/
def recvAll (s : Inbox) (length : ℕ) : Except Error (Bytes × Inbox) := recvLoop length s length

/-- A word of a received header, from byte `i` on. -/
def wordAt (header : Bytes) (i : ℕ) : UInt32 :=
  (header.getD i 0).toUInt32 ||| ((header.getD (i + 1) 0).toUInt32 <<< 8) |||
    ((header.getD (i + 2) 0).toUInt32 <<< 16) ||| ((header.getD (i + 3) 0).toUInt32 <<< 24)

/-- `RecvFrame`. -/
def recvFrame (s : Inbox) : Except Error (Frame × Inbox) := do
  let (header, s) ← recvAll s kHeaderSize
  let typeByte := header.getD 0 0
  let streamId := wordAt header 1
  let payloadLen := wordAt header 5
  if !isKnownMsgType typeByte || payloadLen > kMaxSaneFramePayload then
    throw (.desync typeByte streamId payloadLen)
  let (payload, s) ← if payloadLen > 0 then recvAll s payloadLen.toNat else pure ([], s)
  pure ({ type := typeByte, streamId, payload }, s)

/-- `RecvFrame` again and again until it throws, `rounds` times at most. -/
def recvRounds : ℕ → Inbox → List Frame
  | 0, _ => []
  | rounds + 1, s =>
    match recvFrame s with
    | .error _ => []
    | .ok (f, s) => f :: recvRounds rounds s

/-- Every frame takes a byte of the wire at least, so it is read to its end. -/
def recvFrames (s : Inbox) : List Frame := recvRounds (s.wire.length + 1) s

end FastClone.Frames
