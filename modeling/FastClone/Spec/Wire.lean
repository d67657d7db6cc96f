import FastClone.Lib.Codec
import FastClone.Spec.Delta

/-!
# Message payloads (`protocol.cpp`, `protocol_codec.h`, `protocol_codec.cpp`)

Every control message has an encoder that appends its fields to a payload and a
decoder that reads them back with a cursor. The cursor is modelled by the bytes
that are left. Strings are byte strings; the fields have the widths of the source.
-/

namespace FastClone.Wire

open Codec FastClone.Delta

/-! ### Primitives of `protocol.cpp` -/

def kUint16Max : ℕ := 65535

/-- `AppendU16`. -/
def appendU16 (value : UInt16) : Stream Unit :=
  put [(value &&& 0xFF).toUInt8, ((value >>> 8) &&& 0xFF).toUInt8]

/-- `AppendU32`. -/
def appendU32 (value : UInt32) : Stream Unit :=
  put [(value &&& 0xFF).toUInt8, ((value >>> 8) &&& 0xFF).toUInt8,
    ((value >>> 16) &&& 0xFF).toUInt8, ((value >>> 24) &&& 0xFF).toUInt8]

/-- `AppendU64`. -/
def appendU64 (value : UInt64) : Stream Unit :=
  put ((List.range 8).map fun i => ((value >>> UInt64.ofNat (i * 8)) &&& 0xFF).toUInt8)

/-- `AppendI64`. -/
def appendI64 (value : Int64) : Stream Unit := appendU64 value.toUInt64

/-- `ReadU16`. -/
def readU16 : Stream UInt16 := do
  let buf ← take 2 "ReadU16 out of range"
  pure ((buf.getD 0 0).toUInt16 ||| ((buf.getD 1 0).toUInt16 <<< 8))

/-- `ReadU32`. -/
def readU32 : Stream UInt32 := do
  let buf ← take 4 "ReadU32 out of range"
  pure ((buf.getD 0 0).toUInt32 ||| ((buf.getD 1 0).toUInt32 <<< 8) |||
    ((buf.getD 2 0).toUInt32 <<< 16) ||| ((buf.getD 3 0).toUInt32 <<< 24))

/-- `ReadU64`. -/
def readU64 : Stream UInt64 := do
  let buf ← take 8 "ReadU64 out of range"
  pure ((List.range 8).foldl
    (fun value i => value ||| ((buf.getD i 0).toUInt64 <<< UInt64.ofNat (i * 8))) 0)

/-- `ReadI64`. -/
def readI64 : Stream Int64 := do
  let value ← readU64
  pure value.toInt64

/-- `AppendString`. -/
def appendString (value : Bytes) : Stream Unit := do
  ensure (value.length ≤ kUint16Max) "String too long"
  appendU16 (UInt16.ofNat value.length)
  put value

/-- `ReadString`. -/
def readString : Stream Bytes := do
  let len ← readU16
  take len.toNat "ReadString out of range"

/-! ### Messages -/

/-- A 16-byte hash (`Hash256`). -/
abbrev Hash := Strong

/-- `std::copy` of some bytes into a zeroed array. -/
def arrayOf (bs : Bytes) : Hash := Vector.ofFn fun i => bs.getD i.val 0

inductive AuthOkRole where
  | newSession
  | joinAck
  deriving DecidableEq, Repr

def AuthOkRole.toByte : AuthOkRole → UInt8
  | newSession => 0
  | joinAck => 1

structure AdvertisedEndpoint where
  endpoint : Bytes
  nicGroup : UInt16
  deriving DecidableEq, Repr

structure AuthOkInfo where
  role : AuthOkRole
  sessionId : Bytes
  serverAddrs : List AdvertisedEndpoint
  capabilities : UInt8
  extensionString : Bytes
  deriving DecidableEq, Repr

structure SessionJoinInfo where
  sessionId : Bytes
  password : Bytes
  capabilities : UInt8
  extensionString : Bytes
  deriving DecidableEq, Repr

structure CheckAuthInfo where
  password : Bytes
  flags : UInt8
  deriving DecidableEq, Repr

structure FileEntry where
  relativePath : Bytes
  isDirectory : Bool
  fileSize : UInt64
  mtimeNs : Int64
  deriving DecidableEq, Repr

/-- The fields of `BatchFileRecord` that travel (`absPath` does not). -/
structure BatchFileRecord where
  relativePath : Bytes
  fileSize : UInt64
  mtimeNs : Int64
  ok : Bool
  deriving DecidableEq, Repr

/-- `delta::SignatureSet`, in its machine widths. -/
structure SignatureSet where
  fileSize : UInt64
  blockSize : UInt32
  blockCount : UInt32
  strongLen : UInt8
  blocks : List BlockSig
  deriving DecidableEq

structure BlockSigResponseInfo where
  relPath : Bytes
  fileHash : Hash
  sig : SignatureSet
  deriving DecidableEq

/-- `DeltaRangeRequest` and `FileRangeOpenReq`, which have the same fields. -/
structure RangeRequest where
  relPath : Bytes
  offset : UInt64
  length : UInt64
  deriving DecidableEq, Repr

/-! ### Encoders -/

def flag (b : Bool) : UInt8 := if b then 1 else 0

def encodeAuthOk (info : AuthOkInfo) : Stream Unit := do
  put [info.role.toByte]
  appendString info.sessionId
  ensure (info.serverAddrs.length ≤ kUint16Max) "AuthOk server address list too long"
  appendU16 (UInt16.ofNat info.serverAddrs.length)
  putEach (fun addr => do
    appendString addr.endpoint
    appendU16 addr.nicGroup) info.serverAddrs
  put [info.capabilities]
  appendString info.extensionString

def encodeSessionJoin (info : SessionJoinInfo) : Stream Unit := do
  appendString info.sessionId
  appendString info.password
  put [info.capabilities]
  appendString info.extensionString

def encodeCheckAuth (info : CheckAuthInfo) : Stream Unit := do
  appendString info.password
  put [info.flags]

def encodeManifestEntry (entry : FileEntry) : Stream Unit := do
  put [flag entry.isDirectory]
  appendString entry.relativePath
  appendU64 entry.fileSize
  appendI64 entry.mtimeNs

def encodeHashResponse (relPath : Bytes) (hash : Hash) : Stream Unit := do
  appendString relPath
  put hash.toList

def encodeFileBatchRequest (relPaths : List Bytes) : Stream Unit := do
  ensure (relPaths.length ≤ kUint16Max) "Batch request too large"
  appendU16 (UInt16.ofNat relPaths.length)
  putEach appendString relPaths

def appendBatchFileRecord (file : BatchFileRecord) : Stream Unit := do
  put [flag file.ok]
  appendString file.relativePath
  appendU64 file.fileSize
  appendI64 file.mtimeNs

def encodeFileBatchOpenResponse (files : List BatchFileRecord) : Stream Unit := do
  ensure (files.length ≤ kUint16Max) "Batch response too large"
  appendU16 (UInt16.ofNat files.length)
  putEach appendBatchFileRecord files

def appendBlockSig (strongLen : UInt8) (bs : BlockSig) : Stream Unit := do
  appendU32 bs.weak
  put (bs.strong.toList.take strongLen.toNat)

def encodeBlockSigResponse (info : BlockSigResponseInfo) : Stream Unit := do
  ensure (info.sig.strongLen ≤ 16) "BlockSigResponse strongLen out of range"
  ensure (info.sig.blocks.length = info.sig.blockCount.toNat) "BlockSigResponse block count mismatch"
  appendString info.relPath
  put info.fileHash.toList
  appendU64 info.sig.fileSize
  appendU32 info.sig.blockSize
  appendU32 info.sig.blockCount
  put [info.sig.strongLen]
  putEach (appendBlockSig info.sig.strongLen) info.sig.blocks

/-- The fields of a range request. -/
def appendRange (req : RangeRequest) : Stream Unit := do
  appendString req.relPath
  appendU64 req.offset
  appendU64 req.length

def encodeDeltaRangeOpen (req : RangeRequest) : Stream Unit := appendRange req

def encodeFileRangeOpen (req : RangeRequest) : Stream Unit := appendRange req

-- Five messages are a bare path.
def encodeHashRequest (relPath : Bytes) : Stream Unit := appendString relPath

def encodeFileOpen (relPath : Bytes) : Stream Unit := appendString relPath

def encodeBlockSigRequest (relPath : Bytes) : Stream Unit := appendString relPath

def encodeDeltaError (relPath : Bytes) : Stream Unit := appendString relPath

def encodeFileRangeError (relPath : Bytes) : Stream Unit := appendString relPath

/-! ### Decoders -/

def readEndpoint : Stream AdvertisedEndpoint := do
  let endpoint ← readString
  let nicGroup ← readU16
  pure { endpoint, nicGroup }

/-- Trailing fields are read only while bytes remain. -/
def decodeAuthOk : Stream AuthOkInfo := do
  let roleByte ← next "AuthOk payload too short"
  let sessionId ← readString
  let addrCount ← readU16
  let serverAddrs ← takeEach readEndpoint addrCount.toNat
  let capabilities ← ifMore 0 (next "")
  let extensionString ← ifMore [] readString
  pure {
    role := if roleByte = AuthOkRole.joinAck.toByte then .joinAck else .newSession
    sessionId, serverAddrs, capabilities, extensionString }

def decodeSessionJoin : Stream SessionJoinInfo := do
  let sessionId ← readString
  let password ← readString
  let capabilities ← ifMore 0 (next "")
  let extensionString ← ifMore [] readString
  pure { sessionId, password, capabilities, extensionString }

def decodeCheckAuth : Stream CheckAuthInfo := do
  let password ← readString
  let flags ← ifMore 0 (next "")
  pure { password, flags }

def decodeManifestEntry : Stream FileEntry := do
  let isDirectory ← next "Manifest payload too short"
  let relativePath ← readString
  let fileSize ← readU64
  let mtimeNs ← readI64
  pure { relativePath, isDirectory := isDirectory != 0, fileSize, mtimeNs }

def decodeHashResponse : Stream (Bytes × Hash) := do
  let relPath ← readString
  let hash ← take 16 "Hash response payload invalid"
  pure (relPath, arrayOf hash)

def decodeFileBatchRequest : Stream (List Bytes) := do
  let count ← readU16
  takeEach readString count.toNat

def readBatchFileRecord : Stream BatchFileRecord := do
  let ok ← next "Batch open response invalid"
  let relativePath ← readString
  let fileSize ← readU64
  let mtimeNs ← readI64
  pure { relativePath, fileSize, mtimeNs, ok := ok != 0 }

def decodeFileBatchOpenResponse : Stream (List BatchFileRecord) := do
  let count ← readU16
  takeEach readBatchFileRecord count.toNat

def readBlockSig (strongLen : UInt8) : Stream BlockSig := do
  let weak ← readU32
  let strong ← take strongLen.toNat "BlockSigResponse strong checksum truncated"
  pure { weak, strong := arrayOf strong }

def decodeBlockSigResponse : Stream BlockSigResponseInfo := do
  let relPath ← readString
  let fileHash ← take 16 "BlockSigResponse file hash truncated"
  let fileSize ← readU64
  let blockSize ← readU32
  let blockCount ← readU32
  let strongLen ← next "BlockSigResponse payload truncated"
  ensure (strongLen ≤ 16) "BlockSigResponse strongLen out of range"
  let blocks ← takeEach (readBlockSig strongLen) blockCount.toNat
  pure { relPath, fileHash := arrayOf fileHash, sig := { fileSize, blockSize, blockCount, strongLen, blocks } }

/-- The fields of a range request. -/
def readRange : Stream RangeRequest := do
  let relPath ← readString
  let offset ← readU64
  let length ← readU64
  pure { relPath, offset, length }

def decodeDeltaRangeOpen : Stream RangeRequest := readRange

def decodeFileRangeOpen : Stream RangeRequest := readRange

def decodeHashRequest : Stream Bytes := readString

def decodeFileOpen : Stream Bytes := readString

def decodeBlockSigRequest : Stream Bytes := readString

def decodeDeltaError : Stream Bytes := readString

def decodeFileRangeError : Stream Bytes := readString

/-! ### All messages -/

/-- The messages with a codec. -/
inductive Message where
  | authOk (info : AuthOkInfo)
  | sessionJoin (info : SessionJoinInfo)
  | checkAuth (info : CheckAuthInfo)
  | manifestEntry (entry : FileEntry)
  | hashRequest (relPath : Bytes)
  | hashResponse (relPath : Bytes) (hash : Hash)
  | fileOpen (relPath : Bytes)
  | fileBatchRequest (relPaths : List Bytes)
  | fileBatchOpenResponse (files : List BatchFileRecord)
  | blockSigRequest (relPath : Bytes)
  | blockSigResponse (info : BlockSigResponseInfo)
  | deltaError (relPath : Bytes)
  | deltaRangeOpen (req : RangeRequest)
  | fileRangeOpen (req : RangeRequest)
  | fileRangeError (relPath : Bytes)
  deriving DecidableEq

inductive Kind where
  | authOk | sessionJoin | checkAuth | manifestEntry | hashRequest | hashResponse | fileOpen
  | fileBatchRequest | fileBatchOpenResponse | blockSigRequest | blockSigResponse | deltaError
  | deltaRangeOpen | fileRangeOpen | fileRangeError
  deriving DecidableEq, Repr

def Message.kind : Message → Kind
  | authOk _ => .authOk
  | sessionJoin _ => .sessionJoin
  | checkAuth _ => .checkAuth
  | manifestEntry _ => .manifestEntry
  | hashRequest _ => .hashRequest
  | hashResponse _ _ => .hashResponse
  | fileOpen _ => .fileOpen
  | fileBatchRequest _ => .fileBatchRequest
  | fileBatchOpenResponse _ => .fileBatchOpenResponse
  | blockSigRequest _ => .blockSigRequest
  | blockSigResponse _ => .blockSigResponse
  | deltaError _ => .deltaError
  | deltaRangeOpen _ => .deltaRangeOpen
  | fileRangeOpen _ => .fileRangeOpen
  | fileRangeError _ => .fileRangeError

/-- The encoder of each message. -/
def Message.write : Message → Stream Unit
  | authOk info => encodeAuthOk info
  | sessionJoin info => encodeSessionJoin info
  | checkAuth info => encodeCheckAuth info
  | manifestEntry entry => encodeManifestEntry entry
  | hashRequest relPath => encodeHashRequest relPath
  | hashResponse relPath hash => encodeHashResponse relPath hash
  | fileOpen relPath => encodeFileOpen relPath
  | fileBatchRequest relPaths => encodeFileBatchRequest relPaths
  | fileBatchOpenResponse files => encodeFileBatchOpenResponse files
  | blockSigRequest relPath => encodeBlockSigRequest relPath
  | blockSigResponse info => encodeBlockSigResponse info
  | deltaError relPath => encodeDeltaError relPath
  | deltaRangeOpen req => encodeDeltaRangeOpen req
  | fileRangeOpen req => encodeFileRangeOpen req
  | fileRangeError relPath => encodeFileRangeError relPath

/-- The decoder of each kind. -/
def Kind.read : Kind → Stream Message
  | authOk => Message.authOk <$> decodeAuthOk
  | sessionJoin => Message.sessionJoin <$> decodeSessionJoin
  | checkAuth => Message.checkAuth <$> decodeCheckAuth
  | manifestEntry => Message.manifestEntry <$> decodeManifestEntry
  | hashRequest => Message.hashRequest <$> decodeHashRequest
  | hashResponse => (fun value => Message.hashResponse value.1 value.2) <$> decodeHashResponse
  | fileOpen => Message.fileOpen <$> decodeFileOpen
  | fileBatchRequest => Message.fileBatchRequest <$> decodeFileBatchRequest
  | fileBatchOpenResponse => Message.fileBatchOpenResponse <$> decodeFileBatchOpenResponse
  | blockSigRequest => Message.blockSigRequest <$> decodeBlockSigRequest
  | blockSigResponse => Message.blockSigResponse <$> decodeBlockSigResponse
  | deltaError => Message.deltaError <$> decodeDeltaError
  | deltaRangeOpen => Message.deltaRangeOpen <$> decodeDeltaRangeOpen
  | fileRangeOpen => Message.fileRangeOpen <$> decodeFileRangeOpen
  | fileRangeError => Message.fileRangeError <$> decodeFileRangeError

/-- `Encode…`: an empty payload is filled. -/
def Message.encode (m : Message) : Except String Bytes := (m.write []).map Prod.snd

/-- `Decode…`: what is left after the last field is ignored. -/
def Kind.decode (k : Kind) (payload : Bytes) : Except String Message := (k.read payload).map Prod.fst

end FastClone.Wire
