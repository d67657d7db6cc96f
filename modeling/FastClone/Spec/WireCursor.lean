import FastClone.Lib.Cursor
import FastClone.Spec.Wire

/-!
# Decoding with a cursor (`protocol.cpp`, `protocol_codec.cpp`)

The decoders as the source writes them: a payload, an index into it, a bound check of
each decoder's own and then raw accesses. `Spec/Wire` has them over the bytes that are
left, where an access cannot leave the payload.
-/

namespace FastClone.WireCursor

open Cursor FastClone.Delta
open FastClone.Wire (Hash arrayOf AuthOkRole AdvertisedEndpoint AuthOkInfo SessionJoinInfo CheckAuthInfo
  FileEntry BatchFileRecord BlockSigResponseInfo RangeRequest Message Kind)

/-! ### Primitives of `protocol.cpp` -/

/-- `ReadU16`. -/
def readU16 : Reader UInt16 :=
  word 2 "ReadU16 out of range" fun cursor => do
    let b0 ← byteAt cursor
    let b1 ← byteAt (cursor + 1)
    pure (b0.toUInt16 ||| (b1.toUInt16 <<< 8))

/-- `ReadU32`. -/
def readU32 : Reader UInt32 :=
  word 4 "ReadU32 out of range" fun cursor => do
    let b0 ← byteAt cursor
    let b1 ← byteAt (cursor + 1)
    let b2 ← byteAt (cursor + 2)
    let b3 ← byteAt (cursor + 3)
    pure (b0.toUInt32 ||| (b1.toUInt32 <<< 8) ||| (b2.toUInt32 <<< 16) ||| (b3.toUInt32 <<< 24))

/-- The loop of `ReadU64` over the byte indices that are left. -/
def readU64Loop (cursor : ℕ) (value : UInt64) : List ℕ → Reader UInt64
  | [] => pure value
  | i :: is => do
    let b ← byteAt (cursor + i)
    readU64Loop cursor (value ||| (b.toUInt64 <<< UInt64.ofNat (i * 8))) is

/-- `ReadU64`. -/
def readU64 : Reader UInt64 :=
  word 8 "ReadU64 out of range" fun cursor => readU64Loop cursor 0 (List.range 8)

/-- `ReadI64`. -/
def readI64 : Reader Int64 := do
  let value ← readU64
  pure value.toInt64

/-- A bound check and `std::copy` of `n` bytes. -/
def copy (n : ℕ) (e : String) : Reader Bytes := word n e fun cursor => bytesAt cursor n

/-- `ReadString`. -/
def readString : Reader Bytes := do
  let len ← readU16
  copy len.toNat "ReadString out of range"

/-! ### Decoders -/

def readEndpoint : Reader AdvertisedEndpoint := do
  let endpoint ← readString
  let nicGroup ← readU16
  pure { endpoint, nicGroup }

def decodeAuthOk : Reader AuthOkInfo := do
  let roleByte ← popOr "AuthOk payload too short"
  let sessionId ← readString
  let addrCount ← readU16
  let serverAddrs ← collect readEndpoint addrCount.toNat
  let capabilities ← ifMore 0 pop
  let extensionString ← ifMore [] readString
  pure {
    role := if roleByte = AuthOkRole.joinAck.toByte then .joinAck else .newSession
    sessionId, serverAddrs, capabilities, extensionString }

def decodeSessionJoin : Reader SessionJoinInfo := do
  let sessionId ← readString
  let password ← readString
  let capabilities ← ifMore 0 pop
  let extensionString ← ifMore [] readString
  pure { sessionId, password, capabilities, extensionString }

def decodeCheckAuth : Reader CheckAuthInfo := do
  let password ← readString
  let flags ← ifMore 0 pop
  pure { password, flags }

def decodeManifestEntry : Reader FileEntry := do
  let isDirectory ← popOr "Manifest payload too short"
  let relativePath ← readString
  let fileSize ← readU64
  let mtimeNs ← readI64
  pure { relativePath, isDirectory := isDirectory != 0, fileSize, mtimeNs }

def decodeHashResponse : Reader (Bytes × Hash) := do
  let relPath ← readString
  let hash ← copy 16 "Hash response payload invalid"
  pure (relPath, arrayOf hash)

def decodeFileBatchRequest : Reader (List Bytes) := do
  let count ← readU16
  collect readString count.toNat

def readBatchFileRecord : Reader BatchFileRecord := do
  let ok ← popOr "Batch open response invalid"
  let relativePath ← readString
  let fileSize ← readU64
  let mtimeNs ← readI64
  pure { relativePath, fileSize, mtimeNs, ok := ok != 0 }

def decodeFileBatchOpenResponse : Reader (List BatchFileRecord) := do
  let count ← readU16
  collect readBatchFileRecord count.toNat

def readBlockSig (strongLen : UInt8) : Reader BlockSig := do
  let weak ← readU32
  let strong ← copy strongLen.toNat "BlockSigResponse strong checksum truncated"
  pure { weak, strong := arrayOf strong }

def decodeBlockSigResponse : Reader BlockSigResponseInfo := do
  let relPath ← readString
  let fileHash ← copy 16 "BlockSigResponse file hash truncated"
  let fileSize ← readU64
  let blockSize ← readU32
  let blockCount ← readU32
  let strongLen ← popOr "BlockSigResponse payload truncated"
  ensure (strongLen ≤ 16) "BlockSigResponse strongLen out of range"
  let blocks ← collect (readBlockSig strongLen) blockCount.toNat
  pure { relPath, fileHash := arrayOf fileHash, sig := { fileSize, blockSize, blockCount, strongLen, blocks } }

/-- The fields of a range request. -/
def readRange : Reader RangeRequest := do
  let relPath ← readString
  let offset ← readU64
  let length ← readU64
  pure { relPath, offset, length }

def decodeDeltaRangeOpen : Reader RangeRequest := readRange

def decodeFileRangeOpen : Reader RangeRequest := readRange

/-- The decoder of each kind; five of them read a bare path. -/
def read : Kind → Reader Message
  | .authOk => Message.authOk <$> decodeAuthOk
  | .sessionJoin => Message.sessionJoin <$> decodeSessionJoin
  | .checkAuth => Message.checkAuth <$> decodeCheckAuth
  | .manifestEntry => Message.manifestEntry <$> decodeManifestEntry
  | .hashRequest => Message.hashRequest <$> readString
  | .hashResponse => (fun value => Message.hashResponse value.1 value.2) <$> decodeHashResponse
  | .fileOpen => Message.fileOpen <$> readString
  | .fileBatchRequest => Message.fileBatchRequest <$> decodeFileBatchRequest
  | .fileBatchOpenResponse => Message.fileBatchOpenResponse <$> decodeFileBatchOpenResponse
  | .blockSigRequest => Message.blockSigRequest <$> readString
  | .blockSigResponse => Message.blockSigResponse <$> decodeBlockSigResponse
  | .deltaError => Message.deltaError <$> readString
  | .deltaRangeOpen => Message.deltaRangeOpen <$> decodeDeltaRangeOpen
  | .fileRangeOpen => Message.fileRangeOpen <$> decodeFileRangeOpen
  | .fileRangeError => Message.fileRangeError <$> readString

/-- `Decode…`: the cursor starts at 0 and is dropped at the end. -/
def decode (k : Kind) (payload : Bytes) : Except Fault Message := (read k 0 payload).map Prod.fst

end FastClone.WireCursor
