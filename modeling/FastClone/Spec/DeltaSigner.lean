import FastClone.Lib.Incremental
import FastClone.Spec.Delta

/-!
# The streaming signer (`delta.cpp`, `StreamingSigner`)

The server signs a file while it reads it: the weak sums, the strong state and the
whole-file state are carried over calls of `update`, and a block is closed when its
last byte has arrived. `finish` refuses when the bytes fed do not add up to the size
the signer was built for.

The hash library (XXH3-128) is a parameter: an incremental digest, the one-shot
function and the two byte layouts of a digest that the source uses. Allocation
failures of its states are left out.
-/

namespace FastClone.Delta

/-- XXH3-128 as the source uses it. -/
structure Xxh3 where
  Digest : Type
  stream : Incremental UInt8 Digest
  xxh3_128bits : Bytes → Digest
  /-- `XXH128_canonicalFromHash`: big-endian bytes. -/
  canonical : Digest → Strong
  /-- `memcpy` of the `XXH128_hash_t`. -/
  raw : Digest → Strong

/-- `StrongHash`. -/
def Xxh3.strongHash (X : Xxh3) (data : Bytes) : Strong := X.canonical (X.xxh3_128bits data)

/-- `ComputeBufferHash`. -/
def Xxh3.computeBufferHash (X : Xxh3) (data : Bytes) : Strong := X.raw (X.xxh3_128bits data)

/-- `StreamingSignerState`. -/
structure StreamingSigner (X : Xxh3) where
  fileSize : ℕ
  blockSize : ℕ := 0
  blockCount : ℕ := 0
  consumed : ℕ := 0
  curBlockIndex : ℕ := 0
  /-- Bytes fed into the current block. -/
  curBlockFilled : ℕ := 0
  /-- Expected length of the current block. -/
  curBlockLen : ℕ := 0
  weakS1 : UInt32 := 0
  weakS2 : UInt32 := 0
  weakJ : UInt32 := 0
  blockState : X.stream.State := X.stream.reset
  fileState : X.stream.State := X.stream.reset
  sig : SignatureSet

/-- `StreamingResult`. -/
structure StreamingResult where
  sig : SignatureSet
  fileHash : Strong

namespace StreamingSigner

variable {X : Xxh3}

/-- The constructor. -/
def init (X : Xxh3) (fileSize : ℕ) : StreamingSigner X :=
  if fileSize = 0 then
    { fileSize := fileSize
      sig := { fileSize := fileSize, blockSize_lt := SignatureSet.zero_lt, blockCount_lt := SignatureSet.zero_lt } }
  else
    let blockSize := chooseBlockSize fileSize
    let blockCount := u32 (sub64 (add64 fileSize blockSize) 1 / blockSize)
    { fileSize := fileSize
      blockSize := blockSize
      blockCount := blockCount
      curBlockLen := u32 (min blockSize fileSize)
      sig :=
        { fileSize := fileSize
          blockSize := blockSize
          blockCount := blockCount
          strongLen := chooseStrongLen blockCount
          blockSize_lt := chooseBlockSize_lt fileSize
          blockCount_lt := u32_lt _ } }

/-- The weak sums over the next bytes of the block: the arithmetic of `WeakInit`. -/
def weakFeed (acc : UInt32 × UInt32 × UInt32) (piece : Bytes) : UInt32 × UInt32 × UInt32 :=
  piece.foldl (fun a x =>
    (a.1 + x.toUInt32, a.2.1 + (a.2.2 + 1) * x.toUInt32, a.2.2 + 1)) acc

/-- A full block: its signature is stored and the block state starts over. The strong
state is reset only if another block follows. -/
def closeBlock (s : StreamingSigner X) : StreamingSigner X :=
  let bs : BlockSig :=
    ⟨((s.weakS2 &&& 0xFFFF) <<< 16) ||| (s.weakS1 &&& 0xFFFF),
      X.canonical (X.stream.digest s.blockState)⟩
  let s := { s with
    sig := { s.sig with blocks := s.sig.blocks.push bs }
    weakS1 := 0
    weakS2 := 0
    weakJ := 0
    curBlockFilled := 0
    curBlockIndex := s.curBlockIndex + 1 }
  if s.curBlockIndex < s.blockCount then
    { s with
      curBlockLen :=
        u32 (min s.blockSize (sub64 s.fileSize (mul64 s.curBlockIndex s.blockSize)))
      blockState := X.stream.reset }
  else s

/-- The weak sums, the strong state and the fill level take the next bytes of the block. -/
def fill (s : StreamingSigner X) (piece : Bytes) : StreamingSigner X :=
  let weak := weakFeed (s.weakS1, s.weakS2, s.weakJ) piece
  { s with
    weakS1 := weak.1
    weakS2 := weak.2.1
    weakJ := weak.2.2
    blockState :=
      if piece.length > 0 then X.stream.update s.blockState piece else s.blockState
    curBlockFilled := u32 (s.curBlockFilled + piece.length) }

/-- The bytes of `rest` that still fit into the current block. -/
def span (s : StreamingSigner X) (rest : Bytes) : ℕ :=
  let remainingInBlock := u32 (s.curBlockLen + 2 ^ 32 - s.curBlockFilled)
  min remainingInBlock rest.length

/-- One iteration of the loop of `Update`; `rest` is `data[pos..]`. -/
def absorb (s : StreamingSigner X) (rest : Bytes) : StreamingSigner X × Bytes :=
  let span := s.span rest
  let s := s.fill (rest.take span)
  (if s.curBlockFilled = s.curBlockLen then s.closeBlock else s, rest.drop span)

/-- The loop of `Update`, with fuel: `none` when it has not ended after that many
iterations. -/
def updateLoop : ℕ → StreamingSigner X → Bytes → Option (StreamingSigner X)
  | fuel, s, rest =>
    if rest ≠ [] ∧ s.curBlockIndex < s.blockCount then
      match fuel with
      | 0 => none
      | fuel + 1 => updateLoop fuel (s.absorb rest).1 (s.absorb rest).2
    else some s

/-- `Update`: the whole chunk feeds the whole-file state, then the blocks. -/
def update (s : StreamingSigner X) (data : Bytes) : Option (StreamingSigner X) :=
  updateLoop data.length
    { s with
      fileState :=
        if data.length > 0 then X.stream.update s.fileState data else s.fileState
      consumed := add64 s.consumed data.length } data

/-- Consecutive calls of `Update`. -/
def feed (s : StreamingSigner X) (chunks : List Bytes) : Option (StreamingSigner X) :=
  chunks.foldlM update s

/-- `Finish`. -/
def finish (s : StreamingSigner X) : Except String StreamingResult :=
  if s.consumed ≠ s.fileSize then
    .error "StreamingSigner: fed byte count does not match fileSize"
  else .ok ⟨s.sig, X.raw (X.stream.digest s.fileState)⟩

end StreamingSigner

end FastClone.Delta
