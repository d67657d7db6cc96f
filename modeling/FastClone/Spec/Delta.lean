import Mathlib.Algebra.Ring.Nat
import Mathlib.Data.List.Basic

/-!
# Binary delta: signatures and the in-memory planner (`delta.h`, `delta.cpp`)

The new file is cut into blocks of `blockSize` bytes; each block is signed with a
rolling 32-bit weak checksum and a strong hash. `buildPlan` rolls the weak
checksum over the old file, confirms candidates with the strong hash and emits
copies (bytes found in the old file) and misses (bytes to download).

Sizes and offsets are natural numbers. Where the source narrows to 32 bits, or a
64-bit operation can wrap, the reduction is written out (`u32`, `add64`, `sub64`,
`mul64`). The strong hash (XXH3-128, a library function) is a parameter.
-/

namespace FastClone.Delta

/-- File contents and buffers. -/
abbrev Bytes := List UInt8

/-- A 128-bit strong hash, as 16 bytes. -/
abbrev Strong := Vector UInt8 16

/-- `static_cast<uint32_t>`. -/
def u32 (n : ℕ) : ℕ := n % 2 ^ 32

/-- 64-bit addition. -/
def add64 (a b : ℕ) : ℕ := (a + b) % 2 ^ 64

/-- 64-bit subtraction. -/
def sub64 (a b : ℕ) : ℕ := (a + 2 ^ 64 - b) % 2 ^ 64

/-- 64-bit multiplication. -/
def mul64 (a b : ℕ) : ℕ := (a * b) % 2 ^ 64

def kMinBlock : ℕ := 2048
def kMaxBlock : ℕ := 131072
def kBlockAlign : ℕ := 1024
def kBenefitPercentNum : ℕ := 65
def kBenefitPercentDen : ℕ := 100
def kPrefixPercent : ℕ := 5
def kPrefixCapBytes : ℕ := 256 * 2 ^ 20
def kPrefixFloorBytes : ℕ := 2 ^ 20
def kPrefixFloorBlocks : ℕ := 256
def kEarlyStopEvalStride : ℕ := 4 * 2 ^ 20
def kBuckets : ℕ := 2 ^ 16

/-! ### Weak checksum -/

/-- State of the rolling weak checksum. -/
structure RollingWeak where
  s1 : UInt32
  s2 : UInt32
  deriving DecidableEq, Repr

/-- `RollingWeak::value`. -/
def RollingWeak.value (w : RollingWeak) : UInt32 :=
  ((w.s2 &&& 0xFFFF) <<< 16) ||| (w.s1 &&& 0xFFFF)

/-- `WeakInit`: `s1` sums the bytes, `s2` weights byte `j` with `j + 1`. -/
def weakInit (X : Bytes) : RollingWeak :=
  let acc := X.foldl (fun (a : UInt32 × UInt32 × UInt32) x =>
    (a.1 + x.toUInt32, a.2.1 + (a.2.2 + 1) * x.toUInt32, a.2.2 + 1)) (0, 0, 0)
  ⟨acc.1 &&& 0xFFFF, acc.2.1 &&& 0xFFFF⟩

/-- `WeakRoll`: `s2` is updated with the old `s1`. -/
def weakRoll (w : RollingWeak) (outByte inByte : UInt8) (L : ℕ) : RollingWeak :=
  ⟨(w.s1 + inByte.toUInt32 - outByte.toUInt32) &&& 0xFFFF,
    (w.s2 + UInt32.ofNat L * inByte.toUInt32 - w.s1) &&& 0xFFFF⟩

/-- `BucketOf`. -/
def bucketOf (weak32 : UInt32) : ℕ :=
  (((weak32 >>> 16) ^^^ (weak32 &&& 0xFFFF)) &&& 0xFFFF).toNat

/-! ### Block size -/

/-- First loop of `Isqrt64`: the highest power of four at most `value`. The counter
bounds the loop: from `2^62` it takes at most 31 quarterings to reach 1. -/
def isqrtBit (value : ℕ) : ℕ → ℕ → ℕ
  | 0, bit => bit
  | n + 1, bit => if bit > value then isqrtBit value n (bit / 4) else bit

/-- Second loop of `Isqrt64` (`bit` reaches 0 after at most 32 quarterings). -/
def isqrtLoop : ℕ → ℕ → ℕ → ℕ → ℕ
  | 0, _, _, result => result
  | n + 1, bit, v, result =>
    if bit = 0 then result
    else if v ≥ add64 result bit then
      isqrtLoop n (bit / 4) (v - add64 result bit) (add64 (result / 2) bit)
    else isqrtLoop n (bit / 4) v (result / 2)

/-- `Isqrt64`. -/
def isqrt64 (value : ℕ) : ℕ :=
  if value = 0 then 0 else isqrtLoop 32 (isqrtBit value 31 (2 ^ 62)) value 0

/-- A 64-bit sum, with no value where it does not fit. -/
def checkedAdd64 (a b : ℕ) : Option ℕ := if a + b < 2 ^ 64 then some (a + b) else none

/-- A 64-bit difference, with no value where it would be negative. -/
def checkedSub64 (a b : ℕ) : Option ℕ := if b ≤ a then some (a - b) else none

/-- `isqrtBit`, with no value where the counter ends the loop before its condition does. -/
def isqrtBitChecked (value : ℕ) : ℕ → ℕ → Option ℕ
  | 0, bit => if bit > value then none else some bit
  | n + 1, bit => if bit > value then isqrtBitChecked value n (bit / 4) else some bit

/-- `isqrtLoop` with every sum and difference checked, and with no value where the counter
ends the loop before `bit` is 0. -/
def isqrtLoopChecked : ℕ → ℕ → ℕ → ℕ → Option ℕ
  | 0, bit, _, result => if bit = 0 then some result else none
  | n + 1, bit, v, result =>
    if bit = 0 then some result
    else do
      let trial ← checkedAdd64 result bit
      if v ≥ trial then
        let v ← checkedSub64 v trial
        let result ← checkedAdd64 (result / 2) bit
        isqrtLoopChecked n (bit / 4) v result
      else isqrtLoopChecked n (bit / 4) v (result / 2)

/-- `Isqrt64` with every sum and difference checked. -/
def isqrt64Checked (value : ℕ) : Option ℕ :=
  if value = 0 then some 0
  else do
    let bit ← isqrtBitChecked value 31 (2 ^ 62)
    isqrtLoopChecked 32 bit value 0

/-- `ChooseBlockSize`. -/
def chooseBlockSize (fileSize : ℕ) : ℕ :=
  let raw := isqrt64 fileSize
  let aligned := (raw + kBlockAlign - 1) / kBlockAlign * kBlockAlign
  let aligned := if aligned < kMinBlock then kMinBlock else aligned
  if aligned > kMaxBlock then kMaxBlock else aligned

theorem chooseBlockSize_le (fileSize : ℕ) : chooseBlockSize fileSize ≤ kMaxBlock := by
  unfold chooseBlockSize
  dsimp only
  split <;> split <;> omega

theorem kMinBlock_le_chooseBlockSize (fileSize : ℕ) : kMinBlock ≤ chooseBlockSize fileSize := by
  unfold chooseBlockSize kMinBlock kMaxBlock
  dsimp only
  split <;> split <;> omega

theorem chooseBlockSize_pos (fileSize : ℕ) : 0 < chooseBlockSize fileSize :=
  Nat.lt_of_lt_of_le (by decide) (kMinBlock_le_chooseBlockSize fileSize)

/-- `ChooseStrongLen`. -/
def chooseStrongLen (blockCount : ℕ) : ℕ :=
  if blockCount ≤ 2 ^ 16 then 8 else if blockCount ≤ 2 ^ 22 then 12 else 16

/-! ### Signatures -/

/-- `BlockSig`. -/
structure BlockSig where
  weak : UInt32
  strong : Strong
  deriving DecidableEq

instance : Inhabited BlockSig := ⟨⟨0, Vector.replicate 16 0⟩⟩

/-- `SignatureSet`. The block size and the block count are 32-bit fields. -/
structure SignatureSet where
  fileSize : ℕ := 0
  blockSize : ℕ := 0
  blockCount : ℕ := 0
  strongLen : ℕ := 0
  blocks : Array BlockSig := #[]
  blockSize_lt : blockSize < 2 ^ 32 := by decide
  blockCount_lt : blockCount < 2 ^ 32 := by decide

/-- The numbers of the empty signature, and of the ones that serve as examples. -/
theorem SignatureSet.zero_lt : 0 < 2 ^ 32 := by decide

theorem SignatureSet.one_lt : 1 < 2 ^ 32 := by decide

theorem SignatureSet.two_lt : 2 < 2 ^ 32 := by decide

theorem SignatureSet.blockSize_pos {sig : SignatureSet} (h : ¬ (sig.blockCount = 0 ∨ sig.blockSize = 0)) :
    0 < sig.blockSize := by omega

theorem u32_lt (n : ℕ) : u32 n < 2 ^ 32 := Nat.mod_lt n (by decide)

theorem chooseBlockSize_lt (fileSize : ℕ) : chooseBlockSize fileSize < 2 ^ 32 :=
  Nat.lt_of_le_of_lt (chooseBlockSize_le fileSize) (by decide)

/-- The bytes `[p, p + len)` of a buffer. -/
def slice (X : Bytes) (p len : ℕ) : Bytes := (X.drop p).take len

/-- `GenerateSignatures`. The block count is narrowed to 32 bits. -/
def generateSignatures (strongHash : Bytes → Strong) (data : Bytes) : SignatureSet :=
  let len := data.length
  if len = 0 then { fileSize := len } else
    let blockSize := chooseBlockSize len
    let blockCount := u32 (sub64 (add64 len blockSize) 1 / blockSize)
    { fileSize := len
      blockSize := blockSize
      blockCount := blockCount
      strongLen := chooseStrongLen blockCount
      blocks := (Array.range blockCount).map fun i =>
        let off := i * blockSize
        let X := slice data off (min blockSize (len - off))
        ⟨(weakInit X).value, strongHash X⟩
      blockSize_lt := chooseBlockSize_lt len
      blockCount_lt := u32_lt _ }

/-! ### Plans -/

structure CopyOp where
  srcOffsetOld : ℕ
  destOffsetNew : ℕ
  len : ℕ
  deriving DecidableEq, Repr

structure MissOp where
  destOffsetNew : ℕ
  len : ℕ
  deriving DecidableEq, Repr

structure DeltaStats where
  scannedBytes : ℕ := 0
  matchedBytes : ℕ := 0
  strongComputations : ℕ := 0
  weakCandidateHits : ℕ := 0
  earlyStopped : Bool := false
  deriving DecidableEq, Repr

structure DeltaPlan where
  copies : List CopyOp := []
  misses : List MissOp := []
  downloadBytes : ℕ := 0
  newFileBytes : ℕ := 0
  stats : DeltaStats := {}
  deriving DecidableEq, Repr

structure BuildOptions where
  enableEarlyStop : Bool := true
  prefixBytesOverride : ℕ := 0
  deriving DecidableEq, Repr

/-- `EarlyStopPrefixBytes`. -/
def earlyStopPrefixBytes (oldLen blockSize : ℕ) : ℕ :=
  let blockFloor := blockSize * kPrefixFloorBlocks
  let floorBytes := if blockFloor > kPrefixFloorBytes then blockFloor else kPrefixFloorBytes
  let pct := oldLen / 100 * kPrefixPercent + oldLen % 100 * kPrefixPercent / 100
  let pre := if floorBytes > pct then floorBytes else pct
  if pre > kPrefixCapBytes then kPrefixCapBytes else pre

/-- `U128`. -/
structure U128 where
  hi : ℕ
  lo : ℕ
  deriving DecidableEq, Repr

/-- `Mul64`, the portable branch. -/
def mul64Full (a b : ℕ) : U128 :=
  let aLo := a % 2 ^ 32
  let aHi := a / 2 ^ 32
  let bLo := b % 2 ^ 32
  let bHi := b / 2 ^ 32
  let lolo := mul64 aLo bLo
  let lohi := mul64 aLo bHi
  let hilo := mul64 aHi bLo
  let hihi := mul64 aHi bHi
  let cross := add64 (add64 (lolo / 2 ^ 32) (lohi % 2 ^ 32)) (hilo % 2 ^ 32)
  ⟨add64 (add64 (add64 hihi (lohi / 2 ^ 32)) (hilo / 2 ^ 32)) (cross / 2 ^ 32),
    (lolo % 2 ^ 32) ||| (cross * 2 ^ 32 % 2 ^ 64)⟩

/-- `LessEqual128`. -/
def lessEqual128 (x y : U128) : Bool := x.hi < y.hi || (x.hi = y.hi && x.lo ≤ y.lo)

/-- `ProjectedRejected`. -/
def projectedRejected (matchedBytes scannedBytes oldLen newFileBytes : ℕ) : Bool :=
  if scannedBytes = 0 then false else
    lessEqual128 (mul64Full matchedBytes (mul64 oldLen kBenefitPercentDen))
      (mul64Full newFileBytes (mul64 scannedBytes (kBenefitPercentDen - kBenefitPercentNum)))

/-- `BenefitRejected`. -/
def benefitRejected (downloadBytes newFileBytes : ℕ) : Bool :=
  mul64 downloadBytes kBenefitPercentDen ≥ mul64 newFileBytes kBenefitPercentNum

/-- The `blockLen` lambda of `BuildPlan`. -/
def SignatureSet.blockLen (sig : SignatureSet) (i : ℕ) : ℕ :=
  min sig.blockSize (sub64 sig.fileSize (i * sig.blockSize))

/-! ### Candidate layout -/

/-- `Entry`: a candidate block with its weak checksum inlined. -/
structure Entry where
  weak : UInt32 := 0
  blockIndex : ℕ := 0
  deriving DecidableEq, Repr, Inhabited

/-- The bucket-contiguous candidate layout: bucket `b` owns
`entries[bucketStart[b] .. bucketStart[b+1])`. -/
structure Csr where
  bucketStart : Array ℕ
  entries : Array Entry

/-- Counting pass over the full-length blocks. -/
def countBuckets (sig : SignatureSet) : Array ℕ × ℕ :=
  (List.range sig.blockCount).foldl (fun (a : Array ℕ × ℕ) i =>
    if sig.blockLen i ≠ sig.blockSize then a
    else (a.1.modify (bucketOf (sig.blocks.getD i default).weak + 1) (u32 <| · + 1), u32 (a.2 + 1)))
    (Array.replicate (kBuckets + 1) 0, 0)

/-- Prefix sums: `bucketStart[b + 1] += bucketStart[b]`, `b` ascending. -/
def prefixSums (starts : Array ℕ) : Array ℕ :=
  (List.range kBuckets).foldl (fun (a : Array ℕ) b => a.modify (b + 1) (u32 <| · + a.getD b 0)) starts

/-- Filling pass, block index descending. -/
def fillEntries (sig : SignatureSet) (bucketStart : Array ℕ) (fullBlockCount : ℕ) : Array Entry :=
  ((List.range sig.blockCount).reverse.foldl (fun (a : Array Entry × Array ℕ) i =>
    if sig.blockLen i ≠ sig.blockSize then a
    else
      let weak := (sig.blocks.getD i default).weak
      let b := bucketOf weak
      (a.1.setIfInBounds (a.2.getD b 0) ⟨weak, i⟩, a.2.modify b (u32 <| · + 1)))
    (Array.replicate fullBlockCount default, bucketStart.take kBuckets)).1

/-- The candidate layout built at the head of `BuildPlan`. -/
def buildCsr (sig : SignatureSet) : Csr :=
  let counted := countBuckets sig
  let bucketStart := prefixSums counted.1
  ⟨bucketStart, fillEntries sig bucketStart counted.2⟩

/-- A counter's update, with no value outside the array. -/
def modifyChecked (a : Array ℕ) (i : ℕ) (f : ℕ → ℕ) : Option (Array ℕ) :=
  if i < a.size then some (a.modify i f) else none

/-- `countBuckets` with every access checked. -/
def countBucketsChecked (sig : SignatureSet) : Option (Array ℕ × ℕ) :=
  (List.range sig.blockCount).foldlM (fun (a : Array ℕ × ℕ) i =>
    if sig.blockLen i ≠ sig.blockSize then some a
    else do
      let block ← sig.blocks[i]?
      let starts ← modifyChecked a.1 (bucketOf block.weak + 1) (u32 <| · + 1)
      some (starts, u32 (a.2 + 1)))
    (Array.replicate (kBuckets + 1) 0, 0)

/-- `prefixSums` with every access checked. -/
def prefixSumsChecked (starts : Array ℕ) : Option (Array ℕ) :=
  (List.range kBuckets).foldlM (fun (a : Array ℕ) b => do
    let before ← a[b]?
    modifyChecked a (b + 1) (u32 <| · + before)) starts

/-- One step of the filling pass with every access checked. -/
def fillStepChecked (sig : SignatureSet) (a : Array Entry × Array ℕ) (i : ℕ) :
    Option (Array Entry × Array ℕ) :=
  if sig.blockLen i ≠ sig.blockSize then some a
  else do
    let block ← sig.blocks[i]?
    let b := bucketOf block.weak
    let pos ← a.2[b]?
    let fillPos ← modifyChecked a.2 b (u32 <| · + 1)
    if pos < a.1.size then some (a.1.setIfInBounds pos ⟨block.weak, i⟩, fillPos) else none

/-- `fillEntries` with every access checked. -/
def fillEntriesChecked (sig : SignatureSet) (bucketStart : Array ℕ) (fullBlockCount : ℕ) :
    Option (Array Entry) := do
  let filled ← (List.range sig.blockCount).reverse.foldlM (fillStepChecked sig)
    (Array.replicate fullBlockCount default, bucketStart.take kBuckets)
  some filled.1

/-- `buildCsr` with every access checked. -/
def buildCsrChecked (sig : SignatureSet) : Option Csr := do
  let counted ← countBucketsChecked sig
  let bucketStart ← prefixSumsChecked counted.1
  let entries ← fillEntriesChecked sig bucketStart counted.2
  some ⟨bucketStart, entries⟩

/-- The candidates of the bucket of `weak32`, in scan order. -/
def Csr.candidates (csr : Csr) (weak32 : UInt32) : List Entry :=
  let b := bucketOf weak32
  let kStart := csr.bucketStart.getD b 0
  let kEnd := csr.bucketStart.getD (b + 1) 0
  (csr.entries.toList.take kEnd).drop kStart

/-! ### The rolling scan -/

/-- What the scan records: which blocks are matched and where, and the statistics. -/
structure ScanLog where
  matched : Array Bool
  matchedSrc : Array ℕ
  strongComputations : ℕ := 0
  weakCandidateHits : ℕ := 0
  matchedBytes : ℕ := 0

/-- Both blocks agree on the first `strongLen` bytes of their strong hash. -/
def strongEq (strongLen : ℕ) (a b : Strong) : Bool :=
  a.toList.take strongLen == b.toList.take strongLen

/-- The candidate loop at old offset `p`: `strong` is the window's strong hash once
computed. Returns the log and whether a block was matched here. -/
def tryCandidates (strongHash : Bytes → Strong) (sig : SignatureSet) (old : Bytes) (p : ℕ)
    (weak32 : UInt32) : List Entry → Option Strong → ScanLog → ScanLog × Bool
  | [], _, log => (log, false)
  | e :: es, strong, log =>
    if e.weak ≠ weak32 then tryCandidates strongHash sig old p weak32 es strong log
    else
      let log := { log with weakCandidateHits := log.weakCandidateHits + 1 }
      if log.matched.getD e.blockIndex false then
        tryCandidates strongHash sig old p weak32 es strong log
      else
        let h := strong.getD (strongHash (slice old p sig.blockSize))
        let log := if strong.isSome then log
          else { log with strongComputations := log.strongComputations + 1 }
        if strongEq sig.strongLen h (sig.blocks.getD e.blockIndex default).strong then
          ({ log with
              matched := log.matched.setIfInBounds e.blockIndex true
              matchedSrc := log.matchedSrc.setIfInBounds e.blockIndex p }, true)
        else tryCandidates strongHash sig old p weak32 es (some h) log

/-- Scan position: rolling pointer, weak state and next early-stop checkpoint. -/
structure Cursor where
  p : ℕ
  w : RollingWeak
  nextEval : ℕ

/-- The early-stop checkpoint after the pointer moved to `p`. -/
def stopHere (sig : SignatureSet) (oldLen : ℕ) (opt : BuildOptions) (matchedBytes p nextEval : ℕ) : Bool :=
  opt.enableEarlyStop && p ≥ nextEval && projectedRejected matchedBytes p oldLen sig.fileSize

/-- The checkpoint that follows when the scan goes on. -/
def evalAfter (opt : BuildOptions) (p nextEval : ℕ) : ℕ :=
  if opt.enableEarlyStop && p ≥ nextEval then p + kEarlyStopEvalStride else nextEval

/-- The scan loop of `BuildPlan`. Returns the log, the final pointer and whether the
scan stopped early. -/
def scanLoop (strongHash : Bytes → Strong) (sig : SignatureSet) (csr : Csr) (old : Bytes)
    (opt : BuildOptions) (hL : 0 < sig.blockSize) (c : Cursor) (log : ScanLog) : ScanLog × ℕ × Bool :=
  let weak32 := c.w.value
  let r := tryCandidates strongHash sig old c.p weak32 (csr.candidates weak32) none log
  if r.2 then
    -- a match: jump past the whole block
    let log := { r.1 with matchedBytes := r.1.matchedBytes + sig.blockSize }
    let p := c.p + sig.blockSize
    if p + sig.blockSize > old.length then (log, p, false)
    else if stopHere sig old.length opt log.matchedBytes p c.nextEval then (log, p, true)
    else scanLoop strongHash sig csr old opt hL
      ⟨p, weakInit (slice old p sig.blockSize), evalAfter opt p c.nextEval⟩ log
  else
    -- no match: roll by one byte
    if c.p + sig.blockSize ≥ old.length then (r.1, c.p, false)
    else
      let w := weakRoll c.w (old.getD c.p 0) (old.getD (c.p + sig.blockSize) 0) sig.blockSize
      let p := c.p + 1
      if stopHere sig old.length opt r.1.matchedBytes p c.nextEval then (r.1, p, true)
      else scanLoop strongHash sig csr old opt hL ⟨p, w, evalAfter opt p c.nextEval⟩ r.1
termination_by old.length - c.p
decreasing_by all_goals omega

/-- The log a scan starts from. -/
def ScanLog.init (blockCount : ℕ) : ScanLog :=
  { matched := Array.replicate blockCount false, matchedSrc := Array.replicate blockCount 0 }

/-- First early-stop checkpoint. -/
def prefixBytes (sig : SignatureSet) (oldLen : ℕ) (opt : BuildOptions) : ℕ :=
  if opt.prefixBytesOverride > 0 then opt.prefixBytesOverride
  else earlyStopPrefixBytes oldLen sig.blockSize

/-- The whole scan of `BuildPlan`: nothing is scanned when the old file is shorter
than a block. -/
def scan (strongHash : Bytes → Strong) (sig : SignatureSet) (old : Bytes) (opt : BuildOptions)
    (hL : 0 < sig.blockSize) : ScanLog × ℕ × Bool :=
  if old.length ≥ sig.blockSize then
    scanLoop strongHash sig (buildCsr sig) old opt hL
      ⟨0, weakInit (slice old 0 sig.blockSize), prefixBytes sig old.length opt⟩
      (ScanLog.init sig.blockCount)
  else (ScanLog.init sig.blockCount, 0, false)

/-! ### Emitting the plan -/

/-- Accumulators of the emission loop: the open run of missed blocks and the plan so far. -/
structure Emit where
  missRunStart : ℕ := 0
  missRunBytes : ℕ := 0
  inMissRun : Bool := false
  plan : DeltaPlan

/-- `flushMiss`: the run's length is narrowed to 32 bits, `downloadBytes` is not. -/
def Emit.flushMiss (e : Emit) : Emit :=
  if e.inMissRun then
    { e with
      inMissRun := false
      missRunBytes := 0
      plan := { e.plan with
        misses := e.plan.misses ++ [⟨e.missRunStart, u32 e.missRunBytes⟩]
        downloadBytes := e.plan.downloadBytes + e.missRunBytes } }
  else e

/-- One block of the emission loop. -/
def Emit.block (sig : SignatureSet) (log : ScanLog) (e : Emit) (i : ℕ) : Emit :=
  let destOff := i * sig.blockSize
  let blen := sig.blockLen i
  if log.matched.getD i false then
    let e := e.flushMiss
    { e with plan := { e.plan with
        copies := e.plan.copies ++ [⟨log.matchedSrc.getD i 0, destOff, blen⟩] } }
  else
    let e := if e.inMissRun then e
      else { e with inMissRun := true, missRunStart := destOff, missRunBytes := 0 }
    { e with missRunBytes := e.missRunBytes + blen }

/-- The emission loop with its final flush. -/
def emitPlan (sig : SignatureSet) (log : ScanLog) (plan : DeltaPlan) : DeltaPlan :=
  ((List.range sig.blockCount).foldl (Emit.block sig log) { plan := plan }).flushMiss.plan

/-- From a finished scan to the plan: an early stop rejects the whole file. -/
def planOfScan (sig : SignatureSet) (r : ScanLog × ℕ × Bool) : DeltaPlan :=
  let plan : DeltaPlan :=
    { newFileBytes := sig.fileSize
      stats :=
        { scannedBytes := r.2.1
          matchedBytes := r.1.matchedBytes
          strongComputations := r.1.strongComputations
          weakCandidateHits := r.1.weakCandidateHits
          earlyStopped := r.2.2 } }
  if r.2.2 then { plan with downloadBytes := plan.newFileBytes } else emitPlan sig r.1 plan

/-- `BuildPlan`. -/
def buildPlan (strongHash : Bytes → Strong) (sig : SignatureSet) (old : Bytes) (opt : BuildOptions) :
    DeltaPlan :=
  if h : sig.blockCount = 0 ∨ sig.blockSize = 0 then { newFileBytes := sig.fileSize }
  else planOfScan sig (scan strongHash sig old opt (SignatureSet.blockSize_pos h))

end FastClone.Delta
