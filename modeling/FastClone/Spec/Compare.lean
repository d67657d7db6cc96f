import FastClone.Spec.Wire
import Mathlib.Algebra.Group.Int.Defs

/-!
# The comparison of one file (`compare_phase.cpp`), and the stamp of its time

A modification time is one 64-bit number with two readings: nanoseconds since 1970, or ticks of
100 ns since 1601. Above `kLikelyUnixNsThreshold` it is the first, from `kWindowsEpochDiff100ns`
up to there the second, below neither. A received file is stamped with the time of its manifest
entry (`ToTimespecFromNs`, `NormalizeManifestMtimeToUnixNs`), and a later comparison normalizes
both sides once more.

Signed operations wrap; where one overflows, C++ promises nothing, and the predicates `…Defined`
say that none does.
-/

namespace FastClone.Compare

open FastClone.Wire

/-! ### Signed 64-bit numbers -/

def wrap64 (x : ℤ) : ℤ := x.bmod (2 ^ 64)

/-- `x` is an `int64_t`. -/
def Fits64 (x : ℤ) : Prop := -2 ^ 63 ≤ x ∧ x < 2 ^ 63

instance (x : ℤ) : Decidable (Fits64 x) := inferInstanceAs (Decidable (_ ∧ _))

/-- `std::llabs`. -/
def llabs (x : ℤ) : ℤ := wrap64 (if x < 0 then -x else x)

/-! ### Times -/

def kLikelyUnixNsThreshold : ℤ := 500000000000000000

def kWindowsEpochDiff100ns : ℤ := 116444736000000000

def int64Max : ℤ := 9223372036854775807

def int64Min : ℤ := -9223372036854775808

/-- `TryNormalizeMtimeToUnixNs`; `none` where it returns false. -/
def tryNormalizeMtimeToUnixNs (rawMtime : ℤ) : Option ℤ :=
  if rawMtime > kLikelyUnixNsThreshold then some rawMtime
  else if rawMtime < kWindowsEpochDiff100ns then none
  else
    let ticksSinceUnixEpoch := rawMtime - kWindowsEpochDiff100ns
    if ticksSinceUnixEpoch > int64Max / 100 ∨ ticksSinceUnixEpoch < int64Min.tdiv 100 then none
    else some (ticksSinceUnixEpoch * 100)

structure Timespec where
  tvSec : ℤ
  tvNsec : ℤ
  deriving DecidableEq, Repr

/-- `ToTimespecFromNs` (`disk_io_backend_posix.cpp`). -/
def toTimespecFromNs (modifyNs : ℤ) : Timespec :=
  let unixNs :=
    if modifyNs > kLikelyUnixNsThreshold then modifyNs
    else if modifyNs ≥ kWindowsEpochDiff100ns then wrap64 ((modifyNs - kWindowsEpochDiff100ns) * 100)
    else modifyNs
  let unixNs := if unixNs < 0 then 0 else unixNs
  ⟨unixNs / 1000000000, unixNs % 1000000000⟩

/-- A time that was stamped, read back in nanoseconds. -/
def Timespec.unixNs (ts : Timespec) : ℤ := ts.tvSec * 1000000000 + ts.tvNsec

/-- `NormalizeManifestMtimeToUnixNs` (`file_index.cpp`). -/
def normalizeManifestMtimeToUnixNs (modifyNs : ℤ) : ℤ :=
  if modifyNs > kLikelyUnixNsThreshold then modifyNs
  else if modifyNs < kWindowsEpochDiff100ns then (if modifyNs < 0 then 0 else modifyNs)
  else
    let unixNs := wrap64 ((modifyNs - kWindowsEpochDiff100ns) * 100)
    if unixNs < 0 then 0 else unixNs

/-- The stamp multiplies without overflow. -/
def StampDefined (modifyNs : ℤ) : Prop :=
  kWindowsEpochDiff100ns ≤ modifyNs → modifyNs ≤ kLikelyUnixNsThreshold →
    Fits64 ((modifyNs - kWindowsEpochDiff100ns) * 100)

/-! ### The decision -/

inductive CompareMode where
  | fast
  | strict
  | sizeOnly
  deriving DecidableEq, Repr

inductive CompareCategory where
  | same
  | diff
  | missing
  | extra
  deriving DecidableEq, Repr

structure CompareOutcome where
  category : CompareCategory
  needHash : Bool
  deriving DecidableEq, Repr

def kMtimeToleranceNs : ℤ := 2 * 1000 * 1000

def kLegacyRawTolerance : ℤ := 2 * 1000 * 1000

/-- The difference that is compared with the tolerance, and the tolerance. -/
def mtimeDelta (localMtimeNs remoteMtimeNs : ℤ) : ℤ × ℤ :=
  match tryNormalizeMtimeToUnixNs localMtimeNs, tryNormalizeMtimeToUnixNs remoteMtimeNs with
  | some localUnixNs, some remoteUnixNs => (localUnixNs - remoteUnixNs, kMtimeToleranceNs)
  | _, _ => (localMtimeNs - remoteMtimeNs, kLegacyRawTolerance)

/-- `MtimeWithinTolerance`. -/
def mtimeWithinTolerance (localMtimeNs remoteMtimeNs : ℤ) : Bool :=
  let delta := mtimeDelta localMtimeNs remoteMtimeNs
  decide (llabs (wrap64 delta.1) ≤ delta.2)

/-- The comparison of the times subtracts without overflow, and the difference has an absolute
value. -/
def DeltaDefined (localMtimeNs remoteMtimeNs : ℤ) : Prop :=
  Fits64 (mtimeDelta localMtimeNs remoteMtimeNs).1 ∧ (mtimeDelta localMtimeNs remoteMtimeNs).1 ≠ -2 ^ 63

/-- `DecideCompare`. -/
def decideCompare (mode : CompareMode) (localFile : Option FileEntry) (remoteFile : FileEntry) : CompareOutcome :=
  match localFile with
  | none => ⟨.missing, false⟩
  | some localFile =>
    if localFile.fileSize ≠ remoteFile.fileSize then ⟨.diff, false⟩
    else
      match mode with
      | .sizeOnly => ⟨.same, false⟩
      | .strict => ⟨.same, true⟩
      | .fast =>
        if mtimeWithinTolerance localFile.mtimeNs.toInt remoteFile.mtimeNs.toInt then ⟨.same, false⟩
        else ⟨.same, true⟩

/-- `ClassifyByHash`. -/
def classifyByHash {Hash : Type} [DecidableEq Hash] (localReadable : Bool) (localHash remoteHash : Hash) :
    CompareCategory :=
  if localReadable ∧ localHash = remoteHash then .same else .diff

end FastClone.Compare
