import FastClone.Spec.Compare

/-!
# The conversions of a modification time, with their overflows

Four functions read the same 64-bit number: `NormalizeManifestMtimeToUnixNs` (`file_index.cpp`), the
`ToTimespecFromNs` of the thread pool and of io_uring, and `TryNormalizeMtimeToUnixNs`
(`compare_phase.cpp`). `FastClone.Spec.Compare` has them with operations that wrap; here a signed
operation that overflows has no value at all, which is what C++ says of it.
-/

namespace FastClone.Mtime

open FastClone.Compare (Fits64 Timespec kLikelyUnixNsThreshold kWindowsEpochDiff100ns int64Max int64Min
  kMtimeToleranceNs kLegacyRawTolerance)

/-- A signed 64-bit result; `none` where the operation overflows. -/
def signed64 (x : ℤ) : Option ℤ := if Fits64 x then some x else none

/-- `NormalizeManifestMtimeToUnixNs`. -/
def normalizeManifestMtimeToUnixNs (modifyNs : ℤ) : Option ℤ :=
  if modifyNs > kLikelyUnixNsThreshold then some modifyNs
  else if modifyNs < kWindowsEpochDiff100ns then some (if modifyNs < 0 then 0 else modifyNs)
  else do
    let ticks ← signed64 (modifyNs - kWindowsEpochDiff100ns)
    let unixNs ← signed64 (ticks * 100)
    return if unixNs < 0 then 0 else unixNs

/-- `ToTimespecFromNs`, which both backends have with their own copies of the two constants. -/
def toTimespec (threshold epochDiff : ℤ) (modifyNs : ℤ) : Option Timespec := do
  let unixNs ←
    if modifyNs > threshold then some modifyNs
    else if modifyNs ≥ epochDiff then do
      let ticks ← signed64 (modifyNs - epochDiff)
      signed64 (ticks * 100)
    else some modifyNs
  let unixNs := if unixNs < 0 then 0 else unixNs
  return ⟨unixNs.tdiv 1000000000, unixNs.tmod 1000000000⟩

/-- `ToTimespecFromNs` (`disk_io_backend_posix.cpp`). -/
def Posix.toTimespecFromNs (modifyNs : ℤ) : Option Timespec :=
  toTimespec 500000000000000000 116444736000000000 modifyNs

/-- `ToTimespecFromNs` (`disk_io_backend_uring.cpp`). -/
def Uring.toTimespecFromNs (modifyNs : ℤ) : Option Timespec :=
  toTimespec 500000000000000000 116444736000000000 modifyNs

/-- `TryNormalizeMtimeToUnixNs`; the inner `none` is its `false`. -/
def tryNormalizeMtimeToUnixNs (rawMtime : ℤ) : Option (Option ℤ) :=
  if rawMtime > kLikelyUnixNsThreshold then some (some rawMtime)
  else if rawMtime < kWindowsEpochDiff100ns then some none
  else do
    let ticksSinceUnixEpoch ← signed64 (rawMtime - kWindowsEpochDiff100ns)
    if ticksSinceUnixEpoch > int64Max.tdiv 100 ∨ ticksSinceUnixEpoch < int64Min.tdiv 100 then some none
    else
      let unixNs ← signed64 (ticksSinceUnixEpoch * 100)
      return some unixNs

/-- `std::llabs`. -/
def llabs (x : ℤ) : Option ℤ := signed64 (if x < 0 then -x else x)

/-- The absolute value of a difference, against a tolerance. -/
def within (tolerance a b : ℤ) : Option Bool := do
  let difference ← signed64 (a - b)
  let delta ← llabs difference
  return decide (delta ≤ tolerance)

/-- `MtimeWithinTolerance`. -/
def mtimeWithinTolerance (localMtimeNs remoteMtimeNs : ℤ) : Option Bool := do
  let localNormalized ← tryNormalizeMtimeToUnixNs localMtimeNs
  let remoteNormalized ← tryNormalizeMtimeToUnixNs remoteMtimeNs
  match localNormalized, remoteNormalized with
  | some localUnixNs, some remoteUnixNs => within kMtimeToleranceNs localUnixNs remoteUnixNs
  | _, _ => within kLegacyRawTolerance localMtimeNs remoteMtimeNs

end FastClone.Mtime
