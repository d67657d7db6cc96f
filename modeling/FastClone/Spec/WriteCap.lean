import Mathlib.Algebra.Group.Nat.Defs
import Mathlib.Order.Lattice

/-!
# The write-concurrency controller (`transfer_tuning.cpp`)

Once in each sampling window the client looks at its writes and sets how many workers may write at a time. Rates
and latencies are floating-point numbers of which the controller uses the order only, and one multiplication.
-/

namespace FastClone.WriteCap

def kActiveCapInitial : ℕ := 8
def kActiveCapMin : ℕ := 1
def kActiveCapMax : ℕ := 32
def kWriteCapHealthyWindowsToGrow : ℕ := 2
def kWriteCapProtectAfterChangeWindows : ℕ := 1

/-- What the controller compares rates and latencies with. -/
structure Thresholds (F : Type) where
  zero : F
  kWriteRateDropAbsMinFilesPerSec : F
  kWriteLatencyHalveAbsNs : F
  kMaxLatencyForGrowNs : F
  /-- The product with `kWriteCapLatencyGrowFactor`. -/
  growLimit : F → F

inductive WriteCapAdjustReason where
  | init | grow | hold | halveBackpressure | halveBudget | halveRateDrop | halveLatency | halveFailure
  deriving DecidableEq

/-- What is seen in one window. -/
structure WriteCapSample (F : Type) where
  backlog : ℕ := 0
  ioInFlightBytes : ℕ := 0
  driverWriteOutstandingBytes : ℕ := 0
  recvSoftBudgetBytes : ℕ := 0
  completionRate : F
  latencyEwmaNs : F
  backpressureSleep : Bool := false
  writeFailures : ℕ := 0

structure WriteCapControllerState (F : Type) where
  activeCap : ℕ := kActiveCapInitial
  consecutiveHealthy : ℕ := 0
  prevCompletionRate : F
  prevLatencyEwmaNs : F
  havePrev : Bool := false
  lastReason : WriteCapAdjustReason := .init
  windowsSinceLastChange : ℕ := 0

/-- The largest unsigned 64-bit number. -/
def kMax : ℕ := 2 ^ 64 - 1

/-- `std::clamp`. -/
def clamp (v lo hi : ℕ) : ℕ := if v < lo then lo else if hi < v then hi else v

variable {F : Type} [LinearOrder F]

/-- The bytes that are not written yet; the sum stops at the largest number. -/
def WriteCapSample.writePressure (s : WriteCapSample F) : ℕ :=
  if s.ioInFlightBytes > kMax - s.driverWriteOutstandingBytes then kMax
  else s.ioInFlightBytes + s.driverWriteOutstandingBytes

/-- The first reason to halve, in the order in which they are tested. -/
def deterioration (k : Thresholds F) (prev : WriteCapControllerState F) (s : WriteCapSample F) :
    Option WriteCapAdjustReason :=
  let inProtectionWindow := decide (prev.windowsSinceLastChange < kWriteCapProtectAfterChangeWindows)
  if s.backpressureSleep then some .halveBackpressure
  else if s.writePressure > s.recvSoftBudgetBytes then some .halveBudget
  -- right after a change the rate says nothing yet, so it is not looked at
  else if prev.havePrev ∧ s.backlog > 0 ∧ inProtectionWindow = false ∧
      s.completionRate < k.kWriteRateDropAbsMinFilesPerSec then some .halveRateDrop
  else if prev.havePrev ∧ s.backlog > 0 ∧ prev.prevLatencyEwmaNs > k.zero ∧
      s.latencyEwmaNs > k.kWriteLatencyHalveAbsNs then some .halveLatency
  else if s.writeFailures > 0 then some .halveFailure
  else none

/-- All that a window needs to be healthy. -/
def Healthy (k : Thresholds F) (prev : WriteCapControllerState F) (s : WriteCapSample F) : Prop :=
  s.backlog > prev.activeCap ∧ s.backpressureSleep = false ∧ s.writePressure ≤ s.recvSoftBudgetBytes ∧
    (prev.havePrev = false ∨ s.completionRate ≥ prev.prevCompletionRate) ∧
      (prev.havePrev = false ∨ prev.prevLatencyEwmaNs ≤ k.zero ∨
        s.latencyEwmaNs ≤ k.growLimit prev.prevLatencyEwmaNs) ∧
        s.latencyEwmaNs < k.kMaxLatencyForGrowNs

instance (k : Thresholds F) (prev : WriteCapControllerState F) (s : WriteCapSample F) : Decidable (Healthy k prev s) :=
  inferInstanceAs (Decidable (_ ∧ _ ∧ _ ∧ _ ∧ _ ∧ _))

/-- `NextWriteActiveCap`. The two counters are unsigned 32-bit numbers. -/
def nextWriteActiveCap (k : Thresholds F) (prev : WriteCapControllerState F) (s : WriteCapSample F)
    (workerCapacity : ℕ) : WriteCapControllerState F :=
  let effectiveMax := clamp workerCapacity kActiveCapMin kActiveCapMax
  -- the new cap, the streak of healthy windows, and the reason
  let (newCap, consecutiveHealthy, lastReason) :=
    match deterioration k prev s with
    | some reason => (max kActiveCapMin (prev.activeCap / 2), 0, reason)
    | none =>
      if Healthy k prev s then
        let streak := (prev.consecutiveHealthy + 1) % 2 ^ 32
        if streak ≥ kWriteCapHealthyWindowsToGrow ∧ prev.activeCap < effectiveMax then
          (prev.activeCap + 1, streak, .grow)
        -- at the ceiling the streak goes on without growth
        else (prev.activeCap, streak, .hold)
      else (prev.activeCap, 0, .hold)
  let activeCap := clamp newCap kActiveCapMin effectiveMax
  { activeCap := activeCap
    consecutiveHealthy := consecutiveHealthy
    prevCompletionRate := s.completionRate
    prevLatencyEwmaNs := s.latencyEwmaNs
    havePrev := true
    lastReason := lastReason
    windowsSinceLastChange := if activeCap ≠ prev.activeCap then 0 else (prev.windowsSinceLastChange + 1) % 2 ^ 32 }

/-- The state before each window, from a cap. -/
def states (k : Thresholds F) (workerCapacity cap : ℕ) (samples : ℕ → WriteCapSample F) : ℕ → WriteCapControllerState F
  | 0 => { activeCap := cap, prevCompletionRate := k.zero, prevLatencyEwmaNs := k.zero }
  | n + 1 => nextWriteActiveCap k (states k workerCapacity cap samples n) (samples n) workerCapacity

end FastClone.WriteCap
