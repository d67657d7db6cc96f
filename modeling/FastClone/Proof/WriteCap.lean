import Mathlib.Order.Nat
import FastClone.Spec.WriteCap

/-!
# The controller stays in its bounds and grows slowly

A window does one of four things (`nextWriteActiveCap_cases`). Two facts relate the counters of a state to the
window before it: a streak means that this window was healthy (`streak_healthy`), and windows without a change
that it left the cap as it was (`unchanged_cap`). `controller_steady` puts them together for all windows.
-/

namespace FastClone.WriteCap

variable {F : Type} [LinearOrder F] {k : Thresholds F} {prev : WriteCapControllerState F} {s : WriteCapSample F}
  {workerCapacity : ℕ}

/-- The ceiling. -/
theorem clamp_capacity (hcapacity : 1 ≤ workerCapacity) :
    clamp workerCapacity kActiveCapMin kActiveCapMax = min kActiveCapMax workerCapacity := by
  unfold clamp kActiveCapMin kActiveCapMax
  split
  · omega
  · split <;> omega

theorem clamp_of_mem {v lo hi : ℕ} (hlo : lo ≤ v) (hhi : v ≤ hi) : clamp v lo hi = v := by
  unfold clamp
  rw [if_neg (by omega), if_neg (by omega)]

/-- A cap that the controller may have. -/
def InRange (workerCapacity cap : ℕ) : Prop := kActiveCapMin ≤ cap ∧ cap ≤ min kActiveCapMax workerCapacity

/-- **One window.** It halves, grows by one at the end of a streak, keeps the cap with one more healthy window,
or holds. -/
theorem nextWriteActiveCap_cases (hcapacity : 1 ≤ workerCapacity) (hcap : InRange workerCapacity prev.activeCap) :
    let next := nextWriteActiveCap k prev s workerCapacity
    ((deterioration k prev s).isSome ∧ next.activeCap = max 1 (prev.activeCap / 2) ∧ next.consecutiveHealthy = 0) ∨
      (deterioration k prev s = none ∧ Healthy k prev s ∧ next.consecutiveHealthy = (prev.consecutiveHealthy + 1) % 2 ^ 32 ∧
        2 ≤ next.consecutiveHealthy ∧ next.activeCap = prev.activeCap + 1 ∧ prev.activeCap < min kActiveCapMax workerCapacity) ∨
      (deterioration k prev s = none ∧ Healthy k prev s ∧ next.consecutiveHealthy = (prev.consecutiveHealthy + 1) % 2 ^ 32 ∧
        next.activeCap = prev.activeCap) ∨
      (deterioration k prev s = none ∧ ¬ Healthy k prev s ∧ next.consecutiveHealthy = 0 ∧ next.activeCap = prev.activeCap) := by
  obtain ⟨hmin, hmax⟩ := hcap
  unfold kActiveCapMin at hmin
  unfold nextWriteActiveCap
  rw [clamp_capacity hcapacity]
  -- the last clamp does nothing to a cap that is in range, before it and after
  cases hdet : deterioration k prev s with
  | some reason =>
    have hhalf : clamp (max kActiveCapMin (prev.activeCap / 2)) kActiveCapMin (min kActiveCapMax workerCapacity) =
        max 1 (prev.activeCap / 2) := by
      apply clamp_of_mem
      · exact le_max_left _ _
      · unfold kActiveCapMin
        omega
    exact Or.inl ⟨rfl, hhalf, rfl⟩
  | none =>
    have hkeep : clamp prev.activeCap kActiveCapMin (min kActiveCapMax workerCapacity) = prev.activeCap :=
      clamp_of_mem hmin hmax
    by_cases hhealthy : Healthy k prev s
    · by_cases hgrow : (prev.consecutiveHealthy + 1) % 2 ^ 32 ≥ kWriteCapHealthyWindowsToGrow ∧
          prev.activeCap < min kActiveCapMax workerCapacity
      · have hmore : clamp (prev.activeCap + 1) kActiveCapMin (min kActiveCapMax workerCapacity) = prev.activeCap + 1 := by
          apply clamp_of_mem
          · unfold kActiveCapMin
            omega
          · exact hgrow.2
        dsimp only
        rw [if_pos hhealthy, if_pos hgrow]
        exact Or.inr (Or.inl ⟨rfl, hhealthy, rfl, hgrow.1, hmore, hgrow.2⟩)
      · dsimp only
        rw [if_pos hhealthy, if_neg hgrow]
        exact Or.inr (Or.inr (Or.inl ⟨rfl, hhealthy, rfl, hkeep⟩))
    · dsimp only
      rw [if_neg hhealthy]
      exact Or.inr (Or.inr (Or.inr ⟨rfl, hhealthy, rfl, hkeep⟩))

/-- The cap stays in its range. -/
theorem inRange_next (hcapacity : 1 ≤ workerCapacity) (hcap : InRange workerCapacity prev.activeCap) :
    InRange workerCapacity (nextWriteActiveCap k prev s workerCapacity).activeCap := by
  obtain ⟨hmin, hmax⟩ := id hcap
  unfold kActiveCapMin at hmin
  unfold InRange kActiveCapMin
  rcases nextWriteActiveCap_cases (k := k) (s := s) hcapacity hcap with
    ⟨-, hhalf, -⟩ | ⟨-, -, -, -, hmore, hroom⟩ | ⟨-, -, -, hkeep⟩ | ⟨-, -, -, hkeep⟩
  · rw [hhalf]
    omega
  · rw [hmore]
    omega
  · rw [hkeep]
    exact ⟨hmin, hmax⟩
  · rw [hkeep]
    exact ⟨hmin, hmax⟩

/-- The cap grows by at most one. -/
theorem cap_le_succ (hcapacity : 1 ≤ workerCapacity) (hcap : InRange workerCapacity prev.activeCap) :
    (nextWriteActiveCap k prev s workerCapacity).activeCap ≤ prev.activeCap + 1 := by
  have hmin : 1 ≤ prev.activeCap := hcap.1
  rcases nextWriteActiveCap_cases (k := k) (s := s) hcapacity hcap with
    ⟨-, hhalf, -⟩ | ⟨-, -, -, -, hmore, -⟩ | ⟨-, -, -, hkeep⟩ | ⟨-, -, -, hkeep⟩
  · rw [hhalf]
    omega
  · rw [hmore]
  · rw [hkeep]
    omega
  · rw [hkeep]
    omega

/-- It grows in a healthy window behind another one of the same streak. -/
theorem healthy_of_grows (hcapacity : 1 ≤ workerCapacity) (hcap : InRange workerCapacity prev.activeCap)
    (hgrows : prev.activeCap < (nextWriteActiveCap k prev s workerCapacity).activeCap) :
    deterioration k prev s = none ∧ Healthy k prev s ∧ 0 < prev.consecutiveHealthy := by
  have hmin : 1 ≤ prev.activeCap := hcap.1
  rcases nextWriteActiveCap_cases (k := k) (s := s) hcapacity hcap with
    ⟨-, hhalf, -⟩ | ⟨hdet, hhealthy, hstreak, htwo, -, -⟩ | ⟨-, -, -, hkeep⟩ | ⟨-, -, -, hkeep⟩
  · rw [hhalf] at hgrows
    omega
  · refine ⟨hdet, hhealthy, ?_⟩
    -- a streak of two has a window before this one
    rw [hstreak] at htwo
    by_contra hnone
    rw [Nat.eq_zero_of_not_pos hnone] at htwo
    exact absurd htwo (by decide)
  · omega
  · omega

/-- A deteriorated window halves the cap. -/
theorem cap_of_deterioration (hcapacity : 1 ≤ workerCapacity) (hcap : InRange workerCapacity prev.activeCap)
    (hdet : (deterioration k prev s).isSome) :
    (nextWriteActiveCap k prev s workerCapacity).activeCap = max 1 (prev.activeCap / 2) := by
  rcases nextWriteActiveCap_cases (k := k) (s := s) hcapacity hcap with
    ⟨-, hhalf, -⟩ | ⟨hnone, -⟩ | ⟨hnone, -⟩ | ⟨hnone, -⟩
  · exact hhalf
  · rw [hnone] at hdet
    nomatch hdet
  · rw [hnone] at hdet
    nomatch hdet
  · rw [hnone] at hdet
    nomatch hdet

/-- After a streak the window was healthy. -/
theorem streak_healthy (hcapacity : 1 ≤ workerCapacity) (hcap : InRange workerCapacity prev.activeCap)
    (hstreak : 0 < (nextWriteActiveCap k prev s workerCapacity).consecutiveHealthy) :
    deterioration k prev s = none ∧ Healthy k prev s := by
  rcases nextWriteActiveCap_cases (k := k) (s := s) hcapacity hcap with
    ⟨-, -, hzero⟩ | ⟨hdet, hhealthy, -⟩ | ⟨hdet, hhealthy, -⟩ | ⟨-, -, hzero, -⟩
  · omega
  · exact ⟨hdet, hhealthy⟩
  · exact ⟨hdet, hhealthy⟩
  · omega

/-- A window that counts as one without a change has not changed the cap. -/
theorem unchanged_cap (h : 0 < (nextWriteActiveCap k prev s workerCapacity).windowsSinceLastChange) :
    (nextWriteActiveCap k prev s workerCapacity).activeCap = prev.activeCap := by
  by_contra hne
  have hzero : (nextWriteActiveCap k prev s workerCapacity).windowsSinceLastChange = 0 := if_pos hne
  omega

/-- The rate is looked at only outside the protection window. -/
theorem protected_of_rateDrop (h : deterioration k prev s = some .halveRateDrop) : 0 < prev.windowsSinceLastChange := by
  unfold deterioration at h
  dsimp only at h
  split at h
  · nomatch h
  · split at h
    · nomatch h
    · split at h
      -- the third test is the only one that gives this reason
      · rename_i hrate
        have hopen := of_decide_eq_false hrate.2.2.1
        unfold kWriteCapProtectAfterChangeWindows at hopen
        omega
      · split at h
        · nomatch h
        · split at h <;> nomatch h

section Windows

variable {cap : ℕ} {samples : ℕ → WriteCapSample F}

theorem inRange_states (hcapacity : 1 ≤ workerCapacity) (hcap : InRange workerCapacity cap) (n : ℕ) :
    InRange workerCapacity (states k workerCapacity cap samples n).activeCap := by
  induction n with
  | zero => exact hcap
  | succ n ih => exact inRange_next hcapacity ih

end Windows

/-- **The controller**, for every sequence of samples. The cap stays between 1 and the smaller of 32 and the capacity;
it grows by at most one, and only in a healthy window right after a healthy window; a deteriorated window halves it;
and none halves it for its rate right after a change. -/
theorem controller_steady (k : Thresholds F) {workerCapacity cap : ℕ} (hcapacity : 1 ≤ workerCapacity)
    (hcap : 1 ≤ cap ∧ cap ≤ min 32 workerCapacity) (samples : ℕ → WriteCapSample F) (n : ℕ) :
    let st := states k workerCapacity cap samples
    (1 ≤ (st n).activeCap ∧ (st n).activeCap ≤ min 32 workerCapacity) ∧
      (st (n + 1)).activeCap ≤ (st n).activeCap + 1 ∧
      ((st n).activeCap < (st (n + 1)).activeCap →
        ∃ m, n = m + 1 ∧ (deterioration k (st n) (samples n) = none ∧ Healthy k (st n) (samples n)) ∧
          deterioration k (st m) (samples m) = none ∧ Healthy k (st m) (samples m)) ∧
      ((deterioration k (st n) (samples n)).isSome → (st (n + 1)).activeCap = max 1 ((st n).activeCap / 2)) ∧
      (deterioration k (st n) (samples n) = some .halveRateDrop →
        ∃ m, n = m + 1 ∧ (st n).activeCap = (st m).activeCap) := by
  intro st
  have hrange : ∀ n, InRange workerCapacity (st n).activeCap := fun n => inRange_states hcapacity hcap n
  refine ⟨hrange n, cap_le_succ hcapacity (hrange n), fun hgrows => ?_, cap_of_deterioration hcapacity (hrange n),
    fun hrate => ?_⟩
  · obtain ⟨hdet, hhealthy, hbefore⟩ := healthy_of_grows hcapacity (hrange n) hgrows
    -- the streak was there before this window, so the one before was healthy
    cases n with
    | zero => exact absurd hbefore (Nat.lt_irrefl 0)
    | succ m => exact ⟨m, rfl, ⟨hdet, hhealthy⟩, streak_healthy hcapacity (hrange m) hbefore⟩
  · -- the state before this window is not right after a change
    have hopen := protected_of_rateDrop hrate
    cases n with
    | zero => exact absurd hopen (Nat.lt_irrefl 0)
    | succ m => exact ⟨m, rfl, unchanged_cap hopen⟩

/-- The numbers of the source, in whole nanoseconds. -/
def nanoseconds : Thresholds ℕ where
  zero := 0
  kWriteRateDropAbsMinFilesPerSec := 20
  kWriteLatencyHalveAbsNs := 15 * 10 ^ 9
  kMaxLatencyForGrowNs := 30 * 10 ^ 9
  growLimit ns := ns * 125 / 100

/-- Two healthy windows and the cap grows. -/
def busySample : WriteCapSample ℕ where
  backlog := 100
  completionRate := 50
  latencyEwmaNs := 10 ^ 6

theorem controller_steady_busy :
    (states nanoseconds 16 8 (fun _ => busySample) 1).activeCap = 8 ∧
      (states nanoseconds 16 8 (fun _ => busySample) 2).activeCap = 9 ∧
      Healthy nanoseconds (states nanoseconds 16 8 (fun _ => busySample) 0) busySample := by
  have hgrows : (states nanoseconds 16 8 (fun _ => busySample) 1).activeCap <
      (states nanoseconds 16 8 (fun _ => busySample) 2).activeCap := by decide
  obtain ⟨-, -, hstreak, -⟩ := controller_steady nanoseconds (by decide) (by decide : 1 ≤ 8 ∧ 8 ≤ min 32 16)
    (fun _ => busySample) 1
  obtain ⟨m, hm, -, -, hhealthy⟩ := hstreak hgrows
  obtain rfl : m = 0 := by omega
  exact ⟨by decide, by decide, hhealthy⟩

end FastClone.WriteCap
