import FastClone.Proof.Mtime
import FastClone.Spec.Durations

/-!
# Durations that the timers honour

`parseDurationMsStrict` rejects what does not fit into unsigned milliseconds; the timers compute in signed
nanoseconds. `durations_honoured_iff`: an accepted duration is honoured exactly if its nanoseconds, and the
deadline that they give, are signed 64-bit numbers. A longer one overflows, or turns negative and fires at
once.
-/

namespace FastClone.Durations

open FastClone.Endpoint FastClone.Mtime
open FastClone.Compare (Fits64 wrap64 wrap64_of_fits)

/-! ### What is accepted -/

/-- The test against the greatest number of units leaves no overflow in the product. -/
theorem parseDurationMsStrict_le {value : Text} {name : String} {d : ℕ}
    (h : parseDurationMsStrict value name = .ok d) : d ≤ uint64Max := by
  unfold parseDurationMsStrict at h
  by_cases hempty : value = []
  · rw [if_pos hempty] at h
    nomatch h
  rw [if_neg hempty] at h
  cases hread : stoull value with
  | none =>
    rw [hread] at h
    nomatch h
  | some parsed =>
    rw [hread] at h
    dsimp only at h
    cases hunit : unitMs (parsed.2.map Char.toLower) with
    | none =>
      rw [hunit] at h
      nomatch h
    | some multiplier =>
      rw [hunit] at h
      dsimp only at h
      by_cases hlarge : parsed.1 > uint64Max / multiplier
      · rw [if_pos hlarge] at h
        nomatch h
      · rw [if_neg hlarge] at h
        have hproduct : parsed.1 * multiplier = d := Except.ok.inj h
        have hmul : parsed.1 * multiplier ≤ uint64Max / multiplier * multiplier :=
          Nat.mul_le_mul_right _ (not_lt.1 hlarge)
        have hdiv := Nat.div_mul_le_self uint64Max multiplier
        omega

theorem parsePositiveDuration_le {value : Text} {name : String} {d : ℕ}
    (h : parsePositiveDuration value name = .ok d) : d ≤ uint64Max := by
  unfold parsePositiveDuration at h
  cases hparsed : parseDurationMsStrict value name with
  | error e =>
    rw [hparsed] at h
    nomatch h
  | ok ms =>
    rw [hparsed] at h
    by_cases hzero : ms = 0
    · simp only [bind, Except.bind, if_pos hzero] at h
      nomatch h
    · simp only [bind, Except.bind, if_neg hzero] at h
      rw [← Except.ok.inj h]
      exact parseDurationMsStrict_le hparsed

/-! ### Milliseconds in signed nanoseconds -/

/-- From `2 ^ 63` on, milliseconds turn negative. -/
theorem milliseconds_eq {d : ℕ} (h : d ≤ uint64Max) :
    milliseconds d = if (d : ℤ) < 2 ^ 63 then (d : ℤ) else d - 2 ^ 64 := by
  unfold uint64Max at h
  unfold milliseconds
  by_cases hsmall : (d : ℤ) < 2 ^ 63
  · rw [if_pos hsmall]
    exact wrap64_of_fits ⟨by omega, hsmall⟩
  · rw [if_neg hsmall]
    have hshift : wrap64 d = wrap64 ((d : ℤ) - 2 ^ 64) := by
      unfold wrap64
      exact (Int.sub_bmod_right (d : ℤ) (2 ^ 64)).symm
    rw [hshift]
    exact wrap64_of_fits ⟨by omega, by omega⟩

/-- Milliseconds whose nanoseconds fit stay what they are. -/
theorem toNanoseconds_of_lt {d : ℕ} (h : d ≤ uint64Max) (hns : (d : ℤ) * 1000000 < 2 ^ 63) :
    toNanoseconds (milliseconds d) = some ((d : ℤ) * 1000000) := by
  have hsmall : (d : ℤ) < 2 ^ 63 := by omega
  rw [milliseconds_eq h, if_pos hsmall]
  exact signed64_of_fits ⟨by omega, hns⟩

/-- All others overflow, or come out negative. -/
theorem toNanoseconds_of_ge {d : ℕ} {ns : ℤ} (h : d ≤ uint64Max) (hns : 2 ^ 63 ≤ (d : ℤ) * 1000000)
    (hconv : toNanoseconds (milliseconds d) = some ns) : ns < 0 ∧ 2 ^ 63 ≤ (d : ℤ) := by
  unfold toNanoseconds signed64 at hconv
  by_cases hfits : Fits64 (milliseconds d * 1000000)
  · rw [if_pos hfits] at hconv
    have hvalue := Option.some.inj hconv
    rw [milliseconds_eq h] at hvalue hfits
    unfold uint64Max at h
    by_cases hsmall : (d : ℤ) < 2 ^ 63
    · rw [if_pos hsmall] at hfits
      obtain ⟨-, hupper⟩ := hfits
      omega
    · rw [if_neg hsmall] at hvalue
      omega
  · rw [if_neg hfits] at hconv
    nomatch hconv

/-! ### The idle grace -/

/-- The test of the idle grace is that of the integers: on a served and idle server it fires exactly when
`d` milliseconds have passed. -/
def GraceHonoured (d : ℕ) (since now : ℤ) : Prop :=
  ∀ snap : IdleSnapshot, snap.createdTotal > 0 → snap.activeRealSessions = 0 →
    evaluateIdleGrace d snap now (some since) = some (some since, decide ((d : ℤ) * 1000000 ≤ now - since))

/-- The test, on a server that has served and is idle. -/
theorem evaluateIdleGrace_armed {snap : IdleSnapshot} (d : ℕ) (since now : ℤ) (hserved : snap.createdTotal > 0)
    (hidle : snap.activeRealSessions = 0) : evaluateIdleGrace d snap now (some since) =
      (signed64 (now - since)).bind fun idle =>
        (toNanoseconds (milliseconds d)).bind fun grace => some (some since, decide (idle ≥ grace)) := by
  unfold evaluateIdleGrace
  exact if_pos ⟨hserved, hidle⟩

theorem graceHonoured_iff {d : ℕ} (h : d ≤ uint64Max) {since now : ℤ} (hle : since ≤ now) :
    GraceHonoured d since now ↔ (d : ℤ) * 1000000 < 2 ^ 63 ∧ now - since < 2 ^ 63 := by
  constructor
  · intro hhonoured
    have hexact := hhonoured ⟨1, 0⟩ Nat.one_pos rfl
    rw [evaluateIdleGrace_armed d since now Nat.one_pos rfl] at hexact
    have helapsed : now - since < 2 ^ 63 := by
      by_contra hlong
      have hover : ¬ Fits64 (now - since) := fun hfits => hlong hfits.2
      rw [signed64_of_not_fits hover] at hexact
      nomatch hexact
    refine ⟨?_, helapsed⟩
    rw [signed64_of_fits ⟨by omega, helapsed⟩, Option.bind_some] at hexact
    by_contra hlong
    cases hconv : toNanoseconds (milliseconds d) with
    | none =>
      rw [hconv] at hexact
      nomatch hexact
    | some grace =>
      -- a negative grace has passed at once
      have hneg := (toNanoseconds_of_ge h (not_lt.1 hlong) hconv).1
      rw [hconv, Option.bind_some, Option.some.injEq, Prod.mk.injEq] at hexact
      have hdue : decide (now - since ≥ grace) = true := decide_eq_true (by omega)
      have hpending : decide ((d : ℤ) * 1000000 ≤ now - since) = false := decide_eq_false (by omega)
      rw [hdue, hpending] at hexact
      nomatch hexact.2
  · rintro ⟨hns, helapsed⟩ snap hserved hidle
    rw [evaluateIdleGrace_armed d since now hserved hidle, toNanoseconds_of_lt h hns,
      signed64_of_fits ⟨by omega, helapsed⟩]
    rfl

/-! ### The first connection -/

/-- The deadline is armed and its tests are those of the integers: with no connection so far the server gives
up exactly when `d` milliseconds have passed, or one second more while a handshake is under way. -/
def DeadlineHonoured (d : ℕ) (start now : ℤ) : Prop :=
  ∃ deadline, waitConnectDeadline d start = some deadline ∧
    ∀ (snap : IdleSnapshot) (inFlightHandshakes : ℕ), snap.createdTotal = 0 →
      evaluateWaitConnect false snap inFlightHandshakes deadline now =
        some (decide ((d : ℤ) * 1000000 ≤ now - start ∧
          (inFlightHandshakes > 0 → ((d : ℤ) + 1000) * 1000000 ≤ now - start)), false)

/-- The test before the first connection. -/
theorem evaluateWaitConnect_waiting {snap : IdleSnapshot} (inFlight : ℕ) (deadline now : ℤ)
    (hnone : snap.createdTotal = 0) : evaluateWaitConnect false snap inFlight deadline now =
      if now < deadline then some (false, false)
      else if inFlight > 0 then
        (signed64 (deadline + 1000000000)).bind fun last => some (decide (¬ now < last), false)
      else some (true, false) := by
  have hcreated : ¬ snap.createdTotal > 0 := by omega
  unfold evaluateWaitConnect
  rw [if_neg Bool.false_ne_true, if_neg hcreated]
  rfl

theorem waitConnectDeadline_eq (d : ℕ) (start : ℤ) : waitConnectDeadline d start =
    (toNanoseconds (milliseconds d)).bind fun ns => signed64 (start + ns) := rfl

/-- The nanoseconds of the duration, the deadline, and the end of the window for a handshake where it is
asked for, are 64-bit numbers. -/
def DeadlineFits (d : ℕ) (start now : ℤ) : Prop :=
  (d : ℤ) * 1000000 < 2 ^ 63 ∧ start + (d : ℤ) * 1000000 < 2 ^ 63 ∧
    (start + (d : ℤ) * 1000000 ≤ now → start + (d : ℤ) * 1000000 + 1000000000 < 2 ^ 63)

theorem deadlineHonoured_of_fits {d : ℕ} (h : d ≤ uint64Max) {start now : ℤ} (hstart : Fits64 start)
    (hfits : DeadlineFits d start now) : DeadlineHonoured d start now := by
  obtain ⟨hns, hdeadline, hwindow⟩ := hfits
  obtain ⟨hlower, -⟩ := hstart
  have hms : 0 ≤ (d : ℤ) * 1000000 := by omega
  refine ⟨start + (d : ℤ) * 1000000, ?_, ?_⟩
  · rw [waitConnectDeadline_eq, toNanoseconds_of_lt h hns, Option.bind_some]
    exact signed64_of_fits ⟨by omega, hdeadline⟩
  intro snap inFlight hnone
  rw [evaluateWaitConnect_waiting inFlight _ now hnone]
  by_cases hearly : now < start + (d : ℤ) * 1000000
  · have hpending : ¬ ((d : ℤ) * 1000000 ≤ now - start ∧
        (inFlight > 0 → ((d : ℤ) + 1000) * 1000000 ≤ now - start)) := by
      rintro ⟨hdue, -⟩
      omega
    rw [if_pos hearly, decide_eq_false hpending]
  have hdue : (d : ℤ) * 1000000 ≤ now - start := by omega
  rw [if_neg hearly]
  by_cases hbusy : inFlight > 0
  · have hlast : signed64 (start + (d : ℤ) * 1000000 + 1000000000) =
        some (start + (d : ℤ) * 1000000 + 1000000000) :=
      signed64_of_fits ⟨by omega, hwindow (not_lt.1 hearly)⟩
    have hsame : ¬ now < start + (d : ℤ) * 1000000 + 1000000000 ↔
        (d : ℤ) * 1000000 ≤ now - start ∧ (inFlight > 0 → ((d : ℤ) + 1000) * 1000000 ≤ now - start) := by
      constructor
      · intro hlate
        exact ⟨hdue, fun _ => by omega⟩
      · rintro ⟨-, hlong⟩
        have := hlong hbusy
        omega
    rw [if_pos hbusy, hlast, Option.bind_some, decide_eq_decide.2 hsame]
  · have hgone : (d : ℤ) * 1000000 ≤ now - start ∧
        (inFlight > 0 → ((d : ℤ) + 1000) * 1000000 ≤ now - start) := ⟨hdue, fun h => absurd h hbusy⟩
    rw [if_neg hbusy, decide_eq_true hgone]

theorem fits_of_deadlineHonoured {d : ℕ} (h : d ≤ uint64Max) {start now : ℤ} (hstart : Fits64 start)
    (hnow : Fits64 now) (hle : start ≤ now) (hhonoured : DeadlineHonoured d start now) :
    DeadlineFits d start now := by
  obtain ⟨hlower, -⟩ := hstart
  obtain ⟨-, hupper⟩ := hnow
  obtain ⟨deadline, harmed, hexact⟩ := hhonoured
  have hquiet := hexact ⟨0, 0⟩ 0 rfl
  have hbusy := hexact ⟨0, 0⟩ 1 rfl
  rw [evaluateWaitConnect_waiting _ _ now rfl] at hquiet hbusy
  rw [waitConnectDeadline_eq] at harmed
  have hns : (d : ℤ) * 1000000 < 2 ^ 63 := by
    by_contra hlong
    cases hconv : toNanoseconds (milliseconds d) with
    | none =>
      rw [hconv] at harmed
      nomatch harmed
    | some ns =>
      -- the deadline lies before the start
      obtain ⟨hneg, hhuge⟩ := toNanoseconds_of_ge h (not_lt.1 hlong) hconv
      rw [hconv, Option.bind_some] at harmed
      unfold signed64 at harmed
      by_cases hsum : Fits64 (start + ns)
      · rw [if_pos hsum] at harmed
        have hbefore : deadline = start + ns := (Option.some.inj harmed).symm
        have hlate : ¬ now < deadline := by omega
        rw [if_neg hlate, if_neg (Nat.lt_irrefl 0), Option.some.injEq, Prod.mk.injEq] at hquiet
        have hdue := (of_decide_eq_true hquiet.1.symm).1
        omega
      · rw [if_neg hsum] at harmed
        nomatch harmed
  rw [toNanoseconds_of_lt h hns, Option.bind_some] at harmed
  have hdeadline : start + (d : ℤ) * 1000000 < 2 ^ 63 := by
    by_contra hlong
    have hover : ¬ Fits64 (start + (d : ℤ) * 1000000) := fun hfits => hlong hfits.2
    rw [signed64_of_not_fits hover] at harmed
    nomatch harmed
  refine ⟨hns, hdeadline, fun hlate => ?_⟩
  rw [signed64_of_fits ⟨by omega, hdeadline⟩, Option.some.injEq] at harmed
  subst harmed
  by_contra hlong
  have hover : ¬ Fits64 (start + (d : ℤ) * 1000000 + 1000000000) := fun hfits => hlong hfits.2
  rw [if_neg (not_lt.2 hlate), if_pos Nat.one_pos, signed64_of_not_fits hover] at hbusy
  nomatch hbusy

/-- **Accepted durations.** For every text that one of the two options accepts, with value `d`, and all clock
readings of which the second is not earlier: the timer runs without overflow and is the exact test of the time
that has passed against `d`, exactly if `d` in nanoseconds, the elapsed time (for the grace) and the deadline
(for the first connection) are signed 64-bit numbers. -/
theorem durations_honoured_iff (value : Text) (d : ℕ) (start now : Int64) (hle : start.toInt ≤ now.toInt) :
    (onceIdleGraceMs value = .ok d → (GraceHonoured d start.toInt now.toInt ↔
      (d : ℤ) * 1000000 < 2 ^ 63 ∧ now.toInt - start.toInt < 2 ^ 63)) ∧
    (waitConnectTimeoutMs value = .ok d → (DeadlineHonoured d start.toInt now.toInt ↔
      (d : ℤ) * 1000000 < 2 ^ 63 ∧ start.toInt + (d : ℤ) * 1000000 < 2 ^ 63 ∧
        (start.toInt + (d : ℤ) * 1000000 ≤ now.toInt →
          start.toInt + (d : ℤ) * 1000000 + 1000000000 < 2 ^ 63))) := by
  have hstart := fits64_toInt start
  have hnow := fits64_toInt now
  constructor
  · intro hparsed
    exact graceHonoured_iff (parsePositiveDuration_le hparsed) hle
  · intro hparsed
    have hd := parsePositiveDuration_le hparsed
    exact ⟨fits_of_deadlineHonoured hd hstart hnow hle, deadlineHonoured_of_fits hd hstart⟩

/-- Five minutes, from the tenth second of the clock on. -/
theorem durations_honoured_5min : GraceHonoured 300000 10000000000 10200000000 ∧
    DeadlineHonoured 300000 10000000000 10200000000 := by
  have hboth := durations_honoured_iff ['5', 'm', 'i', 'n'] 300000 10000000000 10200000000 (by decide)
  exact ⟨(hboth.1 (by decide +kernel)).2 (by decide), (hboth.2 (by decide +kernel)).2 (by decide)⟩

/-- A number of seconds just below `2 ^ 64` milliseconds is accepted, and its grace has passed after a tick. -/
theorem grace_fires_at_once :
    onceIdleGraceMs "18446744073709551s".toList = .ok 18446744073709551000 ∧
    evaluateIdleGrace 18446744073709551000 ⟨1, 0⟩ 10200000000 (some 10000000000) =
      some (some 10000000000, true) ∧
    ¬ ∀ (value : Text) (d : ℕ) (start now : Int64), start.toInt ≤ now.toInt →
      onceIdleGraceMs value = .ok d ∨ waitConnectTimeoutMs value = .ok d →
      GraceHonoured d start.toInt now.toInt ∧ DeadlineHonoured d start.toInt now.toInt := by
  have haccepted : onceIdleGraceMs "18446744073709551s".toList = .ok 18446744073709551000 := by decide +kernel
  have hfires : evaluateIdleGrace 18446744073709551000 ⟨1, 0⟩ 10200000000 (some 10000000000) =
      some (some 10000000000, true) := by decide +kernel
  refine ⟨haccepted, hfires, fun h => ?_⟩
  have hhonoured := (h _ _ 10000000000 10200000000 (by decide) (Or.inl haccepted)).1 ⟨1, 0⟩ Nat.one_pos rfl
  exact absurd hhonoured (by decide +kernel)

end FastClone.Durations
