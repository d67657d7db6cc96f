import FastClone.Proof.Compare
import FastClone.Spec.Mtime

/-!
# Where the conversions of a modification time are exact

* `conversionsAgree_iff`: the four conversions run without overflow and name one instant, exactly outside
  the ticks whose nanoseconds need more than 63 bits. Only `TryNormalizeMtimeToUnixNs` looks before it
  multiplies.
* `toleranceExact_iff`: the comparison of two times is the one of the integers, exactly if the times lie
  less than `2 ^ 63` apart. Times that have a reading always do.
-/

namespace FastClone.Mtime

open FastClone.Wire
open FastClone.Compare (Fits64 Timespec kLikelyUnixNsThreshold kWindowsEpochDiff100ns int64Max int64Min
  wrap64_of_fits llabs_of_fits decideCompare CompareMode kMtimeToleranceNs kLegacyRawTolerance)

theorem signed64_of_fits {x : ℤ} (h : Fits64 x) : signed64 x = some x := if_pos h

theorem signed64_of_not_fits {x : ℤ} (h : ¬ Fits64 x) : signed64 x = none := if_neg h

theorem fits64_toInt (m : Int64) : Fits64 m.toInt := ⟨m.le_toInt, m.toInt_lt⟩

/-! ### The conversions -/

/-- The instant that a manifest time names, in nanoseconds since 1970. -/
def instant (m : ℤ) : ℤ :=
  if m > 500000000000000000 then m
  else if m < 116444736000000000 then max m 0
  else (m - 116444736000000000) * 100

/-- The times whose conversion stays within 64 bits. -/
def Representable (m : ℤ) : Prop := m ≤ 208678456368547758 ∨ 500000000000000000 < m

instance (m : ℤ) : Decidable (Representable m) := inferInstanceAs (Decidable (_ ∨ _))

/-- The ticks since 1970 are always a number of 64 bits, -/
theorem signed64_ticks {m : ℤ} (hlow : ¬ m < 116444736000000000) (hbig : ¬ m > 500000000000000000) :
    signed64 (m - 116444736000000000) = some (m - 116444736000000000) :=
  signed64_of_fits ⟨by omega, by omega⟩

/-- and their nanoseconds exactly up to the year 2262. -/
theorem signed64_nanos {m : ℤ} (hlow : ¬ m < 116444736000000000) (hbig : ¬ m > 500000000000000000) :
    signed64 ((m - 116444736000000000) * 100) =
      if Representable m then some ((m - 116444736000000000) * 100) else none := by
  by_cases hrep : Representable m
  · rw [if_pos hrep]
    unfold Representable at hrep
    exact signed64_of_fits ⟨by omega, by omega⟩
  · rw [if_neg hrep]
    unfold Representable at hrep
    apply signed64_of_not_fits
    rintro ⟨-, hupper⟩
    omega

theorem representable_of_small {m : ℤ} (h : m < 116444736000000000) : Representable m := Or.inl (by omega)

theorem clamp_eq_max (m : ℤ) : (if m < 0 then 0 else m) = max m 0 := by
  split <;> omega

/-- `NormalizeManifestMtimeToUnixNs`, as a whole. -/
theorem normalizeManifest_eq (m : ℤ) :
    normalizeManifestMtimeToUnixNs m = if Representable m then some (instant m) else none := by
  unfold normalizeManifestMtimeToUnixNs instant
  rw [kLikelyUnixNsThreshold, kWindowsEpochDiff100ns]
  by_cases hbig : m > 500000000000000000
  · have hrep : Representable m := Or.inr hbig
    rw [if_pos hbig, if_pos hbig, if_pos hrep]
  by_cases hlow : m < 116444736000000000
  · rw [if_neg hbig, if_pos hlow, if_neg hbig, if_pos hlow, if_pos (representable_of_small hlow), clamp_eq_max]
  · rw [if_neg hbig, if_neg hlow, if_neg hbig, if_neg hlow, signed64_ticks hlow hbig]
    simp only [Option.bind_eq_bind, Option.bind_some, signed64_nanos hlow hbig]
    by_cases hrep : Representable m
    · have hnonneg : ¬ (m - 116444736000000000) * 100 < 0 := by omega
      simp only [if_pos hrep, Option.bind_some, if_neg hnonneg, Option.pure_def]
    · simp only [if_neg hrep, Option.bind_none]

/-- Seconds and nanoseconds hold the whole time. -/
theorem unixNs_split (x : ℤ) :
    (⟨x.tdiv 1000000000, x.tmod 1000000000⟩ : Timespec).unixNs = x := by
  have hmul := Int.tdiv_mul_add_tmod x 1000000000
  unfold Timespec.unixNs
  omega

/-- Both `ToTimespecFromNs`. -/
theorem toTimespec_eq (m : ℤ) : toTimespec 500000000000000000 116444736000000000 m =
    if Representable m then
      some ⟨(instant m).tdiv 1000000000, (instant m).tmod 1000000000⟩
    else none := by
  unfold toTimespec instant
  by_cases hbig : m > 500000000000000000
  · have hrep : Representable m := Or.inr hbig
    have hnonneg : ¬ m < 0 := by omega
    simp only [if_pos hbig, if_pos hrep, Option.bind_eq_bind, Option.bind_some, if_neg hnonneg, Option.pure_def]
  by_cases hlow : m < 116444736000000000
  · have hge : ¬ m ≥ 116444736000000000 := by omega
    simp only [if_neg hbig, if_neg hge, if_pos hlow, if_pos (representable_of_small hlow), Option.bind_eq_bind,
      Option.bind_some, clamp_eq_max, Option.pure_def]
  · have hge : m ≥ 116444736000000000 := not_lt.1 hlow
    simp only [if_neg hbig, if_pos hge, if_neg hlow, signed64_ticks hlow hbig, signed64_nanos hlow hbig,
      Option.bind_eq_bind, Option.bind_some]
    by_cases hrep : Representable m
    · have hnonneg : ¬ (m - 116444736000000000) * 100 < 0 := by omega
      simp only [if_pos hrep, Option.bind_some, if_neg hnonneg, Option.pure_def]
    · simp only [if_neg hrep, Option.bind_none]

/-- `TryNormalizeMtimeToUnixNs` never overflows: it looks before it multiplies. -/
theorem tryNormalize_eq (m : ℤ) : tryNormalizeMtimeToUnixNs m = some (Compare.tryNormalizeMtimeToUnixNs m) := by
  have hmax : int64Max.tdiv 100 = 92233720368547758 := by decide
  have hmin : int64Min.tdiv 100 = -92233720368547758 := by decide
  rw [Compare.normalize_eq]
  unfold tryNormalizeMtimeToUnixNs
  rw [hmax, hmin, kLikelyUnixNsThreshold, kWindowsEpochDiff100ns]
  by_cases hbig : m > 500000000000000000
  · rw [if_pos hbig, if_pos hbig]
  by_cases hlow : m < 116444736000000000
  · rw [if_neg hbig, if_pos hlow, if_neg hbig, if_pos (Or.inl hlow)]
  · rw [if_neg hbig, if_neg hlow, if_neg hbig, signed64_ticks hlow hbig]
    simp only [Option.bind_eq_bind, Option.bind_some]
    by_cases hhigh : m > 208678456368547758
    · have hguard : m - 116444736000000000 > 92233720368547758 := by omega
      rw [if_pos (Or.inl hguard), if_pos (Or.inr hhigh)]
    · have hrep : Representable m := Or.inl (not_lt.1 hhigh)
      have hguard : ¬ (m - 116444736000000000 > 92233720368547758 ∨ m - 116444736000000000 < -92233720368547758) := by
        omega
      have hread : ¬ (m < 116444736000000000 ∨ m > 208678456368547758) := by omega
      rw [if_neg hguard, if_neg hread, signed64_nanos hlow hbig, if_pos hrep]
      rfl

/-- What `TryNormalizeMtimeToUnixNs` reads is the instant. -/
theorem tryNormalize_instant {m u : ℤ} (h : Compare.tryNormalizeMtimeToUnixNs m = some u) : u = instant m := by
  rw [Compare.normalize_eq] at h
  unfold instant
  by_cases hbig : m > 500000000000000000
  · rw [if_pos hbig] at h ⊢
    exact (Option.some.inj h).symm
  · rw [if_neg hbig] at h ⊢
    by_cases hread : m < 116444736000000000 ∨ m > 208678456368547758
    · rw [if_pos hread] at h
      nomatch h
    · rw [if_neg hread] at h
      rw [if_neg (fun hlow => hread (Or.inl hlow))]
      exact (Option.some.inj h).symm

/-- None of the four conversions overflows, and they name one instant. -/
def ConversionsAgree (m : ℤ) : Prop :=
  ∃ unixNs posix uring read, normalizeManifestMtimeToUnixNs m = some unixNs ∧
    Posix.toTimespecFromNs m = some posix ∧ Uring.toTimespecFromNs m = some uring ∧
    tryNormalizeMtimeToUnixNs m = some read ∧
    posix.unixNs = unixNs ∧ uring.unixNs = unixNs ∧ ∀ u, read = some u → u = unixNs

/-- **The conversions of a time.** For every 64-bit number: no conversion overflows and all name the same
instant, exactly if the number is not one of the ticks from 2262 on. -/
theorem conversionsAgree_iff (m : Int64) :
    ConversionsAgree m.toInt ↔ m.toInt ≤ 208678456368547758 ∨ 500000000000000000 < m.toInt := by
  constructor
  · rintro ⟨unixNs, -, -, -, hnormalize, -⟩
    rw [normalizeManifest_eq] at hnormalize
    by_contra hnot
    have hover : ¬ Representable m.toInt := hnot
    rw [if_neg hover] at hnormalize
    nomatch hnormalize
  · intro hrep
    have hstamp := (toTimespec_eq m.toInt).trans (if_pos hrep)
    have hsplit := unixNs_split (instant m.toInt)
    exact ⟨_, _, _, _, (normalizeManifest_eq _).trans (if_pos hrep), hstamp, hstamp, tryNormalize_eq _,
      hsplit, hsplit, fun u hu => tryNormalize_instant hu⟩

/-- A file time of the year 2551, in ticks. -/
theorem conversions_overflow_2551 : ¬ ∀ m : Int64, ConversionsAgree m.toInt := by
  intro h
  have hrep := (normalizeManifest_eq (300000000000000000 : Int64).toInt).trans (if_neg (by decide))
  obtain ⟨unixNs, -, -, -, hnormalize, -⟩ := h 300000000000000000
  rw [hrep] at hnormalize
  nomatch hnormalize

/-- Where nothing overflows, the operations that wrap give the same instant. -/
theorem normalizeManifest_wrapping {m u : ℤ} (h : normalizeManifestMtimeToUnixNs m = some u) :
    Compare.normalizeManifestMtimeToUnixNs m = u := by
  rw [normalizeManifest_eq] at h
  by_cases hrep : Representable m
  · have hdefined : Compare.StampDefined m := by
      intro hlow hbig
      rw [kWindowsEpochDiff100ns] at hlow ⊢
      rw [kLikelyUnixNsThreshold] at hbig
      unfold Representable at hrep
      exact ⟨by omega, by omega⟩
    rw [if_pos hrep] at h
    rw [← Compare.unixNs_toTimespec, Compare.stamp_eq m hdefined]
    exact Option.some.inj h
  · rw [if_neg hrep] at h
    cases h

/-! ### The tolerance -/

/-- `within`, as a whole: the difference and its absolute value fit together. -/
theorem within_eq (tolerance a b : ℤ) :
    within tolerance a b = if |a - b| < 2 ^ 63 then some (decide (|a - b| ≤ tolerance)) else none := by
  unfold within llabs
  by_cases hclose : |a - b| < 2 ^ 63
  · have hbounds := abs_lt.1 hclose
    have habs : (if a - b < 0 then -(a - b) else a - b) = |a - b| := by
      split
      · rename_i hneg
        exact (abs_of_neg hneg).symm
      · rename_i hnonneg
        exact (abs_of_nonneg (not_lt.1 hnonneg)).symm
    have hpos := abs_nonneg (a - b)
    have hdifference : signed64 (a - b) = some (a - b) := signed64_of_fits ⟨by omega, by omega⟩
    have hdelta : signed64 |a - b| = some |a - b| := signed64_of_fits ⟨by omega, by omega⟩
    simp only [hdifference, habs, hdelta, if_pos hclose, Option.bind_eq_bind, Option.bind_some, Option.pure_def]
  · rw [if_neg hclose]
    by_cases hfits : Fits64 (a - b)
    · -- only `-2 ^ 63` has no absolute value
      have hmin : a - b = -2 ^ 63 := by
        obtain ⟨hlower, hupper⟩ := hfits
        rw [abs_lt] at hclose
        omega
      rw [hmin]
      rfl
    · simp only [signed64_of_not_fits hfits, Option.bind_eq_bind, Option.bind_none]

theorem within_comm (tolerance a b : ℤ) : within tolerance a b = within tolerance b a := by
  simp only [within_eq, abs_sub_comm a b]

/-- The two numbers that are compared. -/
def comparedTimes (l r : ℤ) : ℤ × ℤ :=
  match Compare.tryNormalizeMtimeToUnixNs l, Compare.tryNormalizeMtimeToUnixNs r with
  | some localUnixNs, some remoteUnixNs => (localUnixNs, remoteUnixNs)
  | _, _ => (l, r)

theorem comparedTimes_swap (l r : ℤ) : comparedTimes r l = (comparedTimes l r).swap := by
  unfold comparedTimes
  cases Compare.tryNormalizeMtimeToUnixNs l with
  | none => cases Compare.tryNormalizeMtimeToUnixNs r <;> rfl
  | some a => cases Compare.tryNormalizeMtimeToUnixNs r <;> rfl

/-- `MtimeWithinTolerance`, as a whole. -/
theorem mtimeWithinTolerance_eq (l r : ℤ) :
    mtimeWithinTolerance l r = within 2000000 (comparedTimes l r).1 (comparedTimes l r).2 := by
  unfold mtimeWithinTolerance comparedTimes
  rw [tryNormalize_eq, tryNormalize_eq]
  simp only [Option.bind_eq_bind, Option.bind_some]
  cases Compare.tryNormalizeMtimeToUnixNs l with
  | none => rfl
  | some a => cases Compare.tryNormalizeMtimeToUnixNs r <;> rfl

/-- A time that has a reading is not negative, and neither is its reading. -/
theorem tryNormalize_bounds {m u : ℤ} (hm : Fits64 m) (h : Compare.tryNormalizeMtimeToUnixNs m = some u) :
    0 ≤ m ∧ 0 ≤ u ∧ u < 2 ^ 63 := by
  obtain ⟨-, hupper⟩ := hm
  rw [Compare.normalize_eq] at h
  by_cases hbig : m > 500000000000000000
  · rw [if_pos hbig] at h
    have := Option.some.inj h
    omega
  · rw [if_neg hbig] at h
    by_cases hread : m < 116444736000000000 ∨ m > 208678456368547758
    · rw [if_pos hread] at h
      nomatch h
    · rw [if_neg hread] at h
      have := Option.some.inj h
      omega

/-- The difference that is taken fits exactly if that of the raw times does. -/
theorem comparedTimes_fits {l r : ℤ} (hl : Fits64 l) (hr : Fits64 r) :
    |(comparedTimes l r).1 - (comparedTimes l r).2| < 2 ^ 63 ↔ |l - r| < 2 ^ 63 := by
  unfold comparedTimes
  cases hln : Compare.tryNormalizeMtimeToUnixNs l with
  | none => rfl
  | some a =>
    cases hrn : Compare.tryNormalizeMtimeToUnixNs r with
    | none => rfl
    | some b =>
      have ha := tryNormalize_bounds hl hln
      have hb := tryNormalize_bounds hr hrn
      obtain ⟨-, hlupper⟩ := hl
      obtain ⟨-, hrupper⟩ := hr
      dsimp only
      rw [abs_lt, abs_lt]
      omega

/-- Where nothing overflows, the operations that wrap give the same answer. -/
theorem mtimeWithinTolerance_wrapping {l r : ℤ} {b : Bool} (h : mtimeWithinTolerance l r = some b) :
    Compare.mtimeWithinTolerance l r = b := by
  rw [mtimeWithinTolerance_eq, within_eq] at h
  have hfst : (Compare.mtimeDelta l r).1 = (comparedTimes l r).1 - (comparedTimes l r).2 := by
    unfold Compare.mtimeDelta comparedTimes
    cases Compare.tryNormalizeMtimeToUnixNs l with
    | none => rfl
    | some a => cases Compare.tryNormalizeMtimeToUnixNs r <;> rfl
  have hsnd : (Compare.mtimeDelta l r).2 = 2000000 := by
    unfold Compare.mtimeDelta
    cases Compare.tryNormalizeMtimeToUnixNs l with
    | none => rfl
    | some a => cases Compare.tryNormalizeMtimeToUnixNs r <;> rfl
  by_cases hclose : |(comparedTimes l r).1 - (comparedTimes l r).2| < 2 ^ 63
  · rw [if_pos hclose] at h
    have hbounds := abs_lt.1 hclose
    have hdefined : Compare.DeltaDefined l r := by
      unfold Compare.DeltaDefined
      rw [hfst]
      exact ⟨⟨by omega, by omega⟩, by omega⟩
    have hiff := Compare.mtimeWithinTolerance_iff hdefined
    rw [hfst, hsnd] at hiff
    rw [← Option.some.inj h]
    exact Bool.eq_iff_iff.2 (hiff.trans (decide_eq_true_iff).symm)
  · rw [if_neg hclose] at h
    nomatch h

/-- The test of two times is that of the integers: it does not overflow, says whether they are at most 2 ms
apart, does not ask in which order they come, and no comparison that looks at times takes two files with
times further apart for the same without a hash. -/
def ToleranceExact (l r : ℤ) : Prop :=
  mtimeWithinTolerance l r = some (decide (|(comparedTimes l r).1 - (comparedTimes l r).2| ≤ 2000000)) ∧
  mtimeWithinTolerance r l = mtimeWithinTolerance l r ∧
  ∀ (mode : CompareMode) (localFile remoteFile : FileEntry), mode ≠ .sizeOnly →
    localFile.mtimeNs.toInt = l → remoteFile.mtimeNs.toInt = r →
    2000000 < |(comparedTimes l r).1 - (comparedTimes l r).2| →
    decideCompare mode (some localFile) remoteFile ≠ ⟨.same, false⟩

/-- A comparison that looks at times says `Same` without a hash only if the test does. -/
theorem decideCompare_same {mode : CompareMode} {localFile remoteFile : FileEntry} (hmode : mode ≠ .sizeOnly)
    (h : decideCompare mode (some localFile) remoteFile = ⟨.same, false⟩) :
    Compare.mtimeWithinTolerance localFile.mtimeNs.toInt remoteFile.mtimeNs.toInt = true := by
  unfold decideCompare at h
  dsimp only at h
  by_cases hsize : localFile.fileSize ≠ remoteFile.fileSize
  · rw [if_pos hsize] at h
    nomatch h
  rw [if_neg hsize] at h
  cases mode with
  | sizeOnly => exact absurd rfl hmode
  | strict => nomatch h
  | fast =>
    cases hwithin : Compare.mtimeWithinTolerance localFile.mtimeNs.toInt remoteFile.mtimeNs.toInt with
    | true => rfl
    | false =>
      simp only [hwithin] at h
      nomatch h

/-- **The tolerance.** For every two 64-bit times, `MtimeWithinTolerance` is the test of the integers, exactly
if the times are less than `2 ^ 63` apart. -/
theorem toleranceExact_iff (l r : Int64) :
    ToleranceExact l.toInt r.toInt ↔ |l.toInt - r.toInt| < 2 ^ 63 := by
  have hl := fits64_toInt l
  have hr := fits64_toInt r
  have hfits := comparedTimes_fits hl hr
  constructor
  · rintro ⟨hexact, -⟩
    rw [mtimeWithinTolerance_eq, within_eq] at hexact
    by_contra hfar
    rw [if_neg (fun hclose => hfar (hfits.1 hclose))] at hexact
    nomatch hexact
  · intro hclose
    have hexact : mtimeWithinTolerance l.toInt r.toInt =
        some (decide (|(comparedTimes l.toInt r.toInt).1 - (comparedTimes l.toInt r.toInt).2| ≤ 2000000)) := by
      rw [mtimeWithinTolerance_eq, within_eq, if_pos (hfits.2 hclose)]
    refine ⟨hexact, ?_, ?_⟩
    · rw [mtimeWithinTolerance_eq, mtimeWithinTolerance_eq, comparedTimes_swap]
      exact within_comm _ _ _
    · intro mode localFile remoteFile hmode hlocal hremote hapart hsame
      have hwithin := decideCompare_same hmode hsame
      rw [hlocal, hremote, mtimeWithinTolerance_wrapping hexact, decide_eq_true_eq] at hwithin
      omega

/-- The two ends of the range are taken for neighbours: the difference wraps to 1. -/
theorem tolerance_wraps : decideCompare .fast (some (Compare.timed (-9223372036854775808)))
      (Compare.timed 9223372036854775807) = ⟨.same, false⟩ ∧
    ¬ ∀ l r : Int64, ToleranceExact l.toInt r.toInt := by
  have hsame : decideCompare .fast (some (Compare.timed (-9223372036854775808)))
      (Compare.timed 9223372036854775807) = ⟨.same, false⟩ := by decide +kernel
  refine ⟨hsame, fun h => ?_⟩
  obtain ⟨-, -, hhash⟩ := h (-9223372036854775808) 9223372036854775807
  exact hhash .fast _ _ (by decide) rfl rfl (by decide +kernel) hsame

end FastClone.Mtime
