import FastClone.Spec.Compare
import Mathlib.Algebra.Order.Group.Abs
import Mathlib.Algebra.Order.Ring.Int
import Mathlib.Tactic.Ring

/-!
# A second sync of a stamped file

`resync_same_iff`: after a file was stamped with the time of its entry, the comparison says `Same`
without a hash exactly if the time is in `RoundTrips`. The comparison normalizes the stamped
nanoseconds once more, and takes those of the years 1973 to 1985 for ticks; before 1970 the stamp is
cut to 0, and beyond 2262 it overflows.
-/

namespace FastClone.Compare

open FastClone.Wire

theorem wrap64_of_fits {x : ℤ} (h : Fits64 x) : wrap64 x = x := by
  obtain ⟨hlower, hupper⟩ := h
  exact Int.bmod_eq_of_le (by norm_num; omega) (by norm_num; omega)

theorem llabs_of_fits {x : ℤ} (h : Fits64 x) (hne : x ≠ -2 ^ 63) : llabs x = |x| := by
  obtain ⟨hlower, hupper⟩ := h
  unfold llabs
  split
  · rename_i hneg
    rw [abs_of_neg hneg]
    exact wrap64_of_fits ⟨by omega, by omega⟩
  · rename_i hnonneg
    rw [abs_of_nonneg (not_lt.1 hnonneg)]
    exact wrap64_of_fits ⟨hlower, hupper⟩

/-- Where nothing overflows, the times are compared as numbers. -/
theorem mtimeWithinTolerance_iff {l r : ℤ} (h : DeltaDefined l r) :
    mtimeWithinTolerance l r = true ↔ |(mtimeDelta l r).1| ≤ (mtimeDelta l r).2 := by
  unfold mtimeWithinTolerance
  rw [decide_eq_true_eq, wrap64_of_fits h.1, llabs_of_fits h.1 h.2]

/-! ### The stamp -/

/-- Seconds and nanoseconds hold the whole time. -/
theorem unixNs_toTimespec (m : ℤ) : (toTimespecFromNs m).unixNs = normalizeManifestMtimeToUnixNs m := by
  have hsplit : ∀ x : ℤ, x / 1000000000 * 1000000000 + x % 1000000000 = x := by
    intro x
    omega
  unfold toTimespecFromNs Timespec.unixNs normalizeManifestMtimeToUnixNs
  simp only [hsplit]
  split
  · rename_i hbig
    rw [if_neg]
    unfold kLikelyUnixNsThreshold at hbig
    omega
  · split
    · rename_i hticks
      rw [if_neg (not_lt.2 hticks)]
    · rename_i hticks
      rw [if_pos (not_le.1 hticks)]

/-- The stamp, case by case. -/
theorem stamp_eq (m : ℤ) (h : StampDefined m) : (toTimespecFromNs m).unixNs =
    if m > 500000000000000000 then m
    else if m < 116444736000000000 then max m 0
    else (m - 116444736000000000) * 100 := by
  rw [unixNs_toTimespec]
  unfold normalizeManifestMtimeToUnixNs
  unfold StampDefined at h
  rw [kLikelyUnixNsThreshold, kWindowsEpochDiff100ns] at h ⊢
  by_cases hbig : m > 500000000000000000
  · rw [if_pos hbig, if_pos hbig]
  · rw [if_neg hbig, if_neg hbig]
    by_cases hlow : m < 116444736000000000
    · rw [if_pos hlow, if_pos hlow]
      split <;> omega
    · rw [if_neg hlow, if_neg hlow, wrap64_of_fits (h (by omega) (by omega)), if_neg (by omega)]

/-- The reading of a time, case by case. -/
theorem normalize_eq (m : ℤ) : tryNormalizeMtimeToUnixNs m =
    if m > 500000000000000000 then some m
    else if m < 116444736000000000 ∨ m > 208678456368547758 then none
    else some ((m - 116444736000000000) * 100) := by
  have hmax : int64Max / 100 = 92233720368547758 := by decide
  have hmin : int64Min.tdiv 100 = -92233720368547758 := by decide
  unfold tryNormalizeMtimeToUnixNs
  dsimp only
  rw [hmax, hmin, kLikelyUnixNsThreshold, kWindowsEpochDiff100ns]
  split
  · rfl
  · by_cases hlow : m < 116444736000000000
    · rw [if_pos hlow, if_pos (Or.inl hlow)]
    · rw [if_neg hlow]
      by_cases hhigh : m > 208678456368547758
      · rw [if_pos (by omega), if_pos (Or.inr hhigh)]
      · rw [if_neg (by omega), if_neg (by omega)]

/-! ### Stamp and comparison together -/

/-- The times that come back: nanoseconds after 1985, small numbers down to -2 ms, and ticks from
November 1985 to 2262, or within 20 microseconds of the moment in 1973 at which both readings agree. -/
def RoundTrips (m : ℤ) : Prop :=
  500000000000000000 < m ∨ (-2000000 ≤ m ∧ m < 116444736000000000) ∨
    (5000000000000000 < m - 116444736000000000 ∧ m - 116444736000000000 ≤ 92233720368547758) ∨
    |99 * (m - 116444736000000000) - 116444736000000000| ≤ 20000

instance (m : ℤ) : Decidable (RoundTrips m) := inferInstanceAs (Decidable (_ ∨ _ ∧ _ ∨ _ ∧ _ ∨ _))

/-- No overflow in the stamp, none in the comparison with it, and the times are close enough. -/
def StampReadsBack (m : ℤ) : Prop :=
  StampDefined m ∧ DeltaDefined (toTimespecFromNs m).unixNs m ∧
    mtimeWithinTolerance (toTimespecFromNs m).unixNs m = true

/-- Where the entry's time has no reading, the raw times are compared. -/
theorem mtimeDelta_raw {l r : ℤ} (h : tryNormalizeMtimeToUnixNs r = none) : mtimeDelta l r = (l - r, 2000000) := by
  unfold mtimeDelta
  rw [h]
  cases tryNormalizeMtimeToUnixNs l <;> rfl

theorem mtimeDelta_raw_left {l r : ℤ} (h : tryNormalizeMtimeToUnixNs l = none) :
    mtimeDelta l r = (l - r, 2000000) := by
  unfold mtimeDelta
  rw [h]
  cases tryNormalizeMtimeToUnixNs r <;> rfl

theorem mtimeDelta_unix {l r a b : ℤ} (hl : tryNormalizeMtimeToUnixNs l = some a)
    (hr : tryNormalizeMtimeToUnixNs r = some b) : mtimeDelta l r = (a - b, 2000000) := by
  unfold mtimeDelta
  rw [hl, hr]
  rfl

/-- The comparison of two times with a known difference. -/
theorem close_iff {l r d : ℤ} (h : mtimeDelta l r = (d, 2000000)) (hd : Fits64 d) :
    DeltaDefined l r ∧ mtimeWithinTolerance l r = true ↔ |d| ≤ 2000000 := by
  have hfst : (mtimeDelta l r).1 = d := by rw [h]
  have hsnd : (mtimeDelta l r).2 = 2000000 := by rw [h]
  constructor
  · rintro ⟨hdef, hclose⟩
    rw [mtimeWithinTolerance_iff hdef, hfst, hsnd] at hclose
    exact hclose
  · intro hclose
    have hdef : DeltaDefined l r := by
      refine ⟨hfst ▸ hd, ?_⟩
      rw [hfst]
      rw [abs_le] at hclose
      omega
    refine ⟨hdef, ?_⟩
    rw [mtimeWithinTolerance_iff hdef, hfst, hsnd]
    exact hclose

/-- Nanoseconds are stamped as they are. -/
theorem readsBack_unix {m : ℤ} (h : 500000000000000000 < m) : StampReadsBack m := by
  have hstamp : StampDefined m := fun _ hle => absurd hle (not_le.2 h)
  have hn : tryNormalizeMtimeToUnixNs m = some m := by rw [normalize_eq, if_pos h]
  refine ⟨hstamp, ?_⟩
  rw [stamp_eq m hstamp, if_pos h]
  have hzero : mtimeDelta m m = (0, 2000000) := by rw [mtimeDelta_unix hn hn, sub_self]
  exact (close_iff hzero (by decide)).2 (by norm_num)

/-- A number that is neither is stamped as nanoseconds, from 0 on. -/
theorem readsBack_small {m : ℤ} (hm : Fits64 m) (h : m < 116444736000000000) :
    StampReadsBack m ↔ -2000000 ≤ m := by
  have hstamp : StampDefined m := fun hle => absurd hle (not_le.2 h)
  have hn : tryNormalizeMtimeToUnixNs m = none := by
    rw [normalize_eq, if_neg (by omega), if_pos (Or.inl h)]
  obtain ⟨hlower, -⟩ := hm
  unfold StampReadsBack
  rw [stamp_eq m hstamp, if_neg (by omega), if_pos h]
  by_cases hmin : m = -2 ^ 63
  · -- the difference with 0 does not fit
    constructor
    · rintro ⟨-, ⟨hfits, -⟩, -⟩
      rw [mtimeDelta_raw hn, hmin] at hfits
      exact absurd hfits (by decide)
    · intro hge
      omega
  · have hfits : Fits64 (max m 0 - m) := ⟨by omega, by omega⟩
    rw [close_iff (mtimeDelta_raw hn) hfits, abs_le]
    constructor
    · rintro ⟨-, -, hle⟩
      omega
    · intro hge
      exact ⟨hstamp, by omega, by omega⟩

/-- Ticks are stamped as nanoseconds, and these are read once more. -/
theorem readsBack_ticks {m : ℤ} (hlow : 116444736000000000 ≤ m) (hhigh : m ≤ 500000000000000000) :
    StampReadsBack m ↔
      (5000000000000000 < m - 116444736000000000 ∧ m - 116444736000000000 ≤ 92233720368547758) ∨
        |99 * (m - 116444736000000000) - 116444736000000000| ≤ 20000 := by
  have hdefined : StampDefined m ↔ m - 116444736000000000 ≤ 92233720368547758 := by
    unfold StampDefined Fits64 kWindowsEpochDiff100ns kLikelyUnixNsThreshold
    constructor
    · intro h
      have := h hlow hhigh
      omega
    · intro h _ _
      exact ⟨by omega, by omega⟩
  rw [abs_le]
  by_cases hfits : m - 116444736000000000 ≤ 92233720368547758
  swap
  · constructor
    · rintro ⟨hstamp, -⟩
      exact absurd (hdefined.1 hstamp) hfits
    · omega
  have hstamp := hdefined.2 hfits
  have hm : tryNormalizeMtimeToUnixNs m = some ((m - 116444736000000000) * 100) := by
    rw [normalize_eq, if_neg (by omega), if_neg (by omega)]
  unfold StampReadsBack
  rw [stamp_eq m hstamp, if_neg (by omega), if_neg (by omega)]
  obtain ⟨u, hu⟩ : ∃ u, u = (m - 116444736000000000) * 100 := ⟨_, rfl⟩
  rw [← hu] at hm ⊢
  have hstampTrue : StampDefined m ↔ True := iff_true_intro hstamp
  rw [hstampTrue, true_and]
  by_cases hbig : u > 500000000000000000
  · -- read as nanoseconds
    have hn : tryNormalizeMtimeToUnixNs u = some u := by rw [normalize_eq, if_pos hbig]
    have hzero : mtimeDelta u m = (0, 2000000) := by rw [mtimeDelta_unix hn hm, sub_self]
    rw [close_iff hzero (by decide)]
    constructor
    · intro _
      left
      omega
    · intro _
      norm_num
  by_cases hraw : u < 116444736000000000 ∨ u > 208678456368547758
  · -- not read: the stamp against the ticks
    have hn : tryNormalizeMtimeToUnixNs u = none := by rw [normalize_eq, if_neg hbig, if_pos hraw]
    rw [close_iff (mtimeDelta_raw_left hn) ⟨by omega, by omega⟩, abs_le]
    omega
  · -- read as ticks
    have hn : tryNormalizeMtimeToUnixNs u = some ((u - 116444736000000000) * 100) := by
      rw [normalize_eq, if_neg hbig, if_neg hraw]
    rw [close_iff (mtimeDelta_unix hn hm) ⟨by omega, by omega⟩, abs_le]
    omega

theorem stampReadsBack_iff {m : ℤ} (hm : Fits64 m) : StampReadsBack m ↔ RoundTrips m := by
  unfold RoundTrips
  by_cases hbig : 500000000000000000 < m
  · exact iff_of_true (readsBack_unix hbig) (.inl hbig)
  by_cases hlow : m < 116444736000000000
  · rw [readsBack_small hm hlow, abs_le]
    omega
  · rw [readsBack_ticks (not_lt.1 hlow) (not_lt.1 hbig)]
    omega

/-- **A second sync.** A local file of the same size carries the stamp of the entry's time, read back in
nanoseconds. No signed operation overflows and the comparison says `Same` without a hash, exactly if the
time comes back. -/
theorem resync_same_iff (remote localFile : FileEntry) (hsize : localFile.fileSize = remote.fileSize)
    (hstamp : localFile.mtimeNs.toInt = (toTimespecFromNs remote.mtimeNs.toInt).unixNs) :
    (StampDefined remote.mtimeNs.toInt ∧ DeltaDefined localFile.mtimeNs.toInt remote.mtimeNs.toInt ∧
      decideCompare .fast (some localFile) remote = ⟨.same, false⟩) ↔ RoundTrips remote.mtimeNs.toInt := by
  rw [← stampReadsBack_iff ⟨remote.mtimeNs.le_toInt, remote.mtimeNs.toInt_lt⟩, StampReadsBack, ← hstamp]
  refine and_congr_right fun _ => and_congr_right fun _ => ?_
  unfold decideCompare
  dsimp only
  rw [if_neg (fun hne => hne hsize)]
  cases mtimeWithinTolerance localFile.mtimeNs.toInt remote.mtimeNs.toInt with
  | true => simp
  | false => simp

/-- A file of 5 bytes with this time. -/
def timed (m : Int64) : FileEntry := ⟨[102], false, 5, m⟩

/-- The first second of 2026, in ticks. -/
theorem resync_same_2026 : decideCompare .fast (some (timed 1767225600000000000)) (timed 134116992000000000) =
    ⟨.same, false⟩ :=
  ((resync_same_iff (timed 134116992000000000) (timed 1767225600000000000) rfl (by decide)).2 (by decide)).2.2

/-- The first second of 1980, in ticks, as archives often have it. -/
theorem resync_hashes_1980 : ¬ ∀ remote localFile : FileEntry, localFile.fileSize = remote.fileSize →
    localFile.mtimeNs.toInt = (toTimespecFromNs remote.mtimeNs.toInt).unixNs →
    decideCompare .fast (some localFile) remote = ⟨.same, false⟩ := by
  intro h
  have hsame := h (timed 119600064000000000) (timed 315532800000000000) rfl (by decide)
  exact absurd hsame (by decide)

end FastClone.Compare
