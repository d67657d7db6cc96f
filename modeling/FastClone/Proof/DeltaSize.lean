import Mathlib.Data.Nat.Sqrt
import Mathlib.Tactic.Linarith
import Mathlib.Tactic.Ring
import FastClone.Spec.Delta

/-!
# Integer square root, block size and block count

`isqrt64Checked_eq`: the bitwise root with every sum and difference checked has a value,
the floor of the square root, so nothing overflows on the way; `isqrt64_eq` is the same of
the unchecked `isqrt64`, and `isqrt64_chooseBlockSize` has the block size beside it. The block size
is large enough for the 32-bit block count up to `kMaxCounted` bytes (`blockCount_exact`); just
above, the count wraps to 0 (`blockCount_wraps`).
-/

namespace FastClone.Delta

theorem add64_of_lt {a b : ℕ} (h : a + b < 2 ^ 64) : add64 a b = a + b := Nat.mod_eq_of_lt h

theorem sub64_of_le {a b : ℕ} (h : b ≤ a) (ha : a < 2 ^ 64) : sub64 a b = a - b := by
  unfold sub64
  omega

/-! ### The checked root -/

theorem checkedAdd64_of_lt {a b : ℕ} (h : a + b < 2 ^ 64) : checkedAdd64 a b = some (a + b) :=
  if_pos h

theorem checkedSub64_of_le {a b : ℕ} (h : b ≤ a) : checkedSub64 a b = some (a - b) := if_pos h

/-- The first loop finds the highest power of four at most `value`. -/
theorem isqrtBitChecked_spec {value : ℕ} (hpos : 0 < value) :
    ∀ k, value < 4 ^ (k + 1) →
      ∃ j ≤ k, isqrtBitChecked value k (4 ^ k) = some (4 ^ j) ∧ value < 4 ^ (j + 1) := by
  intro k
  induction k with
  | zero =>
    intro h
    have hle : ¬ 4 ^ 0 > value := by simp; omega
    exact ⟨0, le_refl _, by rw [isqrtBitChecked, if_neg hle], h⟩
  | succ k ih =>
    intro h
    rw [isqrtBitChecked]
    by_cases hgt : 4 ^ (k + 1) > value
    · obtain ⟨j, hj, h1, h2⟩ := ih hgt
      have hdiv : 4 ^ (k + 1) / 4 = 4 ^ k := by rw [pow_succ, Nat.mul_div_cancel _ (by norm_num)]
      rw [if_pos hgt, hdiv]
      exact ⟨j, by omega, h1, h2⟩
    · rw [if_neg hgt]
      exact ⟨k + 1, le_refl _, rfl, h⟩

/-- The second loop with `m` bits left: `R` is the root of the bits done, `v` what is left of
the value and `R * 2^m` the value of `result`. The next bit to be tried is `4^m / 4`. -/
theorem isqrtLoopChecked_spec {value m : ℕ} : ∀ {n R v : ℕ}, m ≤ n → R + 2 ^ m ≤ 2 ^ 32 →
    R * R + v = value → value < (R + 2 ^ m) * (R + 2 ^ m) →
      isqrtLoopChecked n (4 ^ m / 4) v (R * 2 ^ m) = some (Nat.sqrt value) := by
  induction m with
  | zero =>
    intro n R v _ _ hval hlt
    have hroot : R = Nat.sqrt value := by
      apply Nat.eq_sqrt.2
      simp only [pow_zero] at hlt
      exact ⟨by omega, hlt⟩
    have hend : isqrtLoopChecked n 0 v R = some R := by cases n <;> simp [isqrtLoopChecked]
    simpa [← hroot] using hend
  | succ m ih =>
    intro n R v hn hR hval hlt
    obtain ⟨n, rfl⟩ : ∃ k, n = k + 1 := ⟨n - 1, by omega⟩
    -- with `q = 2^m` the trial root is `R + q`, and `result + bit` is what its square adds
    obtain ⟨q, hq⟩ : ∃ q, q = 2 ^ m := ⟨_, rfl⟩
    have hqpos : 0 < q := by rw [hq]; positivity
    have hq2 : 2 ^ (m + 1) = 2 * q := by rw [hq, pow_succ]; omega
    have hbit : 4 ^ (m + 1) / 4 = q * q := by
      rw [pow_succ, Nat.mul_div_cancel _ (by norm_num), hq, ← mul_pow]
      norm_num
    have hnext : q * q = 4 ^ m := by
      rw [hq, ← mul_pow]
      norm_num
    have hhalf : R * (2 * q) / 2 = R * q := by
      rw [show R * (2 * q) = 2 * (R * q) by ring, Nat.mul_div_cancel_left _ (by norm_num)]
    rw [hq2] at hR hlt
    simp only [← hq, ← hnext] at ih
    -- the bits done and the one to be tried fit in 32, so their square fits in 64
    have hsquare : (R + q) * (R + q) = R * R + (R * (2 * q) + q * q) := by ring
    have hroom : (R + q) * (R + q) < 2 ^ 64 := by nlinarith
    have htrial : checkedAdd64 (R * (2 * q)) (q * q) = some (R * (2 * q) + q * q) :=
      checkedAdd64_of_lt (by omega)
    rw [hbit, hq2, isqrtLoopChecked, if_neg (by positivity), htrial, hhalf]
    simp only [Option.bind_eq_bind, Option.bind_some]
    by_cases htake : R * (2 * q) + q * q ≤ v
    · have hsum : R * q + q * q = (R + q) * q := by ring
      have hfits : R * q + q * q < 2 ^ 64 := by nlinarith
      have hlt' : value < (R + q + q) * (R + q + q) := by
        calc value < (R + 2 * q) * (R + 2 * q) := hlt
          _ = (R + q + q) * (R + q + q) := by ring
      rw [if_pos htake, checkedSub64_of_le htake, checkedAdd64_of_lt hfits, hsum]
      apply ih
      · omega
      · omega
      · omega
      · exact hlt'
    · have hlt' : value < (R + q) * (R + q) := by omega
      rw [if_neg htake]
      apply ih
      · omega
      · omega
      · exact hval
      · exact hlt'

/-- **No sum or difference of `Isqrt64` leaves 64 bits.** -/
theorem isqrt64Checked_eq {value : ℕ} (hv : value < 2 ^ 64) :
    isqrt64Checked value = some (Nat.sqrt value) := by
  by_cases h0 : value = 0
  · rw [h0]
    rfl
  · have hv' : value < 4 ^ (31 + 1) := by simpa using hv
    obtain ⟨j, hj, hbit, hlt⟩ := isqrtBitChecked_spec (show 0 < value by omega) 31 hv'
    have hpow : (2 : ℕ) ^ (j + 1) ≤ 2 ^ 32 := Nat.pow_le_pow_right (by norm_num) (by omega)
    have hsquare : (2 : ℕ) ^ (j + 1) * 2 ^ (j + 1) = 4 ^ (j + 1) := by
      rw [← mul_pow]
      norm_num
    have hnext : (4 : ℕ) ^ (j + 1) / 4 = 4 ^ j := by
      rw [pow_succ, Nat.mul_div_cancel _ (by norm_num)]
    have hloop : isqrtLoopChecked 32 (4 ^ (j + 1) / 4) value (0 * 2 ^ (j + 1)) =
        some (Nat.sqrt value) :=
      isqrtLoopChecked_spec (by omega) (by omega) (by omega) (by rwa [zero_add, hsquare])
    rw [hnext, zero_mul] at hloop
    rw [isqrt64Checked, if_neg h0, show (2 : ℕ) ^ 62 = 4 ^ 31 by norm_num, hbit]
    exact hloop

theorem isqrtBit_of_checked {value r : ℕ} :
    ∀ {n bit : ℕ}, isqrtBitChecked value n bit = some r → isqrtBit value n bit = r := by
  intro n
  induction n with
  | zero =>
    intro bit h
    by_cases hgt : bit > value
    · simp [isqrtBitChecked, hgt] at h
    · simpa [isqrtBitChecked, isqrtBit, hgt] using h
  | succ n ih =>
    intro bit h
    rw [isqrtBitChecked] at h
    rw [isqrtBit]
    by_cases hgt : bit > value
    · rw [if_pos hgt] at h ⊢
      exact ih h
    · rw [if_neg hgt] at h ⊢
      exact Option.some.inj h

theorem add64_of_checked {a b r : ℕ} (h : checkedAdd64 a b = some r) : add64 a b = r := by
  unfold checkedAdd64 at h
  split at h
  · rename_i hlt
    rw [add64_of_lt hlt]
    exact Option.some.inj h
  · cases h

theorem sub_of_checked {a b r : ℕ} (h : checkedSub64 a b = some r) : a - b = r := by
  unfold checkedSub64 at h
  split at h
  · exact Option.some.inj h
  · cases h

theorem isqrtLoop_of_checked {r : ℕ} : ∀ {n bit v result : ℕ},
    isqrtLoopChecked n bit v result = some r → isqrtLoop n bit v result = r := by
  intro n
  induction n with
  | zero =>
    intro bit v result h
    by_cases h0 : bit = 0
    · simpa [isqrtLoopChecked, isqrtLoop, h0] using h
    · simp [isqrtLoopChecked, h0] at h
  | succ n ih =>
    intro bit v result h
    rw [isqrtLoopChecked] at h
    rw [isqrtLoop]
    by_cases h0 : bit = 0
    · rw [if_pos h0] at h ⊢
      exact Option.some.inj h
    · rw [if_neg h0] at h ⊢
      obtain ⟨trial, htrial, h⟩ := Option.bind_eq_some_iff.1 h
      rw [add64_of_checked htrial]
      by_cases htake : v ≥ trial
      · rw [if_pos htake] at h ⊢
        obtain ⟨v', hv', h⟩ := Option.bind_eq_some_iff.1 h
        obtain ⟨result', hresult', h⟩ := Option.bind_eq_some_iff.1 h
        rw [sub_of_checked hv', add64_of_checked hresult']
        exact ih h
      · rw [if_neg htake] at h ⊢
        exact ih h

/-- Where the checked root has a value, the code computes it. -/
theorem isqrt64_of_checked {value r : ℕ} (h : isqrt64Checked value = some r) :
    isqrt64 value = r := by
  unfold isqrt64Checked at h
  unfold isqrt64
  by_cases h0 : value = 0
  · rw [if_pos h0] at h ⊢
    exact Option.some.inj h
  · rw [if_neg h0] at h ⊢
    obtain ⟨bit, hbit, h⟩ := Option.bind_eq_some_iff.1 h
    rw [isqrtBit_of_checked hbit]
    exact isqrtLoop_of_checked h

/-- **`isqrt64` is the integer square root.** -/
theorem isqrt64_eq {value : ℕ} (hv : value < 2 ^ 64) : isqrt64 value = Nat.sqrt value :=
  isqrt64_of_checked (isqrt64Checked_eq hv)

/-! ### The block size -/

/-- The block size as a function of the root. -/
theorem chooseBlockSize_eq {fileSize : ℕ} (h : fileSize < 2 ^ 64) :
    chooseBlockSize fileSize =
      min (max ((Nat.sqrt fileSize + 1023) / 1024 * 1024) 2048) 131072 := by
  unfold chooseBlockSize kMinBlock kMaxBlock kBlockAlign
  rw [isqrt64_eq h]
  dsimp only
  split <;> split <;> omega

theorem chooseBlockSize_mono {a b : ℕ} (hab : a ≤ b) (hb : b < 2 ^ 64) :
    chooseBlockSize a ≤ chooseBlockSize b := by
  have hroot : Nat.sqrt a ≤ Nat.sqrt b := Nat.sqrt_le_sqrt hab
  have hunits : (Nat.sqrt a + 1023) / 1024 ≤ (Nat.sqrt b + 1023) / 1024 :=
    Nat.div_le_div_right (by omega)
  rw [chooseBlockSize_eq (show a < 2 ^ 64 by omega), chooseBlockSize_eq hb]
  omega

theorem dvd_chooseBlockSize {fileSize : ℕ} (h : fileSize < 2 ^ 64) :
    1024 ∣ chooseBlockSize fileSize := by
  rw [chooseBlockSize_eq h]
  omega

/-- **The root is the floor of the square root, computed without overflow, and the block
size is monotone, a multiple of 1024 and in range.** -/
theorem isqrt64_chooseBlockSize :
    (∀ value : UInt64, isqrt64Checked value.toNat = some (Nat.sqrt value.toNat) ∧
      isqrt64 value.toNat = Nat.sqrt value.toNat) ∧
    MonotoneOn chooseBlockSize (Set.Iio (2 ^ 64)) ∧
    ∀ fileSize : UInt64, 1024 ∣ chooseBlockSize fileSize.toNat ∧
      2048 ≤ chooseBlockSize fileSize.toNat ∧ chooseBlockSize fileSize.toNat ≤ 131072 := by
  refine ⟨fun value => ?_, fun a _ b hb hab => ?_, fun fileSize => ?_⟩
  · have hv : value.toNat < 2 ^ 64 := value.toNat_lt
    exact ⟨isqrt64Checked_eq hv, isqrt64_eq hv⟩
  · exact chooseBlockSize_mono hab hb
  · exact ⟨dvd_chooseBlockSize fileSize.toNat_lt, kMinBlock_le_chooseBlockSize _,
      chooseBlockSize_le _⟩

/-- The block size is the largest one, or at least the root of the file size. -/
theorem sqrt_le_chooseBlockSize {fileSize : ℕ} (h : fileSize < 2 ^ 64) :
    chooseBlockSize fileSize = kMaxBlock ∨ Nat.sqrt fileSize ≤ chooseBlockSize fileSize := by
  rw [chooseBlockSize_eq h, kMaxBlock]
  omega

/-- Largest content whose block count fits in 32 bits. -/
def kMaxCounted : ℕ := 2 ^ 49 - 2 ^ 17

theorem blockCount_quot_lt {len : ℕ} (hpos : 0 < len) (h : len ≤ kMaxCounted) :
    (len + chooseBlockSize len - 1) / chooseBlockSize len < 2 ^ 32 := by
  have hL := chooseBlockSize_pos len
  unfold kMaxCounted at h
  rw [Nat.div_lt_iff_lt_mul hL]
  rcases sqrt_le_chooseBlockSize (show len < 2 ^ 64 by omega) with hmax | hroot
  · rw [hmax]
    unfold kMaxBlock
    omega
  · have h1 := Nat.lt_succ_sqrt len
    have h2 := chooseBlockSize_le len
    unfold kMaxBlock at h2
    have h3 : (Nat.sqrt len + 1) * (Nat.sqrt len + 1) ≤
        (chooseBlockSize len + 1) * (chooseBlockSize len + 1) :=
      Nat.mul_le_mul (by omega) (by omega)
    have h4 : chooseBlockSize len * chooseBlockSize len ≤ 131072 * chooseBlockSize len :=
      Nat.mul_le_mul_right _ h2
    have h5 : (chooseBlockSize len + 1) * (chooseBlockSize len + 1) =
        chooseBlockSize len * chooseBlockSize len + 2 * chooseBlockSize len + 1 := by ring
    simp only [Nat.succ_eq_add_one] at h1
    omega

section Generate

variable {strongHash : Bytes → Strong} {d : Bytes}

theorem generateSignatures_fileSize : (generateSignatures strongHash d).fileSize = d.length := by
  unfold generateSignatures
  dsimp only
  split <;> rfl

theorem generateSignatures_blockSize (h : 0 < d.length) :
    (generateSignatures strongHash d).blockSize = chooseBlockSize d.length := by
  unfold generateSignatures
  dsimp only
  rw [if_neg (by omega)]

theorem generateSignatures_blockCount (h : 0 < d.length) (h64 : d.length < 2 ^ 63) :
    (generateSignatures strongHash d).blockCount =
      u32 ((d.length + chooseBlockSize d.length - 1) / chooseBlockSize d.length) := by
  have hL := chooseBlockSize_pos d.length
  have hL' := chooseBlockSize_le d.length
  unfold kMaxBlock at hL'
  unfold generateSignatures
  dsimp only
  rw [if_neg (by omega)]
  dsimp only
  rw [add64_of_lt (by omega), sub64_of_le (by omega) (by omega)]

/-- **The block count is exact** up to `kMaxCounted` bytes. -/
theorem blockCount_exact (h : 0 < d.length) (hle : d.length ≤ kMaxCounted) :
    (generateSignatures strongHash d).blockCount =
      (d.length + chooseBlockSize d.length - 1) / chooseBlockSize d.length := by
  have hq := blockCount_quot_lt h hle
  unfold kMaxCounted at hle
  rw [generateSignatures_blockCount h (by omega), u32, Nat.mod_eq_of_lt hq]

/-- Above `kMaxCounted` the largest block is chosen. -/
theorem chooseBlockSize_wraps (h : kMaxCounted < d.length) (hlt : d.length < 2 ^ 49) :
    chooseBlockSize d.length = kMaxBlock := by
  unfold kMaxCounted at h
  have hle := chooseBlockSize_le d.length
  rcases sqrt_le_chooseBlockSize (show d.length < 2 ^ 64 by omega) with hmax | hroot
  · exact hmax
  · have h1 : kMaxBlock ≤ Nat.sqrt d.length := by
      rw [Nat.le_sqrt]
      unfold kMaxBlock
      omega
    omega

/-- **Above `kMaxCounted`, the block count wraps to 0.** -/
theorem blockCount_wraps (h : kMaxCounted < d.length) (hlt : d.length < 2 ^ 49) :
    (generateSignatures strongHash d).blockCount = 0 := by
  have hmax := chooseBlockSize_wraps h hlt
  unfold kMaxCounted at h
  rw [generateSignatures_blockCount (by omega) (by omega), hmax]
  unfold kMaxBlock u32
  omega

end Generate

end FastClone.Delta
