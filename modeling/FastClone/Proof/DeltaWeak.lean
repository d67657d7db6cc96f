import Mathlib.Data.ZMod.Basic
import Mathlib.Tactic.Ring
import Mathlib.Tactic.LinearCombination
import FastClone.Spec.Delta

/-!
# The rolling weak checksum

The checksum is 32-bit arithmetic with a 16-bit mask, so only residues modulo `2^16`
matter (`low`). `weakRoll_weakInit`: **rolling the checksum of a window by one byte
gives the checksum of the next window.** `weakRolls_eq`: so does any number of rolls
that stays inside the sequence.
-/

namespace FastClone.Delta

/-- A 32-bit word modulo `2^16`. -/
def low (x : UInt32) : ZMod 65536 := (x.toNat : ZMod 65536)

theorem low_mod (n : ℕ) : ((n % 2 ^ 32 : ℕ) : ZMod 65536) = (n : ZMod 65536) := by
  rw [ZMod.natCast_eq_natCast_iff']
  omega

@[simp] theorem low_add (x y : UInt32) : low (x + y) = low x + low y := by
  rw [low, UInt32.toNat_add, low_mod, Nat.cast_add]
  rfl

@[simp] theorem low_mul (x y : UInt32) : low (x * y) = low x * low y := by
  rw [low, UInt32.toNat_mul, low_mod, Nat.cast_mul]
  rfl

@[simp] theorem low_sub (x y : UInt32) : low (x - y) = low x - low y := by
  have h : low (x - y + y) = low (x - y) + low y := low_add _ _
  rw [UInt32.sub_add_cancel] at h
  rw [h, add_sub_cancel_right]

@[simp] theorem low_one : low 1 = 1 := by decide

theorem low_ofNat (n : ℕ) : low (UInt32.ofNat n) = n := by
  rw [low, UInt32.toNat_ofNat', low_mod]

theorem mask_toNat (x : UInt32) : (x &&& 0xFFFF).toNat = x.toNat % 65536 := by
  rw [UInt32.toNat_and]
  exact Nat.and_two_pow_sub_one_eq_mod x.toNat 16

@[simp] theorem low_mask (x : UInt32) : low (x &&& 0xFFFF) = low x := by
  rw [low, mask_toNat, low, ZMod.natCast_eq_natCast_iff']
  omega

/-- The mask keeps exactly the residue. -/
theorem mask_eq_of_low {x y : UInt32} (h : low x = low y) : x &&& 0xFFFF = y &&& 0xFFFF := by
  apply UInt32.toNat_inj.1
  rw [mask_toNat, mask_toNat]
  exact (ZMod.natCast_eq_natCast_iff' _ _ _).1 h

/-- Plain sum of a window. -/
def plainSum : Bytes → ZMod 65536
  | [] => 0
  | x :: X => low x.toUInt32 + plainSum X

/-- Weighted sum of a window, the first byte weighted with `k + 1`. -/
def weightedSum : ℕ → Bytes → ZMod 65536
  | _, [] => 0
  | k, x :: X => (k + 1) * low x.toUInt32 + weightedSum (k + 1) X

theorem plainSum_append (X : Bytes) (y : UInt8) :
    plainSum (X ++ [y]) = plainSum X + low y.toUInt32 := by
  induction X with
  | nil => simp [plainSum]
  | cons x X ih => simp only [List.cons_append, plainSum, ih]; ring

theorem weightedSum_append (X : Bytes) (y : UInt8) (k : ℕ) :
    weightedSum k (X ++ [y]) = weightedSum k X + (k + X.length + 1) * low y.toUInt32 := by
  induction X generalizing k with
  | nil => simp [weightedSum]
  | cons x X ih =>
    simp only [List.cons_append, weightedSum, ih, List.length_cons]
    push_cast
    ring

theorem weightedSum_succ (X : Bytes) (k : ℕ) :
    weightedSum (k + 1) X = weightedSum k X + plainSum X := by
  induction X generalizing k with
  | nil => simp [weightedSum, plainSum]
  | cons x X ih =>
    simp only [weightedSum, plainSum, ih]
    push_cast
    ring

/-- The accumulation loop of `weakInit`. -/
theorem weakInit_foldl (X : Bytes) (a b j : UInt32) (k : ℕ) (hj : low j = k) :
    let acc := X.foldl (fun (a : UInt32 × UInt32 × UInt32) x =>
      (a.1 + x.toUInt32, a.2.1 + (a.2.2 + 1) * x.toUInt32, a.2.2 + 1)) (a, b, j)
    low acc.1 = low a + plainSum X ∧ low acc.2.1 = low b + weightedSum k X := by
  induction X generalizing a b j k with
  | nil => simp [plainSum, weightedSum]
  | cons x X ih =>
    obtain ⟨h1, h2⟩ := ih (a + x.toUInt32) (b + (j + 1) * x.toUInt32) (j + 1) (k + 1) (by simp [hj])
    simp only [List.foldl_cons, plainSum, weightedSum]
    rw [h1, h2]
    simp only [low_add, low_mul, low_one, hj]
    exact ⟨by ring, by ring⟩

theorem weakInit_low (X : Bytes) :
    low (weakInit X).s1 = plainSum X ∧ low (weakInit X).s2 = weightedSum 0 X := by
  obtain ⟨h1, h2⟩ := weakInit_foldl X 0 0 0 0 (by decide)
  have h0 : low 0 = 0 := by decide
  simp only [weakInit, low_mask]
  rw [h1, h2, h0]
  exact ⟨by ring, by ring⟩

/-- A masked state is determined by its residues. -/
theorem weakInit_eq {X : Bytes} {s1 s2 : UInt32} (h1 : low s1 = plainSum X)
    (h2 : low s2 = weightedSum 0 X) : (⟨s1 &&& 0xFFFF, s2 &&& 0xFFFF⟩ : RollingWeak) = weakInit X := by
  obtain ⟨hs1, hs2⟩ := weakInit_low X
  have e1 := mask_eq_of_low (h1.trans hs1.symm)
  have e2 := mask_eq_of_low (h2.trans hs2.symm)
  rw [e1, e2]
  simp only [weakInit, UInt32.and_assoc, UInt32.and_self]

/-- **One roll.** -/
theorem weakRoll_weakInit (x y : UInt8) (X : Bytes) :
    weakRoll (weakInit (x :: X)) x y (X.length + 1) = weakInit (X ++ [y]) := by
  obtain ⟨h1, h2⟩ := weakInit_low (x :: X)
  simp only [plainSum, weightedSum, Nat.cast_zero, zero_add, one_mul] at h1 h2
  -- both words are masked, so their residues are enough
  unfold weakRoll
  apply weakInit_eq
  · rw [low_sub, low_add, h1, plainSum_append]
    ring
  · -- each byte that stays loses one of its weight, the sum of them all together
    have h3 := weightedSum_succ X 0
    rw [zero_add] at h3
    rw [low_sub, low_add, low_mul, low_ofNat, h1, h2, h3, weightedSum_append]
    push_cast
    ring

/-- One roll along a buffer. -/
theorem weakRoll_slice {old : Bytes} {p L : ℕ} (hL : 0 < L) (h : p + L < old.length) :
    weakRoll (weakInit (slice old p L)) (old.getD p 0) (old.getD (p + L) 0) L =
      weakInit (slice old (p + 1) L) := by
  obtain ⟨n, rfl⟩ : ∃ n, L = n + 1 := ⟨L - 1, by omega⟩
  have hhead : slice old p (n + 1) = old.getD p 0 :: slice old (p + 1) n := by
    unfold slice
    rw [List.drop_eq_getElem_cons (show p < old.length by omega), List.take_succ_cons]
    simp [List.getD_eq_getElem?_getD, List.getElem?_eq_getElem (show p < old.length by omega)]
  have hlast : slice old (p + 1) (n + 1) = slice old (p + 1) n ++ [old.getD (p + (n + 1)) 0] := by
    unfold slice
    rw [List.take_add_one, List.getElem?_drop, show p + 1 + n = p + (n + 1) by omega,
      List.getElem?_eq_getElem h, List.getD_eq_getElem?_getD, List.getElem?_eq_getElem h]
    rfl
  have hlen : (slice old (p + 1) n).length = n := by
    simp only [slice, List.length_take, List.length_drop]
    omega
  have := weakRoll_weakInit (old.getD p 0) (old.getD (p + (n + 1)) 0) (slice old (p + 1) n)
  rwa [hlen, ← hhead, ← hlast] at this

/-- The checksum after `n` rolls along `X`, from the checksum of its first window. -/
def weakRolls (X : Bytes) (L : ℕ) : ℕ → RollingWeak
  | 0 => weakInit (slice X 0 L)
  | n + 1 => weakRoll (weakRolls X L n) (X.getD n 0) (X.getD (n + L) 0) L

/-- **`n` rolls reach the checksum of the window at `n`.** -/
theorem weakRolls_eq (X : Bytes) (L n : ℕ) (hL : 1 ≤ L) (hn : n + L ≤ X.length) :
    weakRolls X L n = weakInit (slice X n L) := by
  induction n with
  | zero => rfl
  | succ n ih =>
    have hprev : weakRolls X L n = weakInit (slice X n L) := ih (by omega)
    rw [weakRolls, hprev]
    exact weakRoll_slice hL (by omega)

theorem weakRolls_eq_bytes :
    weakRolls [200, 17, 255, 3, 90] 3 2 = weakInit (slice [200, 17, 255, 3, 90] 2 3) :=
  weakRolls_eq [200, 17, 255, 3, 90] 3 2 (by decide) (by decide)

end FastClone.Delta
