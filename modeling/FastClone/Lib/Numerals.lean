import Mathlib.Data.List.GetD
import Mathlib.Data.Nat.Digits.Lemmas

/-!
# Numerals

Digits with the most significant first, as they are written and as they are sent.

* `numeral_div_pow`: leaving out the last digits is a division.
* `div_two_pow_iff`: when two numbers agree on their first bits, in terms of their digits.
-/

namespace Numerals

/-- The number that the digits stand for in base `b`. -/
def numeral (b : ℕ) (ds : List ℕ) : ℕ := Nat.ofDigits b ds.reverse

variable {b : ℕ}

@[simp] theorem numeral_nil (b : ℕ) : numeral b [] = 0 := rfl

@[simp] theorem numeral_singleton (b d : ℕ) : numeral b [d] = d := by simp [numeral]

theorem numeral_append (b : ℕ) (xs ys : List ℕ) :
    numeral b (xs ++ ys) = numeral b xs * b ^ ys.length + numeral b ys := by
  unfold numeral
  rw [List.reverse_append, Nat.ofDigits_append, List.length_reverse, Nat.mul_comm, Nat.add_comm]

/-- One more digit. -/
theorem numeral_snoc (b : ℕ) (xs : List ℕ) (d : ℕ) : numeral b (xs ++ [d]) = numeral b xs * b + d := by
  rw [numeral_append, numeral_singleton, List.length_singleton, pow_one]

theorem numeral_lt (hb : 1 < b) {ds : List ℕ} (h : ∀ d ∈ ds, d < b) : numeral b ds < b ^ ds.length := by
  have hlt := Nat.ofDigits_lt_base_pow_length hb fun d hd => h d (List.mem_reverse.1 hd)
  rwa [List.length_reverse] at hlt

/-- Digits of one length that stand for one number are the same. -/
theorem numeral_inj (hb : 1 < b) {xs ys : List ℕ} (hlen : xs.length = ys.length) (hx : ∀ d ∈ xs, d < b)
    (hy : ∀ d ∈ ys, d < b) : numeral b xs = numeral b ys ↔ xs = ys := by
  constructor
  · intro h
    have hlen' : xs.reverse.length = ys.reverse.length := by simp [hlen]
    have hrev := Nat.ofDigits_inj_of_len_eq hb hlen' (fun d hd => hx d (List.mem_reverse.1 hd))
      (fun d hd => hy d (List.mem_reverse.1 hd)) h
    exact List.reverse_injective hrev
  · exact congrArg _

/-- Without the last digits. -/
theorem numeral_div_pow (hb : 1 < b) {ds : List ℕ} (h : ∀ d ∈ ds, d < b) (k : ℕ) :
    numeral b ds / b ^ (ds.length - k) = numeral b (ds.take k) := by
  have hsplit : numeral b ds = numeral b (ds.take k) * b ^ (ds.drop k).length + numeral b (ds.drop k) := by
    rw [← numeral_append, List.take_append_drop]
  have hlt : numeral b (ds.drop k) < b ^ (ds.drop k).length := numeral_lt hb fun d hd => h d (List.mem_of_mem_drop hd)
  have hpos : 0 < b ^ (ds.drop k).length := Nat.pow_pos (by omega)
  rw [hsplit, ← List.length_drop, Nat.mul_comm, Nat.mul_add_div hpos, Nat.div_eq_of_lt hlt, Nat.add_zero]

/-- Two digits for each one: the same number in the smaller base. -/
theorem numeral_flatMap_sq (b : ℕ) (ds : List ℕ) :
    numeral b (ds.flatMap fun d => [d / b, d % b]) = numeral (b ^ 2) ds := by
  induction ds using List.reverseRecOn with
  | nil => rfl
  | append_singleton ds d ih =>
    have hd : d / b * b + d % b = d := by rw [Nat.mul_comm]; exact Nat.div_add_mod d b
    rw [List.flatMap_append, List.flatMap_singleton, numeral_append, ih, numeral_snoc]
    have htwo : numeral b [d / b, d % b] = d := by
      have := numeral_snoc b [d / b] (d % b)
      rw [numeral_singleton] at this
      exact this.trans hd
    rw [htwo, List.length_cons, List.length_singleton]

/-! ### The first bits -/

variable {w : ℕ}

/-- The first `w * k + r` bits: the first `k` digits, and the first `r` bits of the next. -/
theorem numeral_div_two_pow (hw : 0 < w) {ds : List ℕ} (h : ∀ d ∈ ds, d < 2 ^ w) {k r : ℕ} (hr : r < w)
    (hk : k < ds.length) : numeral (2 ^ w) ds / 2 ^ (w * ds.length - (w * k + r)) =
      numeral (2 ^ w) (ds.take k) * 2 ^ r + ds[k] / 2 ^ (w - r) := by
  have hb : 1 < 2 ^ w := Nat.one_lt_two_pow (by omega)
  have hle : w * (k + 1) ≤ w * ds.length := Nat.mul_le_mul_left w hk
  have hexp : w * ds.length - (w * k + r) = w * (ds.length - (k + 1)) + (w - r) := by
    rw [Nat.mul_sub]
    rw [Nat.mul_succ] at hle ⊢
    omega
  have hword : ∀ n : ℕ, n * 2 ^ w = 2 ^ (w - r) * (n * 2 ^ r) := by
    intro n
    have hpow : 2 ^ w = 2 ^ r * 2 ^ (w - r) := by
      rw [← Nat.pow_add]
      congr 1
      omega
    rw [hpow]
    ring
  rw [hexp, Nat.pow_add, Nat.pow_mul, ← Nat.div_div_eq_div_mul, numeral_div_pow hb h,
    List.take_succ_eq_append_getElem hk, numeral_snoc, hword, Nat.mul_add_div (Nat.two_pow_pos _)]

/-- The first bits of a digit. -/
theorem div_two_pow_lt {d r : ℕ} (hd : d < 2 ^ w) (hr : r ≤ w) : d / 2 ^ (w - r) < 2 ^ r := by
  apply Nat.div_lt_of_lt_mul
  rw [← Nat.pow_add]
  have hexp : w - r + r = w := by omega
  rwa [hexp]

/-- **The first bits.** Two numbers agree on their first `w * k + r` bits exactly if they agree on the first `k`
digits and on the first `r` bits of the next. -/
theorem div_two_pow_iff (hw : 0 < w) {xs ys : List ℕ} (hlen : xs.length = ys.length) (hx : ∀ d ∈ xs, d < 2 ^ w)
    (hy : ∀ d ∈ ys, d < 2 ^ w) {k r : ℕ} (hr : r < w) (hk : w * k + r ≤ w * xs.length) :
    numeral (2 ^ w) xs / 2 ^ (w * xs.length - (w * k + r)) = numeral (2 ^ w) ys / 2 ^ (w * xs.length - (w * k + r)) ↔
      xs.take k = ys.take k ∧ (r = 0 ∨ xs.getD k 0 / 2 ^ (w - r) = ys.getD k 0 / 2 ^ (w - r)) := by
  have hb : 1 < 2 ^ w := Nat.one_lt_two_pow (by omega)
  have htake : numeral (2 ^ w) (xs.take k) = numeral (2 ^ w) (ys.take k) ↔ xs.take k = ys.take k :=
    numeral_inj hb (by simp [hlen]) (fun d hd => hx d (List.mem_of_mem_take hd))
      fun d hd => hy d (List.mem_of_mem_take hd)
  rcases Nat.eq_zero_or_pos r with rfl | hpos
  · have hexp : w * xs.length - (w * k + 0) = w * (xs.length - k) := by rw [Nat.add_zero, Nat.mul_sub]
    have hdivy : numeral (2 ^ w) ys / (2 ^ w) ^ (xs.length - k) = numeral (2 ^ w) (ys.take k) := by
      rw [hlen]
      exact numeral_div_pow hb hy k
    rw [hexp, Nat.pow_mul, numeral_div_pow hb hx, hdivy, htake]
    simp
  · have hkx : k < xs.length := by
      by_contra hge
      have := Nat.mul_le_mul_left w (Nat.not_lt.1 hge)
      omega
    have hky : k < ys.length := hlen ▸ hkx
    have hdivy := numeral_div_two_pow hw hy hr hky
    rw [← hlen] at hdivy
    have hltx := div_two_pow_lt (hx _ (List.getElem_mem hkx)) hr.le
    have hlty := div_two_pow_lt (hy _ (List.getElem_mem hky)) hr.le
    rw [numeral_div_two_pow hw hx hr hkx, hdivy, List.getD_eq_getElem _ _ hkx, List.getD_eq_getElem _ _ hky, ← htake]
    generalize numeral (2 ^ w) (xs.take k) = m at *
    generalize numeral (2 ^ w) (ys.take k) = n at *
    -- the bits of the next digit are too few to reach into the digits before it
    constructor
    · intro h
      have hdiv : ∀ l z : ℕ, z < 2 ^ r → (l * 2 ^ r + z) / 2 ^ r = l := by
        intro l z hz
        rw [Nat.mul_comm, Nat.mul_add_div (Nat.two_pow_pos r), Nat.div_eq_of_lt hz, Nat.add_zero]
      have hm : m = n := by
        rw [← hdiv m _ hltx, h, hdiv n _ hlty]
      subst hm
      exact ⟨rfl, .inr (Nat.add_left_cancel h)⟩
    · rintro ⟨rfl, h0 | h⟩
      · omega
      · rw [h]

end Numerals
