import Mathlib.Tactic.Ring
import Mathlib.Tactic.LinearCombination
import FastClone.Spec.DeltaStream
import FastClone.Proof.DeltaPlan

/-!
# Early stop

* `mul64Full_value`: the portable 128-bit product is exact.
* `projectedRejected_eq`: once something is scanned, the projection is the inequality
  `matched * oldLen * 100 ≤ newBytes * 35 * scanned`, for all sizes below `2 ^ 57`.
* `planOfScan_stopped`: a plan that stopped early is empty and is rejected as a whole.
-/

namespace FastClone.Delta

/-- The number that a pair of 64-bit words stands for. -/
def U128.value (x : U128) : ℕ := x.hi * 2 ^ 64 + x.lo

/-! ### The product -/

/-- The four partial products and the carry fit their words. -/
theorem mul64Full_parts {aHi aLo bHi bLo : ℕ} (h1 : aHi < 2 ^ 32) (h2 : aLo < 2 ^ 32)
    (h3 : bHi < 2 ^ 32) (h4 : bLo < 2 ^ 32) :
    aLo * bLo ≤ (2 ^ 32 - 1) * (2 ^ 32 - 1) ∧ aLo * bHi ≤ (2 ^ 32 - 1) * (2 ^ 32 - 1) ∧
      aHi * bLo ≤ (2 ^ 32 - 1) * (2 ^ 32 - 1) ∧ aHi * bHi ≤ (2 ^ 32 - 1) * (2 ^ 32 - 1) := by
  refine ⟨?_, ?_, ?_, ?_⟩ <;> exact Nat.mul_le_mul (by omega) (by omega)

/-- Schoolbook multiplication of two numbers of two 32-bit digits. -/
theorem mul_digits (aHi aLo bHi bLo : ℕ) : (aHi * 2 ^ 32 + aLo) * (bHi * 2 ^ 32 + bLo) =
    aHi * bHi * 2 ^ 64 + (aLo * bHi + aHi * bLo) * 2 ^ 32 + aLo * bLo := by
  ring

/-- The words of the result, put together from the halves of the partial products. -/
theorem carry_value {hihi lohi hilo lolo : ℕ} :
    let cross := lolo / 2 ^ 32 + lohi % 2 ^ 32 + hilo % 2 ^ 32
    (hihi + lohi / 2 ^ 32 + hilo / 2 ^ 32 + cross / 2 ^ 32) * 2 ^ 64 +
      (cross % 2 ^ 32 * 2 ^ 32 + lolo % 2 ^ 32) = hihi * 2 ^ 64 + (lohi + hilo) * 2 ^ 32 + lolo := by
  intro cross
  have h1 := Nat.div_add_mod lolo (2 ^ 32)
  have h2 := Nat.div_add_mod lohi (2 ^ 32)
  have h3 := Nat.div_add_mod hilo (2 ^ 32)
  have h4 : 2 ^ 32 * (cross / 2 ^ 32) + cross % 2 ^ 32 = lolo / 2 ^ 32 + lohi % 2 ^ 32 + hilo % 2 ^ 32 :=
    Nat.div_add_mod cross (2 ^ 32)
  generalize cross / 2 ^ 32 = c1 at *
  generalize cross % 2 ^ 32 = c0 at *
  linear_combination (2 ^ 32 : ℕ) * h4 + h1 + (2 ^ 32 : ℕ) * h2 + (2 ^ 32 : ℕ) * h3

/-- **The portable product is exact**, and both words are 64-bit words. -/
theorem mul64Full_value {a b : ℕ} (ha : a < 2 ^ 64) (hb : b < 2 ^ 64) :
    (mul64Full a b).value = a * b ∧ (mul64Full a b).hi < 2 ^ 64 ∧ (mul64Full a b).lo < 2 ^ 64 := by
  have hprod := mul_digits (a / 2 ^ 32) (a % 2 ^ 32) (b / 2 ^ 32) (b % 2 ^ 32)
  have hda : a / 2 ^ 32 * 2 ^ 32 + a % 2 ^ 32 = a := Nat.div_add_mod' a _
  have hdb : b / 2 ^ 32 * 2 ^ 32 + b % 2 ^ 32 = b := Nat.div_add_mod' b _
  rw [hda, hdb] at hprod
  obtain ⟨h1, h2, h3, h4⟩ := @mul64Full_parts (a / 2 ^ 32) (a % 2 ^ 32) (b / 2 ^ 32) (b % 2 ^ 32) (by omega) (by omega) (by omega) (by omega)
  unfold U128.value mul64Full mul64 add64
  dsimp only
  generalize a % 2 ^ 32 * (b % 2 ^ 32) = lolo at *
  generalize a % 2 ^ 32 * (b / 2 ^ 32) = lohi at *
  generalize a / 2 ^ 32 * (b % 2 ^ 32) = hilo at *
  generalize a / 2 ^ 32 * (b / 2 ^ 32) = hihi at *
  rw [hprod]
  -- no partial product and no sum wraps
  have e1 : lolo % 2 ^ 64 = lolo := Nat.mod_eq_of_lt (by omega)
  have e2 : lohi % 2 ^ 64 = lohi := Nat.mod_eq_of_lt (by omega)
  have e3 : hilo % 2 ^ 64 = hilo := Nat.mod_eq_of_lt (by omega)
  have e4 : hihi % 2 ^ 64 = hihi := Nat.mod_eq_of_lt (by omega)
  rw [e1, e2, e3, e4]
  have hsum : ((lolo / 2 ^ 32 + lohi % 2 ^ 32) % 2 ^ 64 + hilo % 2 ^ 32) % 2 ^ 64 =
      lolo / 2 ^ 32 + lohi % 2 ^ 32 + hilo % 2 ^ 32 := by omega
  rw [hsum]
  generalize hcross : lolo / 2 ^ 32 + lohi % 2 ^ 32 + hilo % 2 ^ 32 = cross
  have hor : lolo % 2 ^ 32 ||| cross * 2 ^ 32 % 2 ^ 64 = cross % 2 ^ 32 * 2 ^ 32 + lolo % 2 ^ 32 := by
    have hshift : cross * 2 ^ 32 % 2 ^ 64 = 2 ^ 32 * (cross % 2 ^ 32) := by omega
    rw [hshift, Nat.or_comm, ← Nat.two_pow_add_eq_or_of_lt (by omega), Nat.mul_comm]
  have hinner : ((hihi + lohi / 2 ^ 32) % 2 ^ 64 + hilo / 2 ^ 32) % 2 ^ 64 =
      hihi + lohi / 2 ^ 32 + hilo / 2 ^ 32 := by omega
  have hhi : hihi + lohi / 2 ^ 32 + hilo / 2 ^ 32 + cross / 2 ^ 32 < 2 ^ 64 := by omega
  rw [hor, hinner, Nat.mod_eq_of_lt hhi]
  have hvalue := @carry_value hihi lohi hilo lolo
  dsimp only at hvalue
  rw [hcross] at hvalue
  have hlo : cross % 2 ^ 32 * 2 ^ 32 + lolo % 2 ^ 32 < 2 ^ 64 := by omega
  exact ⟨hvalue, hhi, hlo⟩

theorem lessEqual128_iff {x y : U128} (hx : x.lo < 2 ^ 64) (hy : y.lo < 2 ^ 64) :
    lessEqual128 x y = true ↔ x.value ≤ y.value := by
  unfold lessEqual128 U128.value
  simp only [Bool.or_eq_true, Bool.and_eq_true, decide_eq_true_eq]
  omega

/-- The comparison of two 128-bit products. -/
theorem lessEqual128_mul64Full {a b c d : ℕ} (ha : a < 2 ^ 64) (hb : b < 2 ^ 64) (hc : c < 2 ^ 64)
    (hd : d < 2 ^ 64) : lessEqual128 (mul64Full a b) (mul64Full c d) = true ↔ a * b ≤ c * d := by
  obtain ⟨hx, -, hxlo⟩ := mul64Full_value ha hb
  obtain ⟨hy, -, hylo⟩ := mul64Full_value hc hd
  rw [lessEqual128_iff hxlo hylo, hx, hy]

/-! ### The two tests -/

/-- Sizes for which the constants fold into one factor. -/
def kMaxProjected : ℕ := 2 ^ 57

/-- **The projection is the integer inequality**, once something is scanned. -/
theorem projectedRejected_eq {matchedBytes scannedBytes oldLen newFileBytes : ℕ} (hm : matchedBytes < kMaxProjected)
    (hs : scannedBytes < kMaxProjected) (ho : oldLen < kMaxProjected) (hn : newFileBytes < kMaxProjected)
    (hpos : 0 < scannedBytes) : projectedRejected matchedBytes scannedBytes oldLen newFileBytes =
      decide (matchedBytes * oldLen * 100 ≤ newFileBytes * 35 * scannedBytes) := by
  unfold kMaxProjected at hm hs ho hn
  have hleft : mul64 oldLen kBenefitPercentDen = oldLen * 100 := Nat.mod_eq_of_lt (by unfold kBenefitPercentDen; omega)
  have hright : mul64 scannedBytes (kBenefitPercentDen - kBenefitPercentNum) = scannedBytes * 35 :=
    Nat.mod_eq_of_lt (by unfold kBenefitPercentDen kBenefitPercentNum; omega)
  unfold projectedRejected
  rw [if_neg (by omega), hleft, hright, Bool.eq_iff_iff, decide_eq_true_eq,
    lessEqual128_mul64Full (by omega) (by omega) (by omega) (by omega)]
  have hl : matchedBytes * (oldLen * 100) = matchedBytes * oldLen * 100 := by ring
  have hr : newFileBytes * (scannedBytes * 35) = newFileBytes * 35 * scannedBytes := by ring
  rw [hl, hr]

/-- A download of the whole file is rejected. -/
theorem benefitRejected_whole {n : ℕ} (hn : n < kMaxProjected) : benefitRejected n n = true := by
  unfold kMaxProjected at hn
  unfold benefitRejected mul64 kBenefitPercentDen kBenefitPercentNum
  have hleft : n * 100 % 2 ^ 64 = n * 100 := Nat.mod_eq_of_lt (by omega)
  have hright : n * 65 % 2 ^ 64 = n * 65 := Nat.mod_eq_of_lt (by omega)
  apply decide_eq_true
  omega

/-! ### The plan -/

/-- Nothing of the plan is there to be applied: no operation, and the whole-plan test rejects. -/
structure DeltaPlan.Rejected (plan : DeltaPlan) : Prop where
  copies : plan.copies = []
  misses : plan.misses = []
  rejected : benefitRejected plan.downloadBytes plan.newFileBytes = true

theorem planOfScan_stopped {sig : SignatureSet} {r : ScanLog × ℕ × Bool} (hsize : sig.fileSize < kMaxProjected)
    (hstop : (planOfScan sig r).stats.earlyStopped = true) : (planOfScan sig r).Rejected := by
  rw [planOfScan_earlyStopped] at hstop
  unfold planOfScan
  rw [if_pos hstop]
  exact ⟨rfl, rfl, benefitRejected_whole hsize⟩

theorem buildPlan_stopped {strongHash : Bytes → Strong} {sig : SignatureSet} {old : Bytes} {opt : BuildOptions}
    (hsize : sig.fileSize < kMaxProjected) (hstop : (buildPlan strongHash sig old opt).stats.earlyStopped = true) :
    (buildPlan strongHash sig old opt).Rejected := by
  unfold buildPlan at hstop ⊢
  split at hstop
  · cases hstop
  · rename_i h
    rw [dif_neg h]
    exact planOfScan_stopped hsize hstop

theorem buildPlanStreaming_stopped {σ : Type} {strongHash : Bytes → Strong} {sig : SignatureSet} {oldLen : ℕ}
    {source : ByteSource σ} {s : σ} {opt : StreamingPlanOptions} {onCopy : Bool} (hsize : sig.fileSize < kMaxProjected)
    (hstop : (buildPlanStreaming strongHash sig oldLen source s opt onCopy).1.stats.earlyStopped = true) :
    (buildPlanStreaming strongHash sig oldLen source s opt onCopy).1.Rejected := by
  unfold buildPlanStreaming at hstop ⊢
  split at hstop
  · cases hstop
  · rename_i h
    rw [dif_neg h]
    exact planOfScan_stopped hsize hstop

/-- **Early-stop arithmetic is exact**: the portable product is the 128-bit product, the
projection is the integer inequality once something is scanned (and never rejects before), and
no plan of either planner that stopped early can be applied. -/
theorem earlyStop_exact (strongHash : Bytes → Strong) :
    (∀ a b : UInt64, (mul64Full a.toNat b.toNat).value = a.toNat * b.toNat ∧
      (mul64Full a.toNat b.toNat).hi < 2 ^ 64 ∧ (mul64Full a.toNat b.toNat).lo < 2 ^ 64) ∧
    (∀ matchedBytes < kMaxProjected, ∀ scannedBytes < kMaxProjected, ∀ oldLen < kMaxProjected,
      ∀ newFileBytes < kMaxProjected, projectedRejected matchedBytes scannedBytes oldLen newFileBytes =
        (decide (0 < scannedBytes) &&
          decide (matchedBytes * oldLen * 100 ≤ newFileBytes * 35 * scannedBytes))) ∧
    (∀ sig : SignatureSet, sig.fileSize < kMaxProjected → ∀ old : Bytes, old.length < kMaxProjected →
      ∀ opt, (buildPlan strongHash sig old opt).stats.earlyStopped = true →
        (buildPlan strongHash sig old opt).Rejected) ∧
    (∀ sig : SignatureSet, sig.fileSize < kMaxProjected → ∀ oldLen < kMaxProjected,
      ∀ (σ : Type) (source : ByteSource σ) (s : σ) (opt : StreamingPlanOptions) (onCopy : Bool),
        (buildPlanStreaming strongHash sig oldLen source s opt onCopy).1.stats.earlyStopped = true →
          (buildPlanStreaming strongHash sig oldLen source s opt onCopy).1.Rejected) := by
  refine ⟨fun a b => mul64Full_value a.toNat_lt b.toNat_lt, ?_, ?_, ?_⟩
  · intro m hm s hs o ho n hn
    by_cases hpos : 0 < s
    · rw [projectedRejected_eq hm hs ho hn hpos, decide_eq_true hpos, Bool.true_and]
    · -- nothing scanned: the explicit guard
      rw [decide_eq_false hpos, Bool.false_and]
      exact if_pos (by omega)
  · intro sig hsize old _ opt hstop
    exact buildPlan_stopped hsize hstop
  · intro sig hsize oldLen _ σ source s opt onCopy hstop
    exact buildPlanStreaming_stopped hsize hstop

/-- A file of one byte in a block of two: the scan of the old file has no candidate. -/
def shortSignature : SignatureSet :=
  { fileSize := 1, blockSize := 2, blockCount := 1, blocks := #[default], blockSize_lt := SignatureSet.two_lt,
    blockCount_lt := SignatureSet.one_lt }

theorem shortSignature_stops : (buildPlan (fun _ => Vector.replicate 16 0) shortSignature [9, 9, 9, 9, 9]
    { prefixBytesOverride := 1 }).stats.earlyStopped = true := by
  have hfull : fullBlocks shortSignature = [] := by decide
  have hnone : ∀ weak32, (buildCsr shortSignature).candidates weak32 = [] := by
    intro weak32
    rw [candidates_eq, hfull, List.reverse_nil, List.filter_nil, List.map_nil]
  have hlong : ([9, 9, 9, 9, 9] : Bytes).length ≥ shortSignature.blockSize := by decide
  rw [buildPlan_earlyStopped (by decide) (by decide), scan, if_pos hlong, scanLoop, hnone]
  have hstop : stopHere shortSignature ([9, 9, 9, 9, 9] : Bytes).length { prefixBytesOverride := 1 }
      (ScanLog.init shortSignature.blockCount).matchedBytes (0 + 1)
      (prefixBytes shortSignature ([9, 9, 9, 9, 9] : Bytes).length { prefixBytesOverride := 1 }) = true := by decide
  have hmore : ¬ 0 + shortSignature.blockSize ≥ ([9, 9, 9, 9, 9] : Bytes).length := by decide
  simp only [tryCandidates, Bool.false_eq_true, if_false, hstop, if_true, if_neg hmore]

theorem earlyStop_exact_short :
    projectedRejected 50 100 1000 1000 = (decide (0 < 100) && decide (50 * 1000 * 100 ≤ 1000 * 35 * 100)) ∧
      (buildPlan (fun _ => Vector.replicate 16 0) shortSignature [9, 9, 9, 9, 9] { prefixBytesOverride := 1 }).Rejected :=
  ⟨(earlyStop_exact fun _ => Vector.replicate 16 0).2.1 50 (by decide) 100 (by decide) 1000 (by decide) 1000 (by decide),
    (earlyStop_exact fun _ => Vector.replicate 16 0).2.2.1 shortSignature (by decide) _ (by decide) _
      shortSignature_stops⟩

/-- Before anything is scanned the inequality holds and the projection does not reject. -/
theorem projection_unscanned : projectedRejected 0 0 1 1 = false ∧ 0 * 1 * 100 ≤ 1 * 35 * 0 := by
  decide

end FastClone.Delta
