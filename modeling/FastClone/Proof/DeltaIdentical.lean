import FastClone.Lib.Greedy
import FastClone.Proof.DeltaEarlyStop
import FastClone.Proof.DeltaGreedy

/-!
# A file against its own signatures

The scan of an unchanged file stays on block boundaries: at each of them some block of the
window's checksums is left (`Greedy.SelfTaken`), so every window matches, the projection never
rejects, and every full block is found.

* `scan_identical`: the scan does not stop early and matches all full blocks.
* `emitPlan_downloadBytes`: a plan downloads the blocks that are not matched.
* `identical_iff`: only the short last block is downloaded, exactly while the 32-bit block
  count does not wrap.
-/

namespace FastClone.Delta

open Greedy

variable {strongHash : Bytes → Strong} {sig : SignatureSet} {d : Bytes} {opt : BuildOptions}

/-! ### The scan -/

/-- What the scan compares of a block. -/
def checksums (sig : SignatureSet) (i : ℕ) : UInt32 × List UInt8 :=
  ((sig.blocks.getD i default).weak, (sig.blocks.getD i default).strong.toList.take sig.strongLen)

/-- `sig` signs `d`, which has `n` full blocks. -/
structure Signs (strongHash : Bytes → Strong) (sig : SignatureSet) (d : Bytes) (n : ℕ) : Prop where
  size : sig.fileSize = d.length
  lo : n * sig.blockSize ≤ d.length
  hi : d.length < n * sig.blockSize + sig.blockSize
  full : ∀ i, i ∈ fullBlocks sig ↔ i < n
  blocks : ∀ i < n, sig.blocks.getD i default =
    ⟨(weakInit (slice d (i * sig.blockSize) sig.blockSize)).value,
      strongHash (slice d (i * sig.blockSize) sig.blockSize)⟩

/-- The window over block `k` hits the blocks with the checksums of block `k`. -/
theorem Signs.windowHit_iff {n k i : ℕ} (h : Signs strongHash sig d n) (hk : k < n) :
    windowHit strongHash sig d (k * sig.blockSize) i = true ↔ checksums sig i = checksums sig k := by
  unfold windowHit checksums strongEq
  rw [h.blocks k hk]
  simp only [Bool.and_eq_true, decide_eq_true_eq, beq_iff_eq, Prod.mk.injEq]
  constructor
  · rintro ⟨hweak, hstrong⟩
    exact ⟨hweak, hstrong.symm⟩
  · rintro ⟨hweak, hstrong⟩
    exact ⟨hweak, hstrong.symm⟩

/-- All that was scanned is matched: the projection does not reject. -/
theorem stopHere_matched {p nextEval : ℕ} (hsize : sig.fileSize = d.length) (hlt : d.length < kMaxProjected)
    (hpos : 0 < p) (hp : p ≤ d.length) : stopHere sig d.length opt p p nextEval = false := by
  have hno : projectedRejected p p d.length sig.fileSize = false := by
    rw [hsize, projectedRejected_eq (by omega) (by omega) hlt hlt hpos, decide_eq_false_iff_not]
    have hprod : 0 < p * d.length := Nat.mul_pos hpos (by omega)
    have hright : d.length * 35 * p = p * d.length * 35 := by ring
    omega
  unfold stopHere
  rw [hno, Bool.and_false]

theorem scanLoop_identical {n : ℕ} {hL : 0 < sig.blockSize} {csr : Csr} (hcsr : Layout sig csr)
    (hs : Signs strongHash sig d n) (hlt : d.length < kMaxProjected) (c : Cursor) (log : ScanLog) :
    ∀ k < n, ∀ taken, c.p = k * sig.blockSize → c.w = weakInit (slice d c.p sig.blockSize) →
      log.matchedBytes = c.p → SelfTaken (checksums sig) n k taken → Records sig log taken →
      (scanLoop strongHash sig csr d opt hL c log).2.2 = false ∧
        ∀ i < n, (scanLoop strongHash sig csr d opt hL c log).1.matched.getD i false = true := by
  -- at block `k` the window matches
  have hwindow : ∀ (c : Cursor) (log : ScanLog), ∀ k < n, ∀ taken, c.p = k * sig.blockSize →
      c.w = weakInit (slice d c.p sig.blockSize) → SelfTaken (checksums sig) n k taken → Records sig log taken →
      ∃ i, SelfTaken (checksums sig) n (k + 1) ((i, c.p) :: taken) ∧
        (tryCandidates strongHash sig d c.p c.w.value (csr.candidates c.w.value) none log).2 = true ∧
        Records sig (tryCandidates strongHash sig d c.p c.w.value (csr.candidates c.w.value) none log).1
          ((i, c.p) :: taken) := by
    intro c log k hk taken hp hw ht hr
    have htry := @tryCandidates_choose strongHash sig d csr hcsr c.p log taken hr
    obtain ⟨i, hi, ht'⟩ := ht.choose (p := c.p) hk
      (fun i => by rw [List.mem_reverse, hs.full]) (fun i _ => by rw [hp]; exact hs.windowHit_iff hk)
    rw [← hw, hi] at htry
    exact ⟨i, ht', htry⟩
  fun_induction scanLoop strongHash sig csr d opt hL c log with
  | case1 c log weak32 r hm log' p hend =>
    intro k hk taken hp hw hb ht hr
    obtain ⟨i, ht', -, hr'⟩ := hwindow c log k hk taken hp hw ht hr
    -- the next block does not fit: this was the last full one
    have hlast : k + 1 = n := by
      have hlo := hs.lo
      have hnext : (k + 2) * sig.blockSize = k * sig.blockSize + sig.blockSize + sig.blockSize := by ring
      by_contra hne
      have hle := Nat.mul_le_mul_right sig.blockSize (show k + 2 ≤ n by omega)
      omega
    rw [hlast] at ht'
    exact ⟨rfl, fun j hj => ((hr'.of_same ⟨rfl, rfl⟩).iff j).2 (ht'.all hj)⟩
  | case2 c log weak32 r hm log' p hend hstop =>
    intro k hk taken hp hw hb ht hr
    exfalso
    have hmatched : log'.matchedBytes = p := by
      show (tryCandidates strongHash sig d c.p weak32 _ none log).1.matchedBytes + sig.blockSize = _
      rw [tryCandidates_matchedBytes, hb]
    rw [hmatched, stopHere_matched hs.size hlt (by omega) (by omega)] at hstop
    cases hstop
  | case3 c log weak32 r hm log' p hend hstop ih =>
    intro k hk taken hp hw hb ht hr
    obtain ⟨i, ht', -, hr'⟩ := hwindow c log k hk taken hp hw ht hr
    have hnext : (k + 1) * sig.blockSize = k * sig.blockSize + sig.blockSize := by ring
    have hk' : k + 1 < n := by
      have hhi := hs.hi
      by_contra hge
      have hle := Nat.mul_le_mul_right sig.blockSize (show n ≤ k + 1 by omega)
      omega
    have hmatched : log'.matchedBytes = p := by
      show (tryCandidates strongHash sig d c.p weak32 _ none log).1.matchedBytes + sig.blockSize = _
      rw [tryCandidates_matchedBytes, hb]
    exact ih (k + 1) hk' _ (by dsimp only; omega) rfl hmatched ht' (hr'.of_same ⟨rfl, rfl⟩)
  | case4 c log weak32 r hm hend =>
    intro k hk taken hp hw hb ht hr
    obtain ⟨i, -, hmatch, -⟩ := hwindow c log k hk taken hp hw ht hr
    exact absurd hmatch hm
  | case5 c log weak32 r hm hend p hstop =>
    intro k hk taken hp hw hb ht hr
    obtain ⟨i, -, hmatch, -⟩ := hwindow c log k hk taken hp hw ht hr
    exact absurd hmatch hm
  | case6 c log weak32 r hm hend w p hstop ih =>
    intro k hk taken hp hw hb ht hr
    obtain ⟨i, -, hmatch, -⟩ := hwindow c log k hk taken hp hw ht hr
    exact absurd hmatch hm

/-- **The scan of an unchanged file matches all its full blocks.** -/
theorem scan_identical {n : ℕ} {hL : 0 < sig.blockSize} (hs : Signs strongHash sig d n) (hlt : d.length < kMaxProjected) :
    (scan strongHash sig d opt hL).2.2 = false ∧
      ∀ i < n, (scan strongHash sig d opt hL).1.matched.getD i false = true := by
  have hinit : Records sig (ScanLog.init sig.blockCount) [] := by
    refine ⟨by simp [ScanLog.init], fun i => ?_⟩
    simp [ScanLog.init, Array.getD]
  unfold scan
  by_cases h : d.length ≥ sig.blockSize
  · have hn : 0 < n := by
      have hhi := hs.hi
      by_contra hzero
      rw [show n = 0 by omega, Nat.zero_mul] at hhi
      omega
    rw [if_pos h]
    exact scanLoop_identical (candidates_eq sig) hs hlt _ _ 0 hn [] (Nat.zero_mul _).symm rfl rfl (SelfTaken.nil _) hinit
  -- less than a block: there is no full block to match
  · have hn : n = 0 := by
      have hlo := hs.lo
      by_contra hpos
      have hle := Nat.mul_le_mul_right sig.blockSize (show 1 ≤ n by omega)
      omega
    rw [if_neg h]
    exact ⟨rfl, fun i hi => by omega⟩

/-! ### What a plan downloads -/

/-- The bytes of the open run are still to be counted. -/
def Emit.owed (e : Emit) : ℕ := e.plan.downloadBytes + if e.inMissRun then e.missRunBytes else 0

theorem Emit.flushMiss_owed (e : Emit) :
    e.flushMiss.plan.downloadBytes = e.owed ∧ e.flushMiss.inMissRun = false := by
  unfold Emit.flushMiss Emit.owed
  by_cases h : e.inMissRun = true
  · rw [if_pos h, if_pos h]
    exact ⟨rfl, rfl⟩
  · rw [if_neg h, if_neg h]
    exact ⟨rfl, by simpa using h⟩

theorem Emit.block_owed (log : ScanLog) (e : Emit) (i : ℕ) : (Emit.block sig log e i).owed =
    e.owed + if log.matched.getD i false then 0 else sig.blockLen i := by
  obtain ⟨hflushed, hclosed⟩ := e.flushMiss_owed
  by_cases hm : log.matched.getD i false = true
  · rw [Emit.block_matched e hm, if_pos hm]
    show e.flushMiss.plan.downloadBytes + (if e.flushMiss.inMissRun = true then _ else 0) = _
    rw [hflushed, hclosed]
    rfl
  · rw [Emit.block_unmatched e (Bool.not_eq_true _ ▸ hm), if_neg hm]
    by_cases hrun : e.inMissRun = true
    · unfold Emit.owed
      simp only [hrun, if_true]
      omega
    · unfold Emit.owed
      simp only [hrun, Bool.false_eq_true, if_false, if_true]
      omega

/-- **A plan downloads the blocks that are not matched.** -/
theorem emitPlan_downloadBytes (log : ScanLog) (plan : DeltaPlan) : (emitPlan sig log plan).downloadBytes =
    plan.downloadBytes + ((List.range sig.blockCount).map fun i =>
      if log.matched.getD i false then 0 else sig.blockLen i).sum := by
  have hfold : ∀ (l : List ℕ) (e : Emit), (l.foldl (Emit.block sig log) e).owed =
      e.owed + (l.map fun i => if log.matched.getD i false then 0 else sig.blockLen i).sum := by
    intro l
    induction l with
    | nil => exact fun e => rfl
    | cons i l ih =>
      intro e
      rw [List.foldl_cons, ih, Emit.block_owed, List.map_cons, List.sum_cons]
      omega
  unfold emitPlan
  rw [(Emit.flushMiss_owed _).1, hfold]
  rfl

/-! ### The plan -/

theorem generateSignatures_signs (h : 0 < d.length) (hle : d.length ≤ kMaxCounted) :
    Signs strongHash (generateSignatures strongHash d) d (d.length / chooseBlockSize d.length) := by
  have hL := chooseBlockSize_pos d.length
  have hsize : (generateSignatures strongHash d).blockSize = chooseBlockSize d.length := generateSignatures_blockSize h
  have hdiv := Nat.div_add_mod' d.length (chooseBlockSize d.length)
  have hmod := Nat.mod_lt d.length hL
  have hcount : (generateSignatures strongHash d).blockCount =
      (d.length + chooseBlockSize d.length - 1) / chooseBlockSize d.length := blockCount_exact h hle
  have hfits : ∀ i, i < d.length / chooseBlockSize d.length → i < (generateSignatures strongHash d).blockCount ∧
      (i + 1) * chooseBlockSize d.length ≤ d.length := by
    intro i hi
    have hend := Nat.mul_le_of_le_div _ _ _ (Nat.succ_le_of_lt hi)
    refine ⟨?_, hend⟩
    have hle := Nat.div_le_div_right (c := chooseBlockSize d.length)
      (show d.length ≤ d.length + chooseBlockSize d.length - 1 by omega)
    omega
  refine ⟨generateSignatures_fileSize, ?_, ?_, ?_, ?_⟩
  · rw [hsize]
    omega
  · rw [hsize]
    omega
  · intro i
    rw [generateSignatures_full h hle]
    refine ⟨fun hi => ?_, hfits i⟩
    rw [← Nat.succ_le_iff, Nat.le_div_iff_mul_le hL]
    exact hi.2
  · intro i hi
    obtain ⟨hin, hend⟩ := hfits i hi
    rw [hsize]
    exact generateSignatures_block h hin hend

/-- What is left of a content behind its full blocks. -/
theorem missed_identical (h : 0 < d.length) (hle : d.length ≤ kMaxCounted) {log : ScanLog}
    (hall : ∀ i < d.length / chooseBlockSize d.length, log.matched.getD i false = true)
    (honly : ∀ i, log.matched.getD i false = true → i ∈ fullBlocks (generateSignatures strongHash d)) :
    ((List.range (generateSignatures strongHash d).blockCount).map fun i =>
      if log.matched.getD i false then 0 else (generateSignatures strongHash d).blockLen i).sum =
        d.length % chooseBlockSize d.length := by
  have hL := chooseBlockSize_pos d.length
  have hcuts := @generateSignatures_cuts strongHash d h hle
  have hsize : (generateSignatures strongHash d).blockSize = chooseBlockSize d.length := generateSignatures_blockSize h
  have hfile : (generateSignatures strongHash d).fileSize = d.length := generateSignatures_fileSize
  have hcount : (generateSignatures strongHash d).blockCount =
      (d.length + chooseBlockSize d.length - 1) / chooseBlockSize d.length := blockCount_exact h hle
  have hsigns := @generateSignatures_signs strongHash d h hle
  have hdiv := Nat.div_add_mod' d.length (chooseBlockSize d.length)
  generalize hn : d.length / chooseBlockSize d.length = n at *
  have hfull : ((List.range n).map fun i =>
      if log.matched.getD i false then 0 else (generateSignatures strongHash d).blockLen i).sum = 0 := by
    apply List.sum_eq_zero
    intro x hx
    obtain ⟨i, hi, rfl⟩ := List.mem_map.1 hx
    rw [if_pos (hall i (List.mem_range.1 hi))]
  by_cases hrest : d.length % chooseBlockSize d.length = 0
  · -- no short block
    have hnum : (generateSignatures strongHash d).blockCount = n := by
      rw [hcount, Nat.div_eq_iff hL]
      omega
    rw [hnum, hfull, hrest]
  · have hmod := Nat.mod_lt d.length hL
    have hnum : (generateSignatures strongHash d).blockCount = n + 1 := by
      have hsucc : (n + 1) * chooseBlockSize d.length = n * chooseBlockSize d.length + chooseBlockSize d.length :=
        Nat.succ_mul _ _
      rw [hcount, Nat.div_eq_iff hL]
      omega
    -- the short block is no full block, so it is never matched
    have hlast : log.matched.getD n false = false := by
      cases hm : log.matched.getD n false with
      | false => rfl
      | true =>
        have hlt := (hsigns.full n).1 (honly n hm)
        omega
    -- its length is what is left behind the full blocks
    have hedge := edge_succ hcuts (i := n) (by omega)
    have htop : (generateSignatures strongHash d).edge (n + 1) = d.length := by
      rw [← hnum, edge_blockCount hcuts, hfile]
    rw [hnum, List.range_succ, List.map_append, List.sum_append, hfull, List.map_singleton, List.sum_singleton, hlast]
    rw [htop, hsize] at hedge
    simp only [Bool.false_eq_true, if_false]
    omega

theorem buildPlan_identical (h : 0 < d.length) (hle : d.length ≤ kMaxCounted) :
    (buildPlan strongHash (generateSignatures strongHash d) d opt).stats.earlyStopped = false ∧
      (buildPlan strongHash (generateSignatures strongHash d) d opt).downloadBytes =
        d.length % chooseBlockSize d.length := by
  have hcuts := @generateSignatures_cuts strongHash d h hle
  have hn : (generateSignatures strongHash d).blockCount ≠ 0 := by
    intro hzero
    have hhi := hcuts.hi
    rw [hzero, Nat.zero_mul, generateSignatures_fileSize] at hhi
    omega
  have hlt : d.length < kMaxProjected := by
    unfold kMaxCounted at hle
    unfold kMaxProjected
    omega
  obtain ⟨hstop, hall⟩ := @scan_identical strongHash _ d opt _ hcuts.pos (generateSignatures_signs h hle) hlt
  have hsound := @scan_sound strongHash (generateSignatures strongHash d) d opt hcuts.pos
  have honly : ∀ i, (scan strongHash (generateSignatures strongHash d) d opt hcuts.pos).1.matched.getD i false = true →
      i ∈ fullBlocks (generateSignatures strongHash d) := by
    intro i hi
    exact (mem_fullBlocks _).2 ⟨(hsound.found i hi).1, (hsound.found i hi).2.1⟩
  refine ⟨?_, ?_⟩
  · rw [buildPlan_earlyStopped hn hcuts.pos, hstop]
  · rw [buildPlan_eq hn hcuts.pos, planOfScan, if_neg (by rw [hstop]; simp), emitPlan_downloadBytes,
      missed_identical h hle hall honly]
    exact Nat.zero_add _

/-- A signature set without blocks plans nothing. -/
theorem buildPlan_none (hn : sig.blockCount = 0) : buildPlan strongHash sig d opt = { newFileBytes := sig.fileSize } := by
  unfold buildPlan
  rw [dif_pos (.inl hn)]

/-- Where the block count wraps nothing is downloaded, though the file ends in a short block. -/
theorem buildPlan_wrapped (h : kMaxCounted < d.length) (hlt : d.length < 2 ^ 49) :
    (buildPlan strongHash (generateSignatures strongHash d) d opt).downloadBytes = 0 ∧
      0 < d.length % chooseBlockSize d.length := by
  rw [buildPlan_none (blockCount_wraps h hlt), chooseBlockSize_wraps h hlt]
  refine ⟨rfl, ?_⟩
  unfold kMaxCounted at h
  unfold kMaxBlock
  omega

/-- **An unchanged file downloads its short last block and nothing else**, exactly while the
block count does not wrap. -/
theorem identical_iff (strongHash : Bytes → Strong) (d : Bytes) (opt : BuildOptions) (hlt : d.length < 2 ^ 49) :
    ((buildPlan strongHash (generateSignatures strongHash d) d opt).stats.earlyStopped = false ∧
      (buildPlan strongHash (generateSignatures strongHash d) d opt).downloadBytes =
        d.length % chooseBlockSize d.length) ↔ d.length ≤ kMaxCounted := by
  by_cases hle : d.length ≤ kMaxCounted
  · refine iff_of_true ?_ hle
    by_cases h : 0 < d.length
    · exact buildPlan_identical h hle
    · have hnil : d.length = 0 := by omega
      have hcount : (generateSignatures strongHash d).blockCount = 0 := by
        unfold generateSignatures
        rw [if_pos hnil]
      rw [buildPlan_none hcount, hnil, Nat.zero_mod]
      exact ⟨rfl, rfl⟩
  · refine iff_of_false ?_ hle
    rintro ⟨-, hdown⟩
    obtain ⟨hzero, hrest⟩ := @buildPlan_wrapped strongHash d opt (by omega) hlt
    omega

/-- Two equal blocks and 904 bytes: both blocks are found, the rest is downloaded. -/
theorem identical_replicate : (buildPlan (fun _ => Vector.replicate 16 0)
      (generateSignatures (fun _ => Vector.replicate 16 0) (List.replicate 5000 7)) (List.replicate 5000 7) {}).stats.earlyStopped
        = false ∧
    (buildPlan (fun _ => Vector.replicate 16 0)
      (generateSignatures (fun _ => Vector.replicate 16 0) (List.replicate 5000 7)) (List.replicate 5000 7) {}).downloadBytes
        = 904 := by
  have hsize : (List.replicate 5000 (7 : UInt8)).length % chooseBlockSize (List.replicate 5000 (7 : UInt8)).length = 904 := by
    rw [List.length_replicate]
    decide
  rw [← hsize]
  exact (identical_iff (fun _ => Vector.replicate 16 0) (List.replicate 5000 7) {}
    (by rw [List.length_replicate]; decide)).2 (by rw [List.length_replicate]; decide)

/-- A file one byte short of `2 ^ 49`: its 131071 last bytes are not downloaded. -/
theorem identical_wrapped : ¬ (buildPlan (fun _ => Vector.replicate 16 0)
      (generateSignatures (fun _ => Vector.replicate 16 0) (List.replicate (2 ^ 49 - 1) 7))
      (List.replicate (2 ^ 49 - 1) 7) {}).downloadBytes =
        (2 ^ 49 - 1) % chooseBlockSize (2 ^ 49 - 1) := by
  have hlen : (List.replicate (2 ^ 49 - 1) (7 : UInt8)).length = 2 ^ 49 - 1 := List.length_replicate
  have hwrap := @buildPlan_wrapped (fun _ => Vector.replicate 16 0) (List.replicate (2 ^ 49 - 1) 7) {}
    (by rw [hlen]; decide) (by rw [hlen]; decide)
  rw [hlen] at hwrap
  omega

end FastClone.Delta
