import FastClone.Proof.DeltaGreedy
import FastClone.Proof.DeltaTiling

/-!
# Plans of real files: tiling and reconstruction

The results at the level of file contents: the plan that `buildPlan` makes from the
signatures of a new content `d` and an old content `o`.

* `plan_tiles_iff`: without an early stop the plan tiles the new file **exactly when**
  the block count fits in 32 bits and no run of blocks that greedy matching leaves
  unfound reaches `2^32` bytes.
* `reconstruct_iff`: without an early stop and with short runs, copies from `o` and downloads
  from `d` rebuild `d` **exactly when** the block count fits or `d` is all zeros.
-/

namespace FastClone.Delta

open Spans Greedy

variable {strongHash : Bytes → Strong} {d o : Bytes} {opt : BuildOptions}

/-! ### Signatures of a content -/

theorem generateSignatures_cuts (h : 0 < d.length) (hle : d.length ≤ kMaxCounted) :
    (generateSignatures strongHash d).Cuts := by
  have hL := chooseBlockSize_pos d.length
  have hcount : (generateSignatures strongHash d).blockCount =
      (d.length + chooseBlockSize d.length - 1) / chooseBlockSize d.length := blockCount_exact h hle
  unfold kMaxCounted at hle
  refine ⟨?_, ?_, ?_, ?_⟩ <;>
    simp only [generateSignatures_blockSize h, generateSignatures_fileSize, hcount]
  · exact hL
  · omega
  · intro i hi
    have h1 := Nat.mul_le_of_le_div _ _ _ (Nat.succ_le_of_lt hi)
    rw [Nat.succ_mul] at h1
    omega
  · have h1 := Nat.lt_mul_div_succ (d.length + chooseBlockSize d.length - 1) hL
    rw [Nat.mul_succ, mul_comm] at h1
    omega

theorem generateSignatures_strongLen (h : 0 < d.length) :
    (generateSignatures strongHash d).strongLen =
      chooseStrongLen (generateSignatures strongHash d).blockCount := by
  unfold generateSignatures
  dsimp only
  rw [if_neg (by omega)]

theorem generateSignatures_block (h : 0 < d.length) {i : ℕ}
    (hi : i < (generateSignatures strongHash d).blockCount)
    (hfull : (i + 1) * chooseBlockSize d.length ≤ d.length) :
    (generateSignatures strongHash d).blocks.getD i default =
      ⟨(weakInit (slice d (i * chooseBlockSize d.length) (chooseBlockSize d.length))).value,
        strongHash (slice d (i * chooseBlockSize d.length) (chooseBlockSize d.length))⟩ := by
  rw [Nat.succ_mul] at hfull
  unfold generateSignatures at hi ⊢
  dsimp only at hi ⊢
  rw [if_neg (by omega)] at hi ⊢
  rw [Array.getD_eq_getD_getElem?, Array.getElem?_map, Array.getElem?_range, if_pos hi]
  simp only [Option.map_some, Option.getD_some]
  rw [Nat.min_eq_left (by omega)]

/-- The full blocks are the first `|d| / blockSize` ones. -/
theorem generateSignatures_full (h : 0 < d.length) (hle : d.length ≤ kMaxCounted) {i : ℕ} :
    i ∈ fullBlocks (generateSignatures strongHash d) ↔
      i < (generateSignatures strongHash d).blockCount ∧
        (i + 1) * chooseBlockSize d.length ≤ d.length := by
  have hc := @generateSignatures_cuts strongHash d h hle
  rw [mem_fullBlocks]
  refine and_congr_right fun hi => ?_
  have h1 := edge_succ hc hi
  have h2 := hc.pos
  unfold SignatureSet.edge at h1
  rw [generateSignatures_blockSize h, generateSignatures_fileSize] at h1
  rw [generateSignatures_blockSize h, Nat.succ_mul] at *
  omega

/-! ### The blocks greedy matching finds -/

/-- Number of blocks a content is cut into. -/
def blocksIn (d : Bytes) : ℕ := (d.length + chooseBlockSize d.length - 1) / chooseBlockSize d.length

/-- Block `i` of a content, for a full block. -/
def blockAt (d : Bytes) (i : ℕ) : Bytes := slice d (i * chooseBlockSize d.length) (chooseBlockSize d.length)

/-- The old window at `p` equals block `i` of `d` in both checksums. -/
def sameChecksums (strongHash : Bytes → Strong) (d o : Bytes) (p i : ℕ) : Bool :=
  (weakInit (blockAt d i)).value = (weakInit (slice o p (chooseBlockSize d.length))).value &&
    strongEq (chooseStrongLen (blocksIn d)) (strongHash (slice o p (chooseBlockSize d.length)))
      (strongHash (blockAt d i))

/-- The blocks of `d` that greedy matching finds in `o`, with their old offsets: at each
old offset the last full block of `d` that is not found yet and has the window's checksums. -/
def foundBlocks (strongHash : Bytes → Strong) (d o : Bytes) : List (ℕ × ℕ) :=
  greedy (sameChecksums strongHash d o)
    ((List.range (blocksIn d)).filter fun i => (i + 1) * chooseBlockSize d.length ≤ d.length).reverse
    (chooseBlockSize d.length) o.length (chooseBlockSize_pos _) 0 []

/-- No run of consecutive blocks of `d` that are not found in `o` reaches `2^32` bytes. -/
def ShortMisses (strongHash : Bytes → Strong) (d o : Bytes) : Prop :=
  ∀ a b, a < b → b ≤ blocksIn d → (∀ j, a ≤ j → j < b → ∀ p, (j, p) ∉ foundBlocks strongHash d o) →
    min (b * chooseBlockSize d.length) d.length - a * chooseBlockSize d.length < 2 ^ 32

theorem greedyMatches_eq (h : 0 < d.length) (hle : d.length ≤ kMaxCounted)
    (hL : 0 < (generateSignatures strongHash d).blockSize) :
    greedyMatches strongHash (generateSignatures strongHash d) o hL = foundBlocks strongHash d o := by
  have hn : (generateSignatures strongHash d).blockCount = blocksIn d := blockCount_exact h hle
  have hfull : fullBlocks (generateSignatures strongHash d) =
      (List.range (blocksIn d)).filter fun i => (i + 1) * chooseBlockSize d.length ≤ d.length := by
    rw [fullBlocks, hn]
    apply List.filter_congr
    intro i hi
    have := @generateSignatures_full strongHash d h hle i
    rw [mem_fullBlocks, and_congr_right_iff] at this
    exact decide_eq_decide.2 (this (hn ▸ List.mem_range.1 hi))
  unfold greedyMatches foundBlocks
  simp only [generateSignatures_blockSize h]
  rw [← hfull]
  apply greedy_congr
  intro p i hi
  obtain ⟨h1, h2⟩ := (generateSignatures_full h hle).1 (List.mem_reverse.1 hi)
  unfold windowHit sameChecksums blockAt
  rw [generateSignatures_block h h1 h2, generateSignatures_strongLen h, hn, generateSignatures_blockSize h]

/-- The scan's runs are the runs of blocks greedy matching leaves. -/
theorem shortRuns_iff (h : 0 < d.length) (hle : d.length ≤ kMaxCounted)
    (hL : 0 < (generateSignatures strongHash d).blockSize)
    (hstop : (scan strongHash (generateSignatures strongHash d) o opt hL).2.2 = false) :
    ShortRuns (generateSignatures strongHash d)
        (scan strongHash (generateSignatures strongHash d) o opt hL).1 ↔
      ShortMisses strongHash d o := by
  have hc := @generateSignatures_cuts strongHash d h hle
  have hn : (generateSignatures strongHash d).blockCount = blocksIn d := blockCount_exact h hle
  have hmiss : ∀ j, (scan strongHash (generateSignatures strongHash d) o opt hL).1.matched.getD j false =
      false ↔ ∀ p, (j, p) ∉ foundBlocks strongHash d o := by
    intro j
    rw [← Bool.not_eq_true, scan_greedy hL hstop, greedyMatches_eq h hle]
    simp
  unfold ShortRuns ShortMisses
  simp only [hmiss, hn]
  refine forall_congr' fun a => forall_congr' fun b => forall_congr' fun hab =>
    forall_congr' fun hb => forall_congr' fun _ => ?_
  rw [sum_blockLen hc (by omega) (by omega), edge_of_lt hc (show a < _ by omega), SignatureSet.edge,
    generateSignatures_blockSize h, generateSignatures_fileSize]

/-! ### Tiling -/

theorem buildPlan_eq {sig : SignatureSet} (hn : sig.blockCount ≠ 0) (hL : 0 < sig.blockSize) :
    buildPlan strongHash sig o opt = planOfScan sig (scan strongHash sig o opt hL) := by
  unfold buildPlan
  rw [dif_neg (by omega)]

theorem planOfScan_earlyStopped (sig : SignatureSet) (r : ScanLog × ℕ × Bool) :
    (planOfScan sig r).stats.earlyStopped = r.2.2 := by
  unfold planOfScan
  dsimp only
  split
  · rfl
  · rw [(emitPlan_head _).2]

theorem buildPlan_earlyStopped {sig : SignatureSet} (hn : sig.blockCount ≠ 0) (hL : 0 < sig.blockSize) :
    (buildPlan strongHash sig o opt).stats.earlyStopped = (scan strongHash sig o opt hL).2.2 := by
  rw [buildPlan_eq hn hL, planOfScan_earlyStopped]

theorem buildPlan_tiles_iff {sig : SignatureSet} (hc : sig.Cuts) (hn : sig.blockCount ≠ 0)
    (hstop : (scan strongHash sig o opt hc.pos).2.2 = false) :
    (buildPlan strongHash sig o opt).Tiles ↔ ShortRuns sig (scan strongHash sig o opt hc.pos).1 := by
  rw [buildPlan_eq hn hc.pos, planOfScan, if_neg (by rw [hstop]; simp)]
  exact emitPlan_tiles_iff hc rfl rfl rfl rfl

/-- A plan without operations tiles nothing but the empty file. -/
theorem tiles_empty_iff {sig : SignatureSet} (hn : sig.blockCount = 0) :
    (buildPlan strongHash sig o opt).Tiles ↔ sig.fileSize = 0 := by
  have hplan : buildPlan strongHash sig o opt = { newFileBytes := sig.fileSize } := by
    unfold buildPlan
    rw [dif_pos (.inl hn)]
  rw [hplan]
  constructor
  · intro h
    by_contra hpos
    obtain ⟨r, hr, -⟩ := (h.cover 0).1 (Nat.pos_of_ne_zero hpos)
    cases hr
  · intro h
    refine ⟨.nil, .nil, fun x => ?_, rfl⟩
    simp [h, DeltaPlan.copySpans, DeltaPlan.missSpans]

theorem scan_short {sig : SignatureSet} {hL : 0 < sig.blockSize} (h : o.length < sig.blockSize) :
    scan strongHash sig o opt hL = (ScanLog.init sig.blockCount, 0, false) := by
  unfold scan
  rw [if_neg (by omega)]

theorem shortMisses_of_lt (h : d.length < 2 ^ 32) : ShortMisses strongHash d o := by
  intro a b _ _ _
  omega

/-- An old file shorter than a block never stops the scan early. -/
theorem buildPlan_short_earlyStopped {sig : SignatureSet} (h : o.length < sig.blockSize) :
    (buildPlan strongHash sig o opt).stats.earlyStopped = false := by
  by_cases hn : sig.blockCount = 0
  · unfold buildPlan
    rw [dif_pos (.inl hn)]
  · rw [buildPlan_earlyStopped hn (by omega), scan_short h]

theorem scanLoop_no_stop {sig : SignatureSet} {csr : Csr} {hL : 0 < sig.blockSize}
    (hopt : opt.enableEarlyStop = false) (c : Cursor) (log : ScanLog) :
    (scanLoop strongHash sig csr o opt hL c log).2.2 = false := by
  have hs : ∀ m p n, stopHere sig o.length opt m p n = false := by
    intro m p n
    simp [stopHere, hopt]
  fun_induction scanLoop strongHash sig csr o opt hL c log with
  | case1 => rfl
  | case2 c log weak32 r hr log' p hend hstop => rw [hs] at hstop; cases hstop
  | case3 c log weak32 r hr log' p hend hstop ih => exact ih
  | case4 => rfl
  | case5 c log weak32 r hr hend p hstop => rw [hs] at hstop; cases hstop
  | case6 c log weak32 r hr hend w p hstop ih => exact ih

theorem scan_no_stop {sig : SignatureSet} {hL : 0 < sig.blockSize} (hopt : opt.enableEarlyStop = false) :
    (scan strongHash sig o opt hL).2.2 = false := by
  unfold scan
  split
  · exact scanLoop_no_stop hopt _ _
  · rfl

/-- Without early stop the planner does not stop. -/
theorem buildPlan_no_stop {sig : SignatureSet} (hopt : opt.enableEarlyStop = false) :
    (buildPlan strongHash sig o opt).stats.earlyStopped = false := by
  unfold buildPlan
  split
  · rfl
  · rw [planOfScan_earlyStopped, scan_no_stop hopt]

/-- **Tiling of the plan**: exactly when the block count fits in 32 bits and every run of
blocks that is not found is shorter than `2^32` bytes. -/
theorem plan_tiles_iff (strongHash : Bytes → Strong) (d o : Bytes) (opt : BuildOptions)
    (hd : d.length < 2 ^ 49)
    (hstop : (buildPlan strongHash (generateSignatures strongHash d) o opt).stats.earlyStopped = false) :
    (buildPlan strongHash (generateSignatures strongHash d) o opt).Tiles ↔
      d.length ≤ 2 ^ 49 - 2 ^ 17 ∧ ShortMisses strongHash d o := by
  rcases Nat.eq_zero_or_pos d.length with h0 | hpos
  · -- the empty content: an empty plan
    have hn : (generateSignatures strongHash d).blockCount = 0 := by
      unfold generateSignatures
      dsimp only
      rw [if_pos h0]
    rw [tiles_empty_iff hn, generateSignatures_fileSize]
    refine ⟨fun _ => ⟨by omega, fun a b _ _ _ => by omega⟩, fun _ => h0⟩
  rcases Nat.lt_or_ge kMaxCounted d.length with hbig | hle
  · -- the block count wrapped to 0
    rw [tiles_empty_iff (blockCount_wraps hbig hd), generateSignatures_fileSize]
    unfold kMaxCounted at hbig
    constructor
    · intro h; omega
    · intro h; omega
  · have hc := @generateSignatures_cuts strongHash d hpos hle
    have hn : (generateSignatures strongHash d).blockCount ≠ 0 := by
      intro h
      have h1 := hc.hi
      rw [generateSignatures_fileSize, h] at h1
      omega
    rw [buildPlan_earlyStopped hn hc.pos] at hstop
    rw [buildPlan_tiles_iff hc hn hstop, shortRuns_iff hpos hle hc.pos hstop]
    exact ⟨fun h => ⟨hle, h⟩, fun h => h.2⟩

/-- Two equal blocks against an old file of one: the block is copied once, the other is missed. -/
theorem plan_tiles_replicate : (buildPlan (fun _ => Vector.replicate 16 0)
    (generateSignatures (fun _ => Vector.replicate 16 0) (List.replicate 4096 7)) (List.replicate 2048 7)
    { enableEarlyStop := false }).Tiles := by
  refine (plan_tiles_iff (fun _ => Vector.replicate 16 0) (List.replicate 4096 7) (List.replicate 2048 7)
    { enableEarlyStop := false } (by rw [List.length_replicate]; decide) ?_).2
    ⟨by rw [List.length_replicate]; decide, shortMisses_of_lt (by rw [List.length_replicate]; decide)⟩
  exact buildPlan_no_stop rfl

/-- A new file of `2^32` zeros against an empty old file: one miss of length
`2^32 % 2^32 = 0` against `2^32` bytes to download. -/
theorem plan_not_tiles_4GiB :
    (List.replicate (2 ^ 32) (0 : UInt8)).length < 2 ^ 49 ∧
    (buildPlan (fun _ => Vector.replicate 16 0) (generateSignatures (fun _ => Vector.replicate 16 0)
      (List.replicate (2 ^ 32) 0)) [] {}).stats.earlyStopped = false ∧
    ¬ (buildPlan (fun _ => Vector.replicate 16 0) (generateSignatures (fun _ => Vector.replicate 16 0)
      (List.replicate (2 ^ 32) 0)) [] {}).Tiles := by
  have hlen : (List.replicate (2 ^ 32) (0 : UInt8)).length = 2 ^ 32 := List.length_replicate
  generalize List.replicate (2 ^ 32) (0 : UInt8) = d at hlen ⊢
  have hpos : 0 < d.length := by omega
  have hc := @generateSignatures_cuts (fun _ => Vector.replicate 16 0) d hpos
    (by rw [hlen]; decide)
  have hsize : ([] : Bytes).length < (generateSignatures (fun _ => Vector.replicate 16 0) d).blockSize := hc.pos
  have hn : (generateSignatures (fun _ => Vector.replicate 16 0) d).blockCount ≠ 0 := by
    intro h
    have h1 := hc.hi
    rw [generateSignatures_fileSize, h] at h1
    omega
  refine ⟨by omega, buildPlan_short_earlyStopped hsize, ?_⟩
  rw [buildPlan_tiles_iff hc hn (by rw [scan_short hsize]), scan_short hsize]
  intro hshort
  have hall := hshort 0 _ (Nat.pos_of_ne_zero hn) (le_refl _)
    (fun j _ _ => by simp [ScanLog.init, Array.getD])
  rw [sum_blockLen hc (Nat.zero_le _) (le_refl _), edge_blockCount hc, generateSignatures_fileSize, hlen,
    SignatureSet.edge] at hall
  omega

/-! ### Reconstruction -/

/-- The writes of a plan: the named bytes of the old file, and the missed ranges taken
from the new file. -/
def DeltaPlan.writes (plan : DeltaPlan) (o d : Bytes) : List (ℕ × Bytes) :=
  (plan.copies.map fun c => (c.destOffsetNew, slice o c.srcOffsetOld c.len)) ++
    plan.misses.map fun m => (m.destOffsetNew, slice d m.destOffsetNew m.len)

/-- The reconstructed file: the writes of the plan over a buffer of `newFileBytes` zeros. -/
def reconstruct (plan : DeltaPlan) (o d : Bytes) : Bytes :=
  overlay (plan.writes o d) (List.replicate plan.newFileBytes 0)

/-- Equality of the truncated strong hash between an old window and a full block of `d`
implies equality of the bytes. -/
def StrongFaithful (strongHash : Bytes → Strong) (d o : Bytes) : Prop :=
  ∀ p i, p + chooseBlockSize d.length ≤ o.length → (i + 1) * chooseBlockSize d.length ≤ d.length →
    strongEq (generateSignatures strongHash d).strongLen
      (strongHash (slice o p (chooseBlockSize d.length))) (strongHash (blockAt d i)) = true →
    slice o p (chooseBlockSize d.length) = blockAt d i

theorem slice_length {X : Bytes} {p len : ℕ} (h : p + len ≤ X.length) : (slice X p len).length = len := by
  simp only [slice, List.length_take, List.length_drop]
  omega

theorem right_slice {X : Bytes} {p len : ℕ} (h : p + len ≤ X.length) : Right X (p, slice X p len) := by
  refine ⟨by rw [slice_length h]; exact h, ?_⟩
  rw [slice_length h]
  rfl

/-- A tiling plan whose copies carry the right bytes rebuilds the new file. -/
theorem reconstruct_of_tiles {plan : DeltaPlan} (ht : plan.Tiles) (hnew : plan.newFileBytes = d.length)
    (hin : ∀ r ∈ plan.copySpans ++ plan.missSpans, r.1 + r.2 ≤ d.length)
    (hcopies : ∀ c ∈ plan.copies, slice o c.srcOffsetOld c.len = slice d c.destOffsetNew c.len) :
    reconstruct plan o d = d := by
  -- every write is the new file's own slice at a span of the plan
  have hwrites : plan.writes o d =
      (plan.copySpans ++ plan.missSpans).map fun r => (r.1, slice d r.1 r.2) := by
    rw [List.map_append, DeltaPlan.writes, DeltaPlan.copySpans, DeltaPlan.missSpans, List.map_map,
      List.map_map]
    congr 1
    exact List.map_congr_left fun c hc => by rw [hcopies c hc]; rfl
  unfold reconstruct
  rw [hwrites]
  apply overlay_eq
  · intro w hw
    obtain ⟨r, hr, rfl⟩ := List.mem_map.1 hw
    exact right_slice (hin r hr)
  · intro x hx
    obtain ⟨r, hr, hx⟩ := (ht.cover x).1 (by omega)
    refine ⟨_, List.mem_map.2 ⟨r, hr, rfl⟩, hx.1, ?_⟩
    rw [slice_length (hin r hr)]
    exact hx.2
  · rw [List.length_replicate, hnew]

/-- Copies of a plan of `d` carry the bytes of `d`. -/
theorem copies_right (hpos : 0 < d.length) (hle : d.length ≤ kMaxCounted) (hs : StrongFaithful strongHash d o)
    {log : ScanLog} (hlog : Sound strongHash (generateSignatures strongHash d) o log) {i : ℕ}
    (hi : log.matched.getD i false = true) :
    slice o (copyOf (generateSignatures strongHash d) log i).srcOffsetOld
        (copyOf (generateSignatures strongHash d) log i).len =
      slice d (copyOf (generateSignatures strongHash d) log i).destOffsetNew
        (copyOf (generateSignatures strongHash d) log i).len := by
  obtain ⟨h1, h2, h3, h4⟩ := hlog.found i hi
  have hfull := ((generateSignatures_full hpos hle).1 ((mem_fullBlocks _).2 ⟨h1, h2⟩)).2
  simp only [copyOf, h2]
  rw [generateSignatures_block hpos h1 hfull] at h4
  simp only [generateSignatures_blockSize hpos] at h3 h4 ⊢
  exact hs _ _ h3 hfull h4

theorem shortRuns_of_lt (hpos : 0 < d.length) (h : d.length < 2 ^ 32) (log : ScanLog) :
    ShortRuns (generateSignatures strongHash d) log := by
  have hc := @generateSignatures_cuts strongHash d hpos (by unfold kMaxCounted; omega)
  intro a b hab hb _
  rw [sum_blockLen hc (by omega) hb]
  have : (generateSignatures strongHash d).edge b ≤ d.length := by
    rw [SignatureSet.edge, generateSignatures_fileSize]
    omega
  omega

/-- In a constant content all windows of one length are equal. -/
theorem strongFaithful_replicate (n m : ℕ) (x : UInt8) :
    StrongFaithful strongHash (List.replicate n x) (List.replicate m x) := by
  intro p i hp hi _
  rw [Nat.succ_mul] at hi
  unfold blockAt slice
  simp only [List.drop_replicate, List.take_replicate, List.length_replicate] at hp hi ⊢
  congr 1
  omega

/-- While the block count fits, the copies and the downloads are the new file. -/
theorem reconstruct_eq (strongHash : Bytes → Strong) (d o : Bytes) (opt : BuildOptions)
    (hopt : opt.enableEarlyStop = false) (hd : d.length ≤ 2 ^ 49 - 2 ^ 17)
    (hshort : ∀ hL, ShortRuns (generateSignatures strongHash d)
      (scan strongHash (generateSignatures strongHash d) o opt hL).1)
    (hstrong : StrongFaithful strongHash d o) :
    reconstruct (buildPlan strongHash (generateSignatures strongHash d) o opt) o d = d := by
  rcases Nat.eq_zero_or_pos d.length with h0 | hpos
  · obtain rfl := List.eq_nil_of_length_eq_zero h0
    rfl
  · have hc := @generateSignatures_cuts strongHash d hpos hd
    have hn : (generateSignatures strongHash d).blockCount ≠ 0 := by
      intro h
      have h1 := hc.hi
      rw [generateSignatures_fileSize, h] at h1
      omega
    have hstop := @scan_no_stop strongHash o opt (generateSignatures strongHash d) hc.pos hopt
    have ht := (buildPlan_tiles_iff hc hn hstop).2 (hshort hc.pos)
    have hplan : buildPlan strongHash (generateSignatures strongHash d) o opt =
        planOfScan _ (scan strongHash (generateSignatures strongHash d) o opt hc.pos) := buildPlan_eq hn hc.pos
    rw [planOfScan, if_neg (by rw [hstop]; simp)] at hplan
    rw [hplan] at ht ⊢
    have hsize : (generateSignatures strongHash d).fileSize = d.length := generateSignatures_fileSize
    refine reconstruct_of_tiles ht ?_ ?_ ?_
    · rw [(emitPlan_head _).1, hsize]
    · exact hsize ▸ emitPlan_inside hc rfl rfl rfl
    · intro c hcm
      rw [emitPlan_copies, List.nil_append] at hcm
      obtain ⟨i, hi, rfl⟩ := List.mem_map.1 hcm
      exact copies_right hpos hd hstrong (scan_sound hc.pos) (List.mem_filter.1 hi).2

/-- With a wrapped block count nothing is copied and nothing is downloaded. -/
theorem reconstruct_wrapped (h : kMaxCounted < d.length) (hlt : d.length < 2 ^ 49) :
    reconstruct (buildPlan strongHash (generateSignatures strongHash d) o opt) o d =
      List.replicate d.length 0 := by
  have hplan : buildPlan strongHash (generateSignatures strongHash d) o opt =
      { newFileBytes := d.length } := by
    unfold buildPlan
    rw [dif_pos (.inl (blockCount_wraps h hlt)), generateSignatures_fileSize]
  rw [hplan]
  rfl

/-- **Delta reconstruction**: exactly when the block count fits in 32 bits, or the zeros of the
untouched buffer are the file. -/
theorem reconstruct_iff (strongHash : Bytes → Strong) (d o : Bytes) (opt : BuildOptions)
    (hopt : opt.enableEarlyStop = false) (hd : d.length < 2 ^ 49)
    (hshort : ∀ hL, ShortRuns (generateSignatures strongHash d)
      (scan strongHash (generateSignatures strongHash d) o opt hL).1)
    (hstrong : StrongFaithful strongHash d o) :
    reconstruct (buildPlan strongHash (generateSignatures strongHash d) o opt) o d = d ↔
      d.length ≤ 2 ^ 49 - 2 ^ 17 ∨ ∀ b ∈ d, b = 0 := by
  rcases Nat.lt_or_ge kMaxCounted d.length with hbig | hle
  · -- the block count wrapped to 0
    rw [reconstruct_wrapped hbig hd]
    constructor
    · intro h
      exact Or.inr (List.eq_replicate_iff.1 h.symm).2
    · rintro (hsmall | hzero)
      · unfold kMaxCounted at hbig
        omega
      · exact (List.eq_replicate_iff.2 ⟨rfl, hzero⟩).symm
  · exact iff_of_true (reconstruct_eq strongHash d o opt hopt hle hshort hstrong) (Or.inl hle)

theorem reconstruct_replicate :
    reconstruct (buildPlan (fun _ => Vector.replicate 16 0) (generateSignatures
        (fun _ => Vector.replicate 16 0) (List.replicate 4096 7)) (List.replicate 2048 7)
        { enableEarlyStop := false }) (List.replicate 2048 7) (List.replicate 4096 7) =
      List.replicate 4096 7 :=
  (reconstruct_iff _ _ _ _ rfl (by rw [List.length_replicate]; decide)
    (fun _ => shortRuns_of_lt (by rw [List.length_replicate]; decide)
      (by rw [List.length_replicate]; decide) _)
    (strongFaithful_replicate 4096 2048 7)).2 (Or.inl (by rw [List.length_replicate]; decide))

/-- A content of `2^49 - 1` ones against itself: its block count wraps to 0 and the
reconstruction is all zeros. -/
theorem reconstruct_fails_below_2_49 :
    (List.replicate (2 ^ 49 - 1) (1 : UInt8)).length < 2 ^ 49 ∧
    (∀ hL, ShortRuns (generateSignatures (fun _ => Vector.replicate 16 0) (List.replicate (2 ^ 49 - 1) 1))
      (scan (fun _ => Vector.replicate 16 0)
        (generateSignatures (fun _ => Vector.replicate 16 0) (List.replicate (2 ^ 49 - 1) 1))
        (List.replicate (2 ^ 49 - 1) 1) { enableEarlyStop := false } hL).1) ∧
    StrongFaithful (fun _ => Vector.replicate 16 0) (List.replicate (2 ^ 49 - 1) 1)
      (List.replicate (2 ^ 49 - 1) 1) ∧
    reconstruct (buildPlan (fun _ => Vector.replicate 16 0)
        (generateSignatures (fun _ => Vector.replicate 16 0) (List.replicate (2 ^ 49 - 1) 1))
        (List.replicate (2 ^ 49 - 1) 1) { enableEarlyStop := false })
      (List.replicate (2 ^ 49 - 1) 1) (List.replicate (2 ^ 49 - 1) 1) ≠ List.replicate (2 ^ 49 - 1) 1 := by
  have hlen : (List.replicate (2 ^ 49 - 1) (1 : UInt8)).length = 2 ^ 49 - 1 := List.length_replicate
  have hfaith := @strongFaithful_replicate (fun _ => Vector.replicate 16 0) (2 ^ 49 - 1) (2 ^ 49 - 1) 1
  have hhead : (List.replicate (2 ^ 49 - 1) (1 : UInt8))[0]? = some 1 := by
    rw [List.getElem?_replicate, if_pos (by decide)]
  generalize List.replicate (2 ^ 49 - 1) (1 : UInt8) = d at hlen hfaith hhead ⊢
  have hbig : kMaxCounted < d.length := by rw [hlen]; decide
  refine ⟨by omega, ?_, hfaith, ?_⟩
  · intro hL a b hab hb
    rw [blockCount_wraps hbig (by omega)] at hb
    omega
  · rw [reconstruct_wrapped hbig (by omega)]
    intro heq
    rw [← heq, List.getElem?_replicate, if_pos (by omega)] at hhead
    exact absurd (Option.some.inj hhead) (by decide)

end FastClone.Delta
