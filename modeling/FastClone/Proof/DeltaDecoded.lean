import FastClone.Spec.DeltaStream
import FastClone.Spec.WireCursor
import FastClone.Proof.DeltaPlan

/-!
# Planning from a decoded signature response

`DecodeBlockSigResponse` reads the file size, the block size and the block count as three
independent fields; the planners subtract block offsets from the file size.

* `planOfScan_inside`: if every block starts inside the file, every operation ends inside it,
  whatever the scan found.
* `planned_safe_iff`: a decoded set is safe to plan exactly if its last block starts inside the
  file, which the decoder does not check.
-/

namespace FastClone.Delta

/-- The decoded set as the planners take it. -/
def ofWire (sig : Wire.SignatureSet) : SignatureSet where
  fileSize := sig.fileSize.toNat
  blockSize := sig.blockSize.toNat
  blockCount := sig.blockCount.toNat
  strongLen := sig.strongLen.toNat
  blocks := sig.blocks.toArray
  blockSize_lt := sig.blockSize.toNat_lt
  blockCount_lt := sig.blockCount.toNat_lt

/-- No subtraction of the `blockLen` lambda wraps. -/
def SignatureSet.NoUnderflow (sig : SignatureSet) : Prop :=
  ∀ i < sig.blockCount, i * sig.blockSize ≤ sig.fileSize

/-- Every operation lies inside the new file. -/
structure DeltaPlan.Inside (plan : DeltaPlan) (fileSize : ℕ) : Prop where
  copies : ∀ c ∈ plan.copies, c.destOffsetNew + c.len ≤ fileSize
  misses : ∀ m ∈ plan.misses, m.destOffsetNew + m.len ≤ fileSize

/-- The last block starts inside the file. -/
theorem noUnderflow_iff (sig : SignatureSet) :
    sig.NoUnderflow ↔ (sig.blockCount - 1) * sig.blockSize ≤ sig.fileSize := by
  constructor
  · intro h
    by_cases hn : sig.blockCount = 0
    · rw [hn, Nat.zero_sub, Nat.zero_mul]
      exact Nat.zero_le _
    · exact h _ (by omega)
  · intro h i hi
    have hmono : i * sig.blockSize ≤ (sig.blockCount - 1) * sig.blockSize := Nat.mul_le_mul_right _ (by omega)
    omega

section Emission

variable {sig : SignatureSet} (hno : sig.NoUnderflow) (hsize : sig.fileSize < 2 ^ 64) {log : ScanLog}
include hno hsize

/-- A block ends inside the file and before the next block starts. -/
theorem blockLen_le {i : ℕ} (hi : i < sig.blockCount) :
    i * sig.blockSize + sig.blockLen i ≤ sig.fileSize ∧ sig.blockLen i ≤ sig.blockSize := by
  have hstart := hno i hi
  have hsub : sub64 sig.fileSize (i * sig.blockSize) = sig.fileSize - i * sig.blockSize := sub64_of_le hstart hsize
  unfold SignatureSet.blockLen
  rw [hsub]
  omega

/-- The emission before block `i`: the open run and every operation so far end inside the file,
and the run ends before block `i` starts. -/
structure Emit.Within (sig : SignatureSet) (i : ℕ) (e : Emit) : Prop where
  inside : e.plan.Inside sig.fileSize
  run : e.inMissRun = true → e.missRunStart + e.missRunBytes ≤ i * sig.blockSize ∧
    e.missRunStart + e.missRunBytes ≤ sig.fileSize

omit hno hsize in
theorem Emit.Within.flushMiss {i : ℕ} {e : Emit} (h : e.Within sig i) :
    e.flushMiss.plan.Inside sig.fileSize ∧ e.flushMiss.inMissRun = false := by
  unfold Emit.flushMiss
  by_cases hrun : e.inMissRun = true
  · rw [if_pos hrun]
    refine ⟨⟨h.inside.copies, ?_⟩, rfl⟩
    intro m hm
    rcases List.mem_append.1 hm with hm | hm
    · exact h.inside.misses m hm
    · -- the run's length may be narrowed, never enlarged
      have hlen := u32_le e.missRunBytes
      have hend := (h.run hrun).2
      rw [List.mem_singleton.1 hm]
      dsimp only
      omega
  · rw [if_neg hrun]
    exact ⟨h.inside, by simpa using hrun⟩

theorem Emit.Within.block {i : ℕ} {e : Emit} (h : e.Within sig i) (hi : i < sig.blockCount) :
    (Emit.block sig log e i).Within sig (i + 1) := by
  obtain ⟨hend, hlen⟩ := blockLen_le hno hsize hi
  have hnext : (i + 1) * sig.blockSize = i * sig.blockSize + sig.blockSize := Nat.succ_mul i sig.blockSize
  obtain ⟨hflushed, hclosed⟩ := h.flushMiss
  by_cases hm : log.matched.getD i false = true
  · rw [Emit.block_matched e hm]
    refine ⟨⟨?_, hflushed.misses⟩, fun hrun => absurd (hclosed.symm.trans hrun) Bool.false_ne_true⟩
    intro c hc
    rcases List.mem_append.1 hc with hc | hc
    · exact hflushed.copies c hc
    · rw [List.mem_singleton.1 hc]
      exact hend
  · rw [Emit.block_unmatched e (Bool.not_eq_true _ ▸ hm)]
    by_cases hrun : e.inMissRun = true
    · have hopen := h.run hrun
      rw [if_pos hrun]
      refine ⟨h.inside, fun _ => ?_⟩
      dsimp only
      omega
    · rw [if_neg hrun]
      refine ⟨h.inside, fun _ => ?_⟩
      dsimp only
      omega

theorem emitPlan_within {plan : DeltaPlan} (hplan : plan.Inside sig.fileSize) :
    (emitPlan sig log plan).Inside sig.fileSize := by
  have hfold : ∀ n ≤ sig.blockCount, ((List.range n).foldl (Emit.block sig log) { plan := plan }).Within sig n := by
    intro n
    induction n with
    | zero => exact fun _ => ⟨hplan, fun h => nomatch h⟩
    | succ n ih =>
      intro hn
      rw [List.range_succ, List.foldl_append]
      exact (ih (by omega)).block hno hsize (by omega)
  exact (hfold sig.blockCount le_rfl).flushMiss.1

/-- **Whatever the scan found, the operations end inside the file.** -/
theorem planOfScan_inside (r : ScanLog × ℕ × Bool) : (planOfScan sig r).Inside sig.fileSize := by
  unfold planOfScan
  split
  · exact ⟨fun _ h => absurd h List.not_mem_nil, fun _ h => absurd h List.not_mem_nil⟩
  · exact emitPlan_within hno hsize ⟨fun _ h => absurd h List.not_mem_nil, fun _ h => absurd h List.not_mem_nil⟩

end Emission

/-- What planning from `sig` must keep to: no subtraction wraps, and every operation of either
planner, over any old content or byte source, lies inside the new file. -/
structure SignatureSet.SafeToPlan (strongHash : Bytes → Strong) (sig : SignatureSet) : Prop where
  noUnderflow : sig.NoUnderflow
  memory : ∀ old opt, (buildPlan strongHash sig old opt).Inside sig.fileSize
  streaming : ∀ (σ : Type) (source : ByteSource σ) (s : σ) (oldLen : ℕ) (opt : StreamingPlanOptions) (onCopy : Bool),
    (buildPlanStreaming strongHash sig oldLen source s opt onCopy).1.Inside sig.fileSize

theorem SignatureSet.NoUnderflow.safe {strongHash : Bytes → Strong} {sig : SignatureSet} (hno : sig.NoUnderflow)
    (hsize : sig.fileSize < 2 ^ 64) : sig.SafeToPlan strongHash := by
  have hnone : ({ newFileBytes := sig.fileSize } : DeltaPlan).Inside sig.fileSize :=
    ⟨fun _ h => absurd h List.not_mem_nil, fun _ h => absurd h List.not_mem_nil⟩
  refine ⟨hno, ?_, ?_⟩
  · intro old opt
    unfold buildPlan
    split
    · exact hnone
    · exact planOfScan_inside hno hsize _
  · intro σ source s oldLen opt onCopy
    unfold buildPlanStreaming
    split
    · exact hnone
    · exact planOfScan_inside hno hsize _

/-- **A decoded set is safe to plan exactly if its last block starts inside the file.** -/
theorem planned_safe_iff (strongHash : Bytes → Strong) (payload : Bytes) (info : Wire.BlockSigResponseInfo)
    (_hdecoded : WireCursor.decode .blockSigResponse payload = .ok (.blockSigResponse info)) :
    (ofWire info.sig).SafeToPlan strongHash ↔
      (info.sig.blockCount.toNat - 1) * info.sig.blockSize.toNat ≤ info.sig.fileSize.toNat := by
  have hlast := noUnderflow_iff (ofWire info.sig)
  constructor
  · intro h
    exact hlast.1 h.noUnderflow
  · intro h
    exact (hlast.2 h).safe info.sig.fileSize.toNat_lt

/-- A response for the empty path and an all-zero file hash, with truncated hashes of no byte. -/
def responseBytes (fileSize blockSize blockCount : List UInt8) (blocks : ℕ) : Bytes :=
  [0, 0] ++ List.replicate 16 0 ++ fileSize ++ blockSize ++ blockCount ++ [0] ++ List.replicate (4 * blocks) 0

/-- One block of 2048 bytes signs a file of one byte. -/
def oneBlock : Wire.BlockSigResponseInfo where
  relPath := []
  fileHash := Vector.replicate 16 0
  sig := ⟨1, 2048, 1, 0, [⟨0, Vector.replicate 16 0⟩]⟩

theorem oneBlock_safe : (ofWire oneBlock.sig).SafeToPlan fun _ => Vector.replicate 16 0 :=
  (planned_safe_iff _ (responseBytes [1, 0, 0, 0, 0, 0, 0, 0] [0, 8, 0, 0] [1, 0, 0, 0] 1) oneBlock
    (by decide)).2 (by decide)

/-- Two blocks of 2048 bytes sign a file of one byte. -/
def twoBlocks : Wire.BlockSigResponseInfo where
  relPath := []
  fileHash := Vector.replicate 16 0
  sig := ⟨1, 2048, 2, 0, [⟨0, Vector.replicate 16 0⟩, ⟨0, Vector.replicate 16 0⟩]⟩

/-- The decoder takes them, the subtraction for the second block wraps, and the plan downloads
2049 bytes of the file. -/
theorem twoBlocks_unsafe :
    WireCursor.decode .blockSigResponse (responseBytes [1, 0, 0, 0, 0, 0, 0, 0] [0, 8, 0, 0] [2, 0, 0, 0] 2) =
        .ok (.blockSigResponse twoBlocks) ∧
      (ofWire twoBlocks.sig).blockLen 1 = 2048 ∧
      (buildPlan (fun _ => Vector.replicate 16 0) (ofWire twoBlocks.sig) [] {}).misses = [⟨0, 2049⟩] ∧
      ¬ (ofWire twoBlocks.sig).SafeToPlan fun _ => Vector.replicate 16 0 := by
  refine ⟨by decide, by decide, by decide, ?_⟩
  intro h
  exact absurd (h.noUnderflow 1 (by decide)) (by decide)

end FastClone.Delta
