import Mathlib.Algebra.BigOperators.Intervals
import Mathlib.Algebra.Order.BigOperators.Group.List
import FastClone.Lib.Spans
import FastClone.Proof.DeltaScan
import FastClone.Proof.DeltaSize

/-!
# Emission of the plan: copies, coalesced misses and tiling

The emission loop turns the scan's matches into copies and coalesces the unmatched
blocks into runs. `emitPlan_runs` says exactly which runs: maximal, ascending, with a
matched block between any two. A `MissOp` keeps a run's length in 32 bits, so the plan
tiles the new file exactly when no run reaches `2^32` bytes.
-/

namespace FastClone.Delta

open Spans

/-- The new-file spans of a plan. -/
def DeltaPlan.copySpans (plan : DeltaPlan) : List Span := plan.copies.map fun c => (c.destOffsetNew, c.len)

def DeltaPlan.missSpans (plan : DeltaPlan) : List Span := plan.misses.map fun m => (m.destOffsetNew, m.len)

/-- The operations tile the new file: pairwise disjoint, misses ascending and coalesced,
covering `[0, newFileBytes)` exactly, and `downloadBytes` is the sum of the misses. -/
structure DeltaPlan.Tiles (plan : DeltaPlan) : Prop where
  disjoint : (plan.copySpans ++ plan.missSpans).Pairwise Apart
  ascending : Separated plan.missSpans
  cover : ∀ x, x < plan.newFileBytes ↔ ∃ r ∈ plan.copySpans ++ plan.missSpans, r.Has x
  download : (plan.misses.map MissOp.len).sum = plan.downloadBytes

/-- The blocks of a signature cut `[0, fileSize)`: only the last one may be short. -/
structure SignatureSet.Cuts (sig : SignatureSet) : Prop where
  pos : 0 < sig.blockSize
  size : sig.fileSize < 2 ^ 64
  lo : ∀ i < sig.blockCount, i * sig.blockSize < sig.fileSize
  hi : sig.fileSize ≤ sig.blockCount * sig.blockSize

/-- End of the first `i` blocks. -/
def SignatureSet.edge (sig : SignatureSet) (i : ℕ) : ℕ := min (i * sig.blockSize) sig.fileSize

/-- No interval of consecutive unmatched blocks reaches `2^32` bytes. -/
def ShortRuns (sig : SignatureSet) (log : ScanLog) : Prop :=
  ∀ a b, a < b → b ≤ sig.blockCount → (∀ j, a ≤ j → j < b → log.matched.getD j false = false) →
    ∑ j ∈ Finset.Ico a b, sig.blockLen j < 2 ^ 32

section Blocks

variable {sig : SignatureSet} (hc : sig.Cuts)
include hc

theorem edge_of_lt {i : ℕ} (hi : i < sig.blockCount) : sig.edge i = i * sig.blockSize := by
  have := hc.lo i hi
  unfold SignatureSet.edge
  omega

theorem edge_blockCount : sig.edge sig.blockCount = sig.fileSize := by
  have := hc.hi
  unfold SignatureSet.edge
  omega

theorem edge_succ {i : ℕ} (hi : i < sig.blockCount) :
    i * sig.blockSize + sig.blockLen i = sig.edge (i + 1) := by
  have h1 := hc.lo i hi
  have h2 := hc.size
  unfold SignatureSet.blockLen SignatureSet.edge
  rw [sub64_of_le (by omega) h2, Nat.succ_mul]
  omega

theorem edge_lt_succ {i : ℕ} (hi : i < sig.blockCount) : sig.edge i < sig.edge (i + 1) := by
  have h1 := hc.lo i hi
  have h2 := hc.pos
  unfold SignatureSet.edge
  rw [Nat.succ_mul]
  omega

omit hc in
theorem SignatureSet.edge_mono (sig : SignatureSet) {i j : ℕ} (h : i ≤ j) : sig.edge i ≤ sig.edge j := by
  have := Nat.mul_le_mul_right sig.blockSize h
  unfold SignatureSet.edge
  omega

theorem sum_blockLen {a b : ℕ} (hab : a ≤ b) (hb : b ≤ sig.blockCount) :
    ∑ j ∈ Finset.Ico a b, sig.blockLen j = sig.edge b - sig.edge a := by
  induction b, hab using Nat.le_induction with
  | base => simp
  | succ b hab ih =>
    have h1 := edge_succ hc (show b < sig.blockCount by omega)
    have h2 := edge_of_lt hc (show b < sig.blockCount by omega)
    have h3 := sig.edge_mono hab
    rw [Finset.sum_Ico_succ_top hab, ih (by omega)]
    omega

/-- The block that holds an offset. -/
theorem block_of_offset {x : ℕ} (hx : x < sig.fileSize) :
    ∃ j < sig.blockCount, j * sig.blockSize ≤ x ∧ x < sig.edge (j + 1) := by
  have hpos := hc.pos
  have hj : x / sig.blockSize < sig.blockCount := by
    rw [Nat.div_lt_iff_lt_mul hpos]
    exact lt_of_lt_of_le hx hc.hi
  refine ⟨x / sig.blockSize, hj, Nat.div_mul_le_self x _, ?_⟩
  have h2 : x < (x / sig.blockSize + 1) * sig.blockSize := by
    rw [mul_comm]
    exact Nat.lt_mul_div_succ x hpos
  unfold SignatureSet.edge
  omega

end Blocks

section Emission

variable {sig : SignatureSet} {log : ScanLog}

/-- The copy of a matched block. -/
def copyOf (sig : SignatureSet) (log : ScanLog) (i : ℕ) : CopyOp :=
  ⟨log.matchedSrc.getD i 0, i * sig.blockSize, sig.blockLen i⟩

/-- The run that is open, if any. -/
def Emit.openRun (e : Emit) : List Span :=
  if e.inMissRun then [(e.missRunStart, e.missRunBytes)] else []

/-- The runs over the first `i` blocks: separated, made of unmatched blocks and holding
every unmatched block. -/
structure Runs (sig : SignatureSet) (log : ScanLog) (i : ℕ) (runs : List Span) : Prop where
  separated : Separated runs
  blocks : ∀ r ∈ runs, ∃ a b, a < b ∧ b ≤ i ∧ r.1 = a * sig.blockSize ∧ r.1 + r.2 = sig.edge b ∧
    ∀ j, a ≤ j → j < b → log.matched.getD j false = false
  holds : ∀ j < i, log.matched.getD j false = false →
    ∃ r ∈ runs, r.1 ≤ j * sig.blockSize ∧ sig.edge (j + 1) ≤ r.1 + r.2

/-- State of the emission loop after `i` blocks: `runs` are the runs already flushed,
with their true lengths. -/
structure Emitted (sig : SignatureSet) (log : ScanLog) (i : ℕ) (e : Emit) (runs : List Span) : Prop where
  misses : e.plan.misses = runs.map fun r => ⟨r.1, u32 r.2⟩
  download : e.plan.downloadBytes = (runs.map Prod.snd).sum
  all : Runs sig log i (runs ++ e.openRun)
  opened : e.inMissRun = true → e.missRunStart + e.missRunBytes = sig.edge i
  closed : e.inMissRun = false → ∀ r ∈ runs, r.1 + r.2 < sig.edge i

/-- Flushing moves the open run to the misses. -/
theorem Emit.flushMiss_spec {e : Emit} {runs : List Span}
    (hm : e.plan.misses = runs.map fun r => ⟨r.1, u32 r.2⟩)
    (hd : e.plan.downloadBytes = (runs.map Prod.snd).sum) :
    e.flushMiss.plan.misses = (runs ++ e.openRun).map (fun r => ⟨r.1, u32 r.2⟩) ∧
    e.flushMiss.plan.downloadBytes = ((runs ++ e.openRun).map Prod.snd).sum ∧
    e.flushMiss.inMissRun = false := by
  unfold Emit.flushMiss Emit.openRun
  by_cases h : e.inMissRun = true
  · simp [h, hm, hd]
  · simp [h, hm, hd]

theorem Runs.end_le {i : ℕ} {runs : List Span} (h : Runs sig log i runs) {r : Span} (hr : r ∈ runs) :
    r.1 + r.2 ≤ sig.edge i := by
  obtain ⟨a, b, -, hb, -, hend, -⟩ := h.blocks r hr
  rw [hend]
  exact sig.edge_mono hb

/-- A matched block leaves the runs as they are. -/
theorem Runs.matched {i : ℕ} {runs : List Span} (h : Runs sig log i runs)
    (hi : log.matched.getD i false = true) : Runs sig log (i + 1) runs := by
  refine ⟨h.separated, ?_, ?_⟩
  · intro r hr
    obtain ⟨a, b, hab, hb, hrest⟩ := h.blocks r hr
    exact ⟨a, b, hab, by omega, hrest⟩
  · intro j hj hu
    rcases Nat.lt_succ_iff_lt_or_eq.1 hj with hj | rfl
    · exact h.holds j hj hu
    · rw [hi] at hu; cases hu

/-- An unmatched block opens a run behind runs that end earlier. -/
theorem Runs.start {i : ℕ} {runs : List Span} (hc : sig.Cuts) (hn : i < sig.blockCount)
    (h : Runs sig log i runs) (hi : log.matched.getD i false = false)
    (hend : ∀ r ∈ runs, r.1 + r.2 < sig.edge i) :
    Runs sig log (i + 1) (runs ++ [(i * sig.blockSize, sig.blockLen i)]) := by
  have hedge := edge_succ hc hn
  refine ⟨?_, ?_, ?_⟩
  · refine List.pairwise_append.2 ⟨h.separated, List.pairwise_singleton _ _, ?_⟩
    intro r hr s hs
    rw [List.mem_singleton.1 hs, ← edge_of_lt hc hn]
    exact hend r hr
  · intro r hr
    rcases List.mem_append.1 hr with hr | hr
    · obtain ⟨a, b, hab, hb, hrest⟩ := h.blocks r hr
      exact ⟨a, b, hab, by omega, hrest⟩
    · rw [List.mem_singleton.1 hr]
      refine ⟨i, i + 1, by omega, le_refl _, rfl, hedge, ?_⟩
      intro j hj hj'
      obtain rfl : j = i := by omega
      exact hi
  · intro j hj hu
    rcases Nat.lt_succ_iff_lt_or_eq.1 hj with hj | rfl
    · obtain ⟨r, hr, hrest⟩ := h.holds j hj hu
      exact ⟨r, List.mem_append_left _ hr, hrest⟩
    · exact ⟨_, List.mem_append_right _ (List.mem_singleton_self _), le_refl _, le_of_eq hedge.symm⟩

/-- An unmatched block extends the open run. -/
theorem Runs.extend {i : ℕ} {runs : List Span} {s n : ℕ} (hc : sig.Cuts) (hn : i < sig.blockCount)
    (h : Runs sig log i (runs ++ [(s, n)])) (hi : log.matched.getD i false = false)
    (hopen : s + n = sig.edge i) : Runs sig log (i + 1) (runs ++ [(s, n + sig.blockLen i)]) := by
  have hedge := edge_succ hc hn
  have hstart := edge_of_lt hc hn
  obtain ⟨a, b, hab, hb, ha, hend, hfree⟩ := h.blocks (s, n) (by simp)
  dsimp only at ha hend
  -- the open run ends where block `i` starts
  have hbi : b = i := by
    by_contra hne
    have h1 := edge_lt_succ hc (show b < sig.blockCount by omega)
    have h2 := sig.edge_mono (show b + 1 ≤ i by omega)
    omega
  subst hbi
  refine ⟨?_, ?_, ?_⟩
  · have hsep := List.pairwise_append.1 h.separated
    refine List.pairwise_append.2 ⟨hsep.1, List.pairwise_singleton _ _, ?_⟩
    intro r hr t ht
    rw [List.mem_singleton.1 ht]
    exact hsep.2.2 r hr (s, n) (by simp)
  · intro r hr
    rcases List.mem_append.1 hr with hr | hr
    · obtain ⟨a, b', hab, hb, hrest⟩ := h.blocks r (List.mem_append_left _ hr)
      exact ⟨a, b', hab, by omega, hrest⟩
    · rw [List.mem_singleton.1 hr]
      refine ⟨a, b + 1, by omega, le_refl _, ha, by dsimp only; omega, ?_⟩
      intro j hj hj'
      rcases Nat.lt_succ_iff_lt_or_eq.1 hj' with hj' | rfl
      · exact hfree j hj hj'
      · exact hi
  · intro j hj hu
    rcases Nat.lt_succ_iff_lt_or_eq.1 hj with hj | rfl
    · obtain ⟨r, hr, h1, h2⟩ := h.holds j hj hu
      rcases List.mem_append.1 hr with hr | hr
      · exact ⟨r, List.mem_append_left _ hr, h1, h2⟩
      · rw [List.mem_singleton.1 hr] at h1 h2
        exact ⟨_, List.mem_append_right _ (List.mem_singleton_self _), h1, by dsimp only at h2 ⊢; omega⟩
    · refine ⟨_, List.mem_append_right _ (List.mem_singleton_self _), ?_, by dsimp only; omega⟩
      dsimp only
      omega

theorem Emit.block_matched {i : ℕ} (e : Emit) (hi : log.matched.getD i false = true) :
    Emit.block sig log e i = { e.flushMiss with
      plan := { e.flushMiss.plan with copies := e.flushMiss.plan.copies ++ [copyOf sig log i] } } := by
  rw [Emit.block]
  exact if_pos hi

theorem Emit.block_unmatched {i : ℕ} (e : Emit) (hi : log.matched.getD i false = false) :
    Emit.block sig log e i =
      if e.inMissRun then { e with missRunBytes := e.missRunBytes + sig.blockLen i }
      else { e with
        inMissRun := true, missRunStart := i * sig.blockSize, missRunBytes := sig.blockLen i } := by
  rw [Emit.block]
  simp only [hi, Bool.false_eq_true, if_false]
  split
  · rfl
  · simp

/-- One block of the emission loop. -/
theorem Emitted.step {i : ℕ} {e : Emit} {runs : List Span} (hc : sig.Cuts) (hn : i < sig.blockCount)
    (h : Emitted sig log i e runs) : ∃ runs', Emitted sig log (i + 1) (Emit.block sig log e i) runs' := by
  have hlt := edge_lt_succ hc hn
  by_cases hi : log.matched.getD i false = true
  · -- a copy: the open run is flushed
    obtain ⟨h1, h2, h3⟩ := Emit.flushMiss_spec h.misses h.download
    refine ⟨runs ++ e.openRun, ?_⟩
    rw [Emit.block_matched e hi]
    refine ⟨h1, h2, ?_, ?_, ?_⟩
    · simpa [Emit.openRun, h3] using h.all.matched hi
    · intro ho; rw [h3] at ho; cases ho
    · intro _ r hr
      have := h.all.end_le hr
      omega
  · have hu : log.matched.getD i false = false := by simpa using hi
    refine ⟨runs, ?_⟩
    by_cases ho : e.inMissRun = true
    · rw [Emit.block_unmatched e hu, if_pos ho]
      refine ⟨h.misses, h.download, ?_, ?_, ?_⟩
      · have hall := h.all
        simp only [Emit.openRun, ho, if_true] at hall ⊢
        exact hall.extend hc hn hu (h.opened ho)
      · intro _
        have h1 := h.opened ho
        have h2 := edge_succ hc hn
        have h3 := edge_of_lt hc hn
        dsimp only
        omega
      · intro hcl; simp [ho] at hcl
    · have hall := h.all
      have hcl : e.inMissRun = false := by simpa using ho
      rw [Emit.block_unmatched e hu, if_neg ho]
      simp only [Emit.openRun, hcl] at hall
      refine ⟨h.misses, h.download, ?_, ?_, ?_⟩
      · simp only [Emit.openRun]
        simpa using hall.start hc hn hu (by simpa using h.closed hcl)
      · intro _
        simpa using edge_succ hc hn
      · intro hcl'; simp at hcl'

/-- Emission touches neither the file size nor the statistics. -/
def Emit.SameHead (plan : DeltaPlan) (e : Emit) : Prop :=
  e.plan.newFileBytes = plan.newFileBytes ∧ e.plan.stats = plan.stats

theorem Emit.SameHead.flushMiss {plan : DeltaPlan} {e : Emit} (h : e.SameHead plan) :
    e.flushMiss.SameHead plan := by
  unfold Emit.flushMiss
  split
  · exact h
  · exact h

theorem Emit.SameHead.block {plan : DeltaPlan} {e : Emit} (h : e.SameHead plan) (i : ℕ) :
    (Emit.block sig log e i).SameHead plan := by
  by_cases hi : log.matched.getD i false = true
  · rw [Emit.block_matched e hi]
    exact h.flushMiss
  · rw [Emit.block_unmatched e (Bool.not_eq_true _ ▸ hi)]
    split
    · exact h
    · exact h

theorem emitPlan_head (plan : DeltaPlan) :
    (emitPlan sig log plan).newFileBytes = plan.newFileBytes ∧
      (emitPlan sig log plan).stats = plan.stats := by
  have key : ∀ (l : List ℕ) (e : Emit), e.SameHead plan →
      (l.foldl (Emit.block sig log) e).SameHead plan := by
    intro l
    induction l with
    | nil => intro e h; exact h
    | cons i l ih => intro e h; exact ih _ (h.block i)
  exact (key (List.range sig.blockCount) { plan := plan } ⟨rfl, rfl⟩).flushMiss

theorem emit_foldl (hc : sig.Cuts) {plan : DeltaPlan} (hm : plan.misses = []) (hd : plan.downloadBytes = 0) :
    ∀ i ≤ sig.blockCount,
    ∃ runs, Emitted sig log i ((List.range i).foldl (Emit.block sig log) { plan := plan }) runs := by
  intro i
  induction i with
  | zero =>
    intro _
    refine ⟨[], by simpa using hm, by simpa using hd, ⟨?_, ?_, ?_⟩, ?_, ?_⟩ <;>
      simp [Emit.openRun, Separated]
  | succ i ih =>
    intro hi
    obtain ⟨runs, h⟩ := ih (by omega)
    rw [List.range_succ, List.foldl_append]
    exact h.step hc (by omega)

/-- **What the emission loop emits**: the copies are those of the matched blocks. -/
theorem emitPlan_copies (plan : DeltaPlan) : (emitPlan sig log plan).copies = plan.copies ++
    ((List.range sig.blockCount).filter fun j => log.matched.getD j false).map (copyOf sig log) := by
  have hflush : ∀ e : Emit, e.flushMiss.plan.copies = e.plan.copies := by
    intro e
    unfold Emit.flushMiss
    split <;> rfl
  have key : ∀ (l : List ℕ) (e : Emit), (l.foldl (Emit.block sig log) e).plan.copies =
      e.plan.copies ++ (l.filter fun j => log.matched.getD j false).map (copyOf sig log) := by
    intro l
    induction l with
    | nil => intro e; simp
    | cons i l ih =>
      intro e
      rw [List.foldl_cons, ih]
      by_cases hi : log.matched.getD i false = true
      · rw [Emit.block_matched e hi, List.filter_cons_of_pos (by exact hi), List.map_cons]
        simp only [hflush, List.append_assoc, List.singleton_append]
      · rw [Emit.block_unmatched e (Bool.not_eq_true _ ▸ hi), List.filter_cons_of_neg (by exact hi)]
        split <;> rfl
  rw [emitPlan, hflush, key]

/-- **What the emission loop emits**: the misses are the runs, their lengths narrowed. -/
theorem emitPlan_runs (hc : sig.Cuts) {plan : DeltaPlan} (hm : plan.misses = [])
    (hd : plan.downloadBytes = 0) :
    ∃ runs, Runs sig log sig.blockCount runs ∧
      (emitPlan sig log plan).misses = runs.map (fun r => ⟨r.1, u32 r.2⟩) ∧
      (emitPlan sig log plan).downloadBytes = (runs.map Prod.snd).sum := by
  obtain ⟨runs, h⟩ := @emit_foldl sig log hc _ hm hd sig.blockCount (le_refl _)
  obtain ⟨h1, h2, -⟩ := Emit.flushMiss_spec h.misses h.download
  exact ⟨_, h.all, h1, h2⟩

/-- Runs are short exactly when every interval of unmatched blocks is. -/
theorem Runs.short_iff {runs : List Span} (hc : sig.Cuts) (h : Runs sig log sig.blockCount runs) :
    ShortRuns sig log ↔ ∀ r ∈ runs, r.2 < 2 ^ 32 := by
  constructor
  · intro hs r hr
    obtain ⟨a, b, hab, hb, ha, hend, hfree⟩ := h.blocks r hr
    have hsum := hs a b hab hb hfree
    rw [sum_blockLen hc (by omega) hb, edge_of_lt hc (show a < sig.blockCount by omega)] at hsum
    omega
  · intro hr a b hab hb hfree
    have hea := edge_of_lt hc (show a < sig.blockCount by omega)
    have hlt : sig.edge a < sig.edge b :=
      lt_of_lt_of_le (edge_lt_succ hc (by omega)) (sig.edge_mono hab)
    -- the interval is covered by runs, hence inside one of them
    have hcov : ∀ x, sig.edge a ≤ x → x < sig.edge b → ∃ r ∈ runs, r.Has x := by
      intro x hx hx'
      have hxb : x < b * sig.blockSize ∧ x < sig.fileSize := by
        unfold SignatureSet.edge at hx'
        omega
      obtain ⟨j, hj, h1, h2⟩ := block_of_offset hc hxb.2
      have h2' : x < (j + 1) * sig.blockSize := by
        unfold SignatureSet.edge at h2
        omega
      have haj : a < j + 1 := Nat.lt_of_mul_lt_mul_right (a := sig.blockSize) (by omega)
      have hjb : j < b := Nat.lt_of_mul_lt_mul_right (a := sig.blockSize) (by omega)
      obtain ⟨r, hrm, h3, h4⟩ := h.holds j hj (hfree j (by omega) hjb)
      exact ⟨r, hrm, by omega, by omega⟩
    obtain ⟨r, hrm, h1, h2⟩ := h.separated.one_span hlt hcov
    have := hr r hrm
    rw [sum_blockLen hc (by omega) hb]
    omega

theorem sum_u32_eq {runs : List Span}
    (h : (runs.map fun r => u32 r.2).sum = (runs.map Prod.snd).sum) : ∀ r ∈ runs, u32 r.2 = r.2 := by
  have hle : ∀ l : List Span, (l.map fun r => u32 r.2).sum ≤ (l.map Prod.snd).sum := by
    intro l
    exact List.sum_le_sum (fun r _ => u32_le _)
  induction runs with
  | nil => simp
  | cons r runs ih =>
    have h1 := hle runs
    have h2 := u32_le r.2
    simp only [List.map_cons, List.sum_cons] at h
    intro s hs
    rcases List.mem_cons.1 hs with rfl | hs
    · omega
    · exact ih (by omega) s hs

/-- The copies of two blocks, and a copy and a run, do not overlap. -/
theorem copies_pairwise (hc : sig.Cuts) : (((List.range sig.blockCount).filter fun j =>
    log.matched.getD j false).map fun i => (i * sig.blockSize, sig.blockLen i)).Pairwise Apart := by
  rw [List.pairwise_map]
  refine (List.pairwise_lt_range.filter _).imp_of_mem ?_
  intro i j hi hj hij
  have hi' : i < sig.blockCount := List.mem_range.1 (List.mem_filter.1 hi).1
  have h1 := edge_succ hc hi'
  have h2 := Nat.mul_le_mul_right sig.blockSize (show i + 1 ≤ j from hij)
  apply apart_of_le
  dsimp only
  unfold SignatureSet.edge at h1
  omega

theorem Runs.apart_copy {runs : List Span} (hc : sig.Cuts) (h : Runs sig log sig.blockCount runs)
    {j : ℕ} (hj : j < sig.blockCount) (hm : log.matched.getD j false = true) {r : Span} (hr : r ∈ runs) :
    Apart (j * sig.blockSize, sig.blockLen j) r := by
  obtain ⟨a, b, -, -, ha, hend, hfree⟩ := h.blocks r hr
  have h1 := edge_succ hc hj
  unfold SignatureSet.edge at h1 hend
  rcases Nat.lt_or_ge j a with hja | haj
  · have := Nat.mul_le_mul_right sig.blockSize (show j + 1 ≤ a from hja)
    exact apart_of_le (by dsimp only; omega)
  · rcases Nat.lt_or_ge j b with hjb | hbj
    · rw [hfree j haj hjb] at hm; cases hm
    · have := Nat.mul_le_mul_right sig.blockSize hbj
      exact (apart_of_le (by dsimp only; omega)).symm

/-- No operation reaches past the end of the new file. -/
theorem emitPlan_inside (hc : sig.Cuts) {plan : DeltaPlan} (hm : plan.misses = [])
    (hd : plan.downloadBytes = 0) (hcp : plan.copies = []) :
    ∀ r ∈ (emitPlan sig log plan).copySpans ++ (emitPlan sig log plan).missSpans,
      r.1 + r.2 ≤ sig.fileSize := by
  obtain ⟨runs, hr, h1, -⟩ := @emitPlan_runs sig log hc plan hm hd
  intro r hrm
  rcases List.mem_append.1 hrm with hrm | hrm
  · rw [DeltaPlan.copySpans, emitPlan_copies, hcp, List.nil_append, List.map_map] at hrm
    obtain ⟨j, hj, rfl⟩ := List.mem_map.1 hrm
    have := edge_succ hc (List.mem_range.1 (List.mem_filter.1 hj).1)
    unfold SignatureSet.edge at this
    simp only [Function.comp_apply, copyOf]
    omega
  · rw [DeltaPlan.missSpans, h1, List.map_map] at hrm
    obtain ⟨run, hrun, rfl⟩ := List.mem_map.1 hrm
    have h4 := hr.end_le hrun
    have h5 := u32_le run.2
    rw [edge_blockCount hc] at h4
    simp only [Function.comp_apply]
    omega

/-- **Tiling of an emitted plan**: exactly when no run of missed blocks reaches `2^32` bytes. -/
theorem emitPlan_tiles_iff (hc : sig.Cuts) {plan : DeltaPlan} (hm : plan.misses = [])
    (hd : plan.downloadBytes = 0) (hcp : plan.copies = []) (hnew : plan.newFileBytes = sig.fileSize) :
    (emitPlan sig log plan).Tiles ↔ ShortRuns sig log := by
  obtain ⟨runs, hr, h1, h2⟩ := @emitPlan_runs sig log hc plan hm hd
  rw [hr.short_iff hc]
  have hcs : (emitPlan sig log plan).copySpans = ((List.range sig.blockCount).filter fun j =>
      log.matched.getD j false).map fun i => (i * sig.blockSize, sig.blockLen i) := by
    rw [DeltaPlan.copySpans, emitPlan_copies, hcp, List.nil_append, List.map_map]
    rfl
  constructor
  · intro ht r hrm
    have hsum := ht.download
    rw [h1, h2, List.map_map] at hsum
    have := sum_u32_eq hsum r hrm
    unfold u32 at this
    omega
  · intro hshort
    have hms : (emitPlan sig log plan).missSpans = runs := by
      rw [DeltaPlan.missSpans, h1, List.map_map]
      calc _ = runs.map id := List.map_congr_left fun r hrm => by
              simp [u32_of_lt (hshort r hrm)]
        _ = runs := List.map_id runs
    refine ⟨?_, ?_, ?_, ?_⟩
    · rw [hcs, hms]
      refine List.pairwise_append.2 ⟨copies_pairwise hc, hr.separated.pairwise_apart, ?_⟩
      intro c hcm r hrm
      obtain ⟨j, hj, rfl⟩ := List.mem_map.1 hcm
      obtain ⟨hj1, hj2⟩ := List.mem_filter.1 hj
      exact hr.apart_copy hc (List.mem_range.1 hj1) hj2 hrm
    · rw [hms]; exact hr.separated
    · intro x
      rw [hcs, hms, (emitPlan_head plan).1, hnew]
      constructor
      · intro hx
        obtain ⟨j, hj, hj1, hj2⟩ := block_of_offset hc hx
        by_cases hjm : log.matched.getD j false = true
        · refine ⟨(j * sig.blockSize, sig.blockLen j), List.mem_append_left _ ?_, hj1, ?_⟩
          · exact List.mem_map.2 ⟨j, List.mem_filter.2 ⟨List.mem_range.2 hj, hjm⟩, rfl⟩
          · have := edge_succ hc hj
            dsimp only
            omega
        · obtain ⟨r, hrm, h4, h5⟩ := hr.holds j hj (by simpa using hjm)
          exact ⟨r, List.mem_append_right _ hrm, by omega, by omega⟩
      · rintro ⟨r, hrm, hx⟩
        have hx2 := hx.2
        have hend := emitPlan_inside hc hm hd hcp r (hcs ▸ hms ▸ hrm)
        omega
    · rw [h1, h2, List.map_map]
      exact congrArg List.sum (List.map_congr_left fun r hrm => u32_of_lt (hshort r hrm))

end Emission

end FastClone.Delta
