import FastClone.Lib.Greedy
import FastClone.Proof.DeltaScan
import FastClone.Proof.DeltaWeak

/-!
# The scan refines greedy matching

Buckets, the rolling checksum and the lazy strong hash are ways to find a block
quickly. What the scan is for is said by `Greedy.greedy`: at each old offset take the
unmatched full block with the highest index that equals the window in both checksums.
`scan_greedy`: **a scan that is not stopped early finds exactly the greedy matches.**
-/

namespace FastClone.Delta

open Greedy

variable {strongHash : Bytes → Strong} {sig : SignatureSet} {old : Bytes} {opt : BuildOptions}

/-- Block `i` equals the old window at `p` in the weak checksum and in the first
`strongLen` bytes of the strong hash. -/
def windowHit (strongHash : Bytes → Strong) (sig : SignatureSet) (old : Bytes) (p i : ℕ) : Bool :=
  (sig.blocks.getD i default).weak = (weakInit (slice old p sig.blockSize)).value &&
    strongEq sig.strongLen (strongHash (slice old p sig.blockSize)) (sig.blocks.getD i default).strong

/-- The greedy matches of a signature along the old file. -/
def greedyMatches (strongHash : Bytes → Strong) (sig : SignatureSet) (old : Bytes)
    (hL : 0 < sig.blockSize) : List (ℕ × ℕ) :=
  greedy (windowHit strongHash sig old) (fullBlocks sig).reverse sig.blockSize old.length hL 0 []

/-- The log records exactly the blocks taken. -/
structure Records (sig : SignatureSet) (log : ScanLog) (taken : List (ℕ × ℕ)) : Prop where
  size : log.matched.size = sig.blockCount
  iff : ∀ i, log.matched.getD i false = true ↔ i ∈ taken.map Prod.fst

theorem Records.of_same {a b : ScanLog} {taken : List (ℕ × ℕ)} (h : Records sig a taken)
    (hs : SameMatches a b) : Records sig b taken := ⟨hs.1 ▸ h.size, hs.1 ▸ h.iff⟩

theorem Records.cons {log : ScanLog} {taken : List (ℕ × ℕ)} (h : Records sig log taken) {i p : ℕ}
    (hi : i < sig.blockCount) {log' : ScanLog}
    (hm : log'.matched = log.matched.setIfInBounds i true) : Records sig log' ((i, p) :: taken) := by
  refine ⟨by rw [hm, Array.size_setIfInBounds, h.size], fun k => ?_⟩
  rw [hm, getD_setIfInBounds _ _ _ _ _ (by rw [h.size]; exact hi), List.map_cons, List.mem_cons]
  by_cases hk : k = i
  · simp [hk]
  · rw [if_neg hk, h.iff]
    simp [hk]

/-- The candidates are laid out bucket by bucket, in descending block index. -/
def Layout (sig : SignatureSet) (csr : Csr) : Prop := ∀ weak32, csr.candidates weak32 =
  ((fullBlocks sig).reverse.filter (bucketOfBlock sig · = bucketOf weak32)).map (entryOf sig)

section Layout

variable {csr : Csr} (hcsr : Layout sig csr)
include hcsr

/-- The candidate loop over the bucket of the window takes the greedy choice. -/
theorem find_candidates {p : ℕ} {log : ScanLog} {taken : List (ℕ × ℕ)} (hr : Records sig log taken) :
    (csr.candidates (weakInit (slice old p sig.blockSize)).value).find?
        (hits strongHash sig old p (weakInit (slice old p sig.blockSize)).value log) =
      (choose (windowHit strongHash sig old) (fullBlocks sig).reverse p taken).map (entryOf sig) := by
  rw [hcsr, List.find?_map, List.find?_filter, choose]
  congr 1
  congr 1
  funext i
  -- equal weak checksums share the bucket
  rw [Bool.eq_iff_iff, Bool.and_eq_true, Function.comp_apply]
  simp only [hits_iff, windowHit, entryOf, bucketOfBlock, decide_eq_true_eq, Bool.and_eq_true, Bool.not_eq_true',
    List.contains_eq_mem, decide_eq_false_iff_not]
  rw [← hr.iff i, Bool.not_eq_true]
  constructor
  · rintro ⟨-, h1, h2, h3⟩; exact ⟨⟨h1, h3⟩, h2⟩
  · rintro ⟨⟨h1, h3⟩, h2⟩; exact ⟨decide_eq_true (congrArg bucketOf h1), h1, h2, h3⟩

/-- One window of the scan against one greedy choice. -/
theorem tryCandidates_choose {p : ℕ} {log : ScanLog} {taken : List (ℕ × ℕ)} (hr : Records sig log taken) :
    let weak32 := (weakInit (slice old p sig.blockSize)).value
    let r := tryCandidates strongHash sig old p weak32 (csr.candidates weak32) none log
    match choose (windowHit strongHash sig old) (fullBlocks sig).reverse p taken with
    | none => r.2 = false ∧ Records sig r.1 taken
    | some i => r.2 = true ∧ Records sig r.1 ((i, p) :: taken) := by
  dsimp only
  have h := @tryCandidates_find strongHash sig old p (weakInit (slice old p sig.blockSize)).value
    (csr.candidates (weakInit (slice old p sig.blockSize)).value) none log (fun _ h => by cases h)
  rw [find_candidates hcsr hr] at h
  cases hc : choose (windowHit strongHash sig old) (fullBlocks sig).reverse p taken with
  | none =>
    rw [hc] at h
    exact ⟨h.1, hr.of_same h.2⟩
  | some i =>
    rw [hc] at h
    have hi := (mem_fullBlocks sig).1 (List.mem_reverse.1 (choose_some hc).1)
    exact ⟨h.1, hr.cons hi.1 h.2.1⟩

/-- A candidate is taken only where the greedy choice is that candidate. -/
theorem tryCandidates_hit {p : ℕ} {log : ScanLog} {taken : List (ℕ × ℕ)} (hr : Records sig log taken) {weak32 : UInt32}
    (hweak : weak32 = (weakInit (slice old p sig.blockSize)).value)
    (hm : (tryCandidates strongHash sig old p weak32 (csr.candidates weak32) none log).2 = true) :
    ∃ i, choose (windowHit strongHash sig old) (fullBlocks sig).reverse p taken = some i ∧
      Records sig (tryCandidates strongHash sig old p weak32 (csr.candidates weak32) none log).1 ((i, p) :: taken) := by
  subst hweak
  have h := @tryCandidates_choose strongHash sig old csr hcsr p log taken hr
  cases hc : choose (windowHit strongHash sig old) (fullBlocks sig).reverse p taken with
  | none =>
    rw [hc] at h
    have hno := h.1
    rw [hm] at hno
    nomatch hno
  | some i =>
    rw [hc] at h
    exact ⟨i, rfl, h.2⟩

/-- No candidate is taken only where there is no greedy choice. -/
theorem tryCandidates_miss {p : ℕ} {log : ScanLog} {taken : List (ℕ × ℕ)} (hr : Records sig log taken) {weak32 : UInt32}
    (hweak : weak32 = (weakInit (slice old p sig.blockSize)).value)
    (hm : ¬ (tryCandidates strongHash sig old p weak32 (csr.candidates weak32) none log).2 = true) :
    choose (windowHit strongHash sig old) (fullBlocks sig).reverse p taken = none ∧
      Records sig (tryCandidates strongHash sig old p weak32 (csr.candidates weak32) none log).1 taken := by
  subst hweak
  have h := @tryCandidates_choose strongHash sig old csr hcsr p log taken hr
  cases hc : choose (windowHit strongHash sig old) (fullBlocks sig).reverse p taken with
  | none =>
    rw [hc] at h
    exact ⟨rfl, h.2⟩
  | some i =>
    rw [hc] at h
    exact absurd h.1 hm

theorem scanLoop_greedy {hL : 0 < sig.blockSize} (c : Cursor) (log : ScanLog)
    (hp : c.p + sig.blockSize ≤ old.length) (hw : c.w = weakInit (slice old c.p sig.blockSize)) :
    ∀ taken, Records sig log taken →
      (scanLoop strongHash sig csr old opt hL c log).2.2 = false →
      Records sig (scanLoop strongHash sig csr old opt hL c log).1
        (greedy (windowHit strongHash sig old) (fullBlocks sig).reverse sig.blockSize old.length hL
          c.p taken) := by
  fun_induction scanLoop strongHash sig csr old opt hL c log with
  | case1 c log weak32 r hm log' p hend =>
    intro taken hr hstop
    obtain ⟨i, hchoice, hrecords⟩ := tryCandidates_hit hcsr hr (congrArg RollingWeak.value hw) hm
    rw [greedy_hit hp hchoice, greedy_done (by omega)]
    exact hrecords.of_same ⟨rfl, rfl⟩
  | case2 c log weak32 r hm log' p hend hs => intro taken hr hstop; cases hstop
  | case3 c log weak32 r hm log' p hend hs ih =>
    intro taken hr hstop
    obtain ⟨i, hchoice, hrecords⟩ := tryCandidates_hit hcsr hr (congrArg RollingWeak.value hw) hm
    rw [greedy_hit hp hchoice]
    exact ih (by dsimp only; omega) rfl _ (hrecords.of_same ⟨rfl, rfl⟩) hstop
  | case4 c log weak32 r hm hend =>
    intro taken hr hstop
    obtain ⟨hchoice, hrecords⟩ := tryCandidates_miss hcsr hr (congrArg RollingWeak.value hw) hm
    rw [greedy_miss hp hchoice, greedy_done (by omega)]
    exact hrecords
  | case5 c log weak32 r hm hend p hs => intro taken hr hstop; cases hstop
  | case6 c log weak32 r hm hend w p hs ih =>
    intro taken hr hstop
    obtain ⟨hchoice, hrecords⟩ := tryCandidates_miss hcsr hr (congrArg RollingWeak.value hw) hm
    rw [greedy_miss hp hchoice]
    refine ih (by dsimp only; omega) ?_ _ hrecords hstop
    change weakRoll c.w _ _ _ = _
    rw [hw]
    exact weakRoll_slice hL (by omega)

end Layout

/-- **The scan finds the greedy matches.** -/
theorem scan_greedy (hL : 0 < sig.blockSize) (hstop : (scan strongHash sig old opt hL).2.2 = false) :
    ∀ i, (scan strongHash sig old opt hL).1.matched.getD i false = true ↔
      i ∈ (greedyMatches strongHash sig old hL).map Prod.fst := by
  have hinit : Records sig (ScanLog.init sig.blockCount) [] := by
    refine ⟨by simp [ScanLog.init], fun i => ?_⟩
    simp [ScanLog.init, Array.getD]
  unfold scan at hstop ⊢
  unfold greedyMatches
  by_cases h : old.length ≥ sig.blockSize
  · rw [if_pos h] at hstop ⊢
    exact (scanLoop_greedy (candidates_eq sig) _ _ (by simpa using h) rfl [] hinit hstop).iff
  · rw [if_neg h, greedy_done (by omega)]
    exact hinit.iff

end FastClone.Delta
