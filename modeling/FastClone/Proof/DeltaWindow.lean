import FastClone.Proof.DeltaLoads

/-!
# The size of the sliding window

The window grows at the reads only, and bytes are let go only once they fill a chunk. Where the scan
is when it reads is said by the moves of block matching along the old content, so whether the
documented bound holds can be read off the old length, the chunk, the block size and where blocks match.

* `window_peak_source`: for one source, exactly if every read begins at most a block behind where the
  bytes kept begin.
* `window_peak_all`: for sources in arbitrary pieces, exactly if no block the scan moves to begins more
  than one byte behind where the bytes kept begin.
-/

namespace FastClone.Delta

open Greedy ReadAhead

/-! ### Where the loads end -/

theorem loadsOf_ends (chunk L base : ℕ) (ms : List Move) :
    (loadsOf chunk L base ms).map Prod.snd = ms.map fun m => m.stop + L := by
  induction ms generalizing base with
  | nil => rfl
  | cons m ms ih => rw [loadsOf, List.map_cons, List.map_cons, ih]

/-- The loads of a scan end further and further, and inside the file. -/
theorem neededLoads_ascending (strongHash : Bytes → Strong) (sig : SignatureSet) (f : Bytes) (oldLen : ℕ)
    (opt : StreamingPlanOptions) :
    (∀ load ∈ neededLoads strongHash sig f oldLen opt, 0 < load.2 ∧ load.2 ≤ oldLen) ∧
      ((neededLoads strongHash sig f oldLen opt).map Prod.snd).Pairwise (· < ·) := by
  unfold neededLoads
  split
  · exact ⟨fun load hload => absurd hload List.not_mem_nil, List.Pairwise.nil⟩
  rename_i h
  split
  · exact ⟨fun load hload => absurd hload List.not_mem_nil, List.Pairwise.nil⟩
  have hL := SignatureSet.blockSize_pos h
  obtain ⟨hinside, hpairs⟩ := @moves_ascending (windowHit strongHash sig f) (fullBlocks sig).reverse sig.blockSize oldLen _
    (checkpoint sig oldLen opt.build) hL (prefixBytes sig oldLen opt.build) 0 []
  have hends := loadsOf_ends opt.chunk sig.blockSize 0
    (movesAlong strongHash sig f oldLen opt.build hL (prefixBytes sig oldLen opt.build) 0 [])
  refine ⟨fun load hload => ?_, ?_⟩
  · rcases List.mem_cons.1 hload with rfl | hload
    · exact ⟨hL, by dsimp only; omega⟩
    · have hmem := List.mem_map_of_mem (f := Prod.snd) hload
      rw [hends, List.mem_map] at hmem
      obtain ⟨m, hm, hstop⟩ := hmem
      have hm := hinside m hm
      omega
  · rw [List.map_cons, hends, List.pairwise_cons]
    refine ⟨fun e he => ?_, ?_⟩
    · obtain ⟨m, hm, rfl⟩ := List.mem_map.1 he
      have hm := hinside m hm
      dsimp only
      omega
    · rw [List.pairwise_map] at hpairs ⊢
      exact hpairs.imp fun hlt => by omega

/-! ### The bound -/

section Bound

variable (strongHash : Bytes → Strong) (sig : SignatureSet) (old : Bytes) (opt : StreamingPlanOptions) (onCopy : Bool)

/-- For one source that delivers the old file. -/
theorem window_peak_source {σ : Type} {source : ByteSource σ} {remaining : σ → Bytes} (hd : source.Delivers remaining)
    {s : σ} (hs : remaining s = old) :
    (streamingWindow strongHash sig old.length source s opt onCopy).peak ≤ opt.readAheadChunkBytes + sig.blockSize ↔
      ∀ x ∈ fills source.read opt.chunk (neededLoads strongHash sig old old.length opt) s 0,
        x.2.loaded + opt.slack ≤ x.1 + sig.blockSize := by
  have hloads := (neededLoads_ascending strongHash sig old old.length opt).1
  refine (streamingWindow_served (fills_served (g := []) hd ?_ rfl fun load hload => ?_)).2
  · rw [List.nil_append, hs]
  · rw [List.nil_append, hs]
    exact (hloads load hload).2

/-- The old file in pieces of one byte. -/
def dripSource : ByteSource Bytes where
  read := drip
  read_le s n := by
    unfold drip
    rw [List.length_take]
    omega

theorem dripSource_delivers : dripSource.Delivers id := drip_delivers

/-- For all sources that deliver the old file, in whatever pieces. -/
theorem window_peak_all :
    (∀ (σ : Type) (source : ByteSource σ) (remaining : σ → Bytes) (s : σ), source.Delivers remaining → remaining s = old →
      (streamingWindow strongHash sig old.length source s opt onCopy).peak ≤ opt.readAheadChunkBytes + sig.blockSize) ↔
    ∀ load ∈ neededLoads strongHash sig old old.length opt, load.2 + opt.slack ≤ load.1 + sig.blockSize + 1 := by
  obtain ⟨hinside, hpairs⟩ := neededLoads_ascending strongHash sig old old.length opt
  constructor
  · -- the last byte of every load is asked for alone when the bytes come one by one
    intro hall load hload
    have hdrip := (window_peak_source strongHash sig old opt onCopy dripSource_delivers rfl).1 (hall Bytes dripSource id old dripSource_delivers rfl)
    obtain ⟨x, hx, hbase, hlast⟩ := mem_fills_drip opt.chunk (n := 0)
      (fun load hload => (hinside load hload).1) hpairs
      (fun load hload => by rw [Nat.zero_add]; exact (hinside load hload).2) hload
    have hroom := hdrip x hx
    omega
  · intro hloads σ source remaining s hd hs
    refine (window_peak_source strongHash sig old opt onCopy hd hs).2 fun x hx => ?_
    obtain ⟨last, hmem, hlt⟩ := mem_fills hx
    have hroom := hloads _ hmem
    dsimp only at hroom
    omega

end Bound

/-- **When the window stays within a read-ahead chunk and a block.** Where the scan moves along the old file fixes
its loads, each from where the bytes kept begin up to the end of the block moved to. For one source the bound
holds exactly if every read these loads take begins at most a block behind where the bytes kept begin (less than
a block for a read-ahead of 0). For all sources, in arbitrary pieces, it holds exactly if no block moved to begins
more than one byte behind it (none at all for a read-ahead of 0). -/
theorem window_peak_iff (strongHash : Bytes → Strong) (sig : SignatureSet) (old : Bytes) (opt : StreamingPlanOptions)
    (onCopy : Bool) :
    (∀ (σ : Type) (source : ByteSource σ) (remaining : σ → Bytes) (s : σ), source.Delivers remaining → remaining s = old →
      ((streamingWindow strongHash sig old.length source s opt onCopy).peak ≤
          opt.readAheadChunkBytes + sig.blockSize ↔
        ∀ x ∈ fills source.read opt.chunk (neededLoads strongHash sig old old.length opt) s 0,
          x.2.loaded + opt.slack ≤ x.1 + sig.blockSize)) ∧
    ((∀ (σ : Type) (source : ByteSource σ) (remaining : σ → Bytes) (s : σ), source.Delivers remaining → remaining s = old →
      (streamingWindow strongHash sig old.length source s opt onCopy).peak ≤ opt.readAheadChunkBytes + sig.blockSize) ↔
      ∀ load ∈ neededLoads strongHash sig old old.length opt, load.2 + opt.slack ≤ load.1 + sig.blockSize + 1) :=
  ⟨fun _ _ _ _ hd hs => window_peak_source strongHash sig old opt onCopy hd hs, window_peak_all strongHash sig old opt onCopy⟩

/-! ### Files that are read -/

/-- A file shorter than its block: no block is ever found. -/
def unmatched : SignatureSet :=
  { fileSize := 1, blockSize := 2, blockCount := 1, strongLen := 8, blocks := #[⟨0, Vector.replicate 16 0⟩],
    blockSize_lt := SignatureSet.two_lt, blockCount_lt := SignatureSet.one_lt }

/-- Two equal blocks. -/
def twoPairs : SignatureSet :=
  { fileSize := 4, blockSize := 2, blockCount := 2, strongLen := 8,
    blocks := #[⟨0, Vector.replicate 16 0⟩, ⟨0, Vector.replicate 16 0⟩],
    blockSize_lt := SignatureSet.two_lt, blockCount_lt := SignatureSet.two_lt }

theorem checkpoint_before {sig : SignatureSet} {oldLen : ℕ} {opt : BuildOptions} {nextEval found p : ℕ} (h : p < nextEval) :
    checkpoint sig oldLen opt nextEval found p = some nextEval := by
  have hno : decide (p ≥ nextEval) = false := decide_eq_false (by omega)
  unfold checkpoint stopHere evalAfter
  rw [hno, Bool.and_false, Bool.false_and, if_neg Bool.false_ne_true, if_neg Bool.false_ne_true]

theorem unmatched_move (g : Bytes) (p : ℕ) :
    nextMove (fun _ => Vector.replicate 16 0) unmatched g p [] = (⟨p, p + 1, false⟩, []) := by
  have hnone : fullBlocks unmatched = [] := by decide
  unfold nextMove
  rw [hnone]
  rfl

/-- Along a file without matches the window rolls. -/
theorem unmatched_go (g : Bytes) {oldLen nextEval p : ℕ} {opt : BuildOptions} {hL : 0 < unmatched.blockSize}
    (h : p + 1 + 2 ≤ oldLen) (heval : p + 1 < nextEval) :
    movesAlong (fun _ => Vector.replicate 16 0) unmatched g oldLen opt hL nextEval p [] =
      ⟨p, p + 1, false⟩ :: movesAlong (fun _ => Vector.replicate 16 0) unmatched g oldLen opt hL nextEval (p + 1) [] :=
  movesAlong_go (unmatched_move g p) h (checkpoint_before heval)

theorem unmatched_end (g : Bytes) {oldLen nextEval p : ℕ} {opt : BuildOptions} {hL : 0 < unmatched.blockSize}
    (h : ¬ p + 1 + 2 ≤ oldLen) :
    movesAlong (fun _ => Vector.replicate 16 0) unmatched g oldLen opt hL nextEval p [] = [] :=
  movesAlong_end (unmatched_move g p) h

/-- A file of five bytes rolled over with a chunk of two, read two bytes at a time: the window has four at most.
Two blocks found one behind the other, in whatever pieces: the same. -/
theorem window_peak_read :
    (streamingWindow (fun _ => Vector.replicate 16 0) unmatched [7, 7, 7, 7, 7].length spanSource [7, 7, 7, 7, 7]
      { readAheadChunkBytes := 2 } true).peak ≤ 2 + 2 ∧
    ∀ (σ : Type) (source : ByteSource σ) (remaining : σ → Bytes) (s : σ), source.Delivers remaining →
      remaining s = [0, 0, 0, 0] →
      (streamingWindow (fun _ => Vector.replicate 16 0) twoPairs [0, 0, 0, 0].length source s
        { readAheadChunkBytes := 2 } true).peak ≤ 2 + 2 := by
  constructor
  · have hloads : neededLoads (fun _ => Vector.replicate 16 0) unmatched [7, 7, 7, 7, 7] 5 { readAheadChunkBytes := 2 } =
        [(0, 2), (0, 3), (0, 4), (2, 5)] := by
      have heval : 3 < prefixBytes unmatched 5 {} := by decide
      unfold neededLoads
      rw [dif_neg (by decide), if_neg (by decide), unmatched_go _ (by decide) (by dsimp only; omega),
        unmatched_go _ (by decide) (by dsimp only; omega), unmatched_go _ (by decide) (by dsimp only; omega),
        unmatched_end _ (by decide)]
      rfl
    refine ((window_peak_iff (fun _ => Vector.replicate 16 0) unmatched [7, 7, 7, 7, 7] { readAheadChunkBytes := 2 } true).1
      Bytes spanSource id [7, 7, 7, 7, 7] spanSource_delivers rfl).2 ?_
    rw [show ([7, 7, 7, 7, 7] : Bytes).length = 5 from rfl, hloads]
    simp [fills, fill, spanSource, StreamingPlanOptions.chunk, StreamingPlanOptions.slack, unmatched]
  · have hfirst : nextMove (fun _ => Vector.replicate 16 0) twoPairs [0, 0, 0, 0] 0 [] = (⟨0, 2, true⟩, [(1, 0)]) := by
      decide
    have hsecond : nextMove (fun _ => Vector.replicate 16 0) twoPairs [0, 0, 0, 0] 2 [(1, 0)] =
        (⟨2, 4, true⟩, [(0, 2), (1, 0)]) := by
      decide
    have hloads : neededLoads (fun _ => Vector.replicate 16 0) twoPairs [0, 0, 0, 0] 4 { readAheadChunkBytes := 2 } =
        [(0, 2), (2, 4)] := by
      have heval : 2 < prefixBytes twoPairs 4 {} := by decide
      unfold neededLoads
      rw [dif_neg (by decide), if_neg (by decide), movesAlong_go hfirst (by decide) (checkpoint_before heval),
        movesAlong_end hsecond (by decide)]
      rfl
    refine (window_peak_iff (fun _ => Vector.replicate 16 0) twoPairs [0, 0, 0, 0] { readAheadChunkBytes := 2 } true).2.2 ?_
    rw [show ([0, 0, 0, 0] : Bytes).length = 4 from rfl, hloads]
    decide

/-- A chunk of three over four bytes without a match: the last byte is read when three are kept, and the buffer
grows to six. -/
theorem window_peak_exceeds :
    ¬ (streamingWindow (fun _ => Vector.replicate 16 0) unmatched 4 spanSource [7, 7, 7, 7] { readAheadChunkBytes := 3 }
        true).peak ≤ 3 + 2 := by
  have hloads : neededLoads (fun _ => Vector.replicate 16 0) unmatched [7, 7, 7, 7] 4 { readAheadChunkBytes := 3 } =
      [(0, 2), (0, 3), (0, 4)] := by
    have heval : 2 < prefixBytes unmatched 4 {} := by decide
    unfold neededLoads
    rw [dif_neg (by decide), if_neg (by decide), unmatched_go _ (by decide) (by dsimp only; omega),
      unmatched_go _ (by decide) (by dsimp only; omega), unmatched_end _ (by decide)]
    rfl
  intro hpeak
  have hreads := (window_peak_source (fun _ => Vector.replicate 16 0) unmatched [7, 7, 7, 7] { readAheadChunkBytes := 3 } true
    spanSource_delivers rfl).1 hpeak
  rw [show ([7, 7, 7, 7] : Bytes).length = 4 from rfl, hloads] at hreads
  simp [fills, fill, spanSource, StreamingPlanOptions.chunk, StreamingPlanOptions.slack, unmatched] at hreads

end FastClone.Delta
