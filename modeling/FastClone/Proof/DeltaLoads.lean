import Mathlib.Data.List.GetD
import FastClone.Lib.ReadAhead
import FastClone.Proof.DeltaStreaming

/-!
# What the streaming scan loads

The window is loaded by the moves of the scan and by nothing else: once for the first block, then
at every move up to the end of the block moved to. Where it moves is said by the greedy walk
(`Greedy.moves`), which looks at contents only; what the source is asked for is said by
`ReadAhead.fills`.

* `neededLoads`: the loads of a scan over a content.
* `scanLoop_turn`: one turn of the scan is one move and its load.
-/

namespace FastClone.Delta

open Greedy ReadAhead

variable {σ : Type}

/-! ### The loads of a scan -/

/-- The chunk of a window: 0 counts as 1. -/
def StreamingPlanOptions.chunk (opt : StreamingPlanOptions) : ℕ :=
  if opt.readAheadChunkBytes = 0 then 1 else opt.readAheadChunkBytes

/-- Where the bytes kept begin, when those below `p` are let go once they fill a chunk. -/
def dropBelow (chunk base p : ℕ) : ℕ := if base + chunk ≤ p then p else base

/-- Where the bytes kept begin at the load of a move: bytes are let go before the move, and once more
behind a jump. -/
def baseBehind (chunk base : ℕ) (m : Move) : ℕ :=
  if m.jump then dropBelow chunk (dropBelow chunk base m.start) m.stop else dropBelow chunk base m.start

/-- The loads of a list of moves: where the bytes kept begin, and the end of the block moved to. -/
def loadsOf (chunk L : ℕ) : ℕ → List Move → List (ℕ × ℕ)
  | _, [] => []
  | base, m :: ms => (baseBehind chunk base m, m.stop + L) :: loadsOf chunk L (baseBehind chunk base m) ms

/-- The early-stop checkpoint, as a rule on the number of blocks found and the position. -/
def checkpoint (sig : SignatureSet) (oldLen : ℕ) (opt : BuildOptions) (nextEval found p : ℕ) : Option ℕ :=
  if stopHere sig oldLen opt (found * sig.blockSize) p nextEval then none else some (evalAfter opt p nextEval)

/-- The moves of block matching along the content `f` of a file of `oldLen` bytes. -/
def movesAlong (strongHash : Bytes → Strong) (sig : SignatureSet) (f : Bytes) (oldLen : ℕ) (opt : BuildOptions)
    (hL : 0 < sig.blockSize) (nextEval p : ℕ) (taken : List (ℕ × ℕ)) : List Move :=
  moves (windowHit strongHash sig f) (fullBlocks sig).reverse sig.blockSize oldLen (checkpoint sig oldLen opt) hL
    nextEval p taken

/-- The loads block matching needs along `f`: the first block, then one load a move; nothing
without blocks, or where the file is shorter than a block. -/
def neededLoads (strongHash : Bytes → Strong) (sig : SignatureSet) (f : Bytes) (oldLen : ℕ)
    (opt : StreamingPlanOptions) : List (ℕ × ℕ) :=
  if h : sig.blockCount = 0 ∨ sig.blockSize = 0 then []
  else if oldLen < sig.blockSize then []
  else (0, sig.blockSize) :: loadsOf opt.chunk sig.blockSize 0
    (movesAlong strongHash sig f oldLen opt.build (SignatureSet.blockSize_pos h) (prefixBytes sig oldLen opt.build) 0 [])

/-! ### One load of the window -/

theorem slice_of_start {content old : Bytes} (h : content <+: old) {p len : ℕ} (hend : p + len ≤ content.length) :
    slice content p len = slice old p len := by
  obtain ⟨rest, rfl⟩ := h
  unfold slice
  rw [List.drop_append_of_le_length (by omega), List.take_append_of_le_length]
  rw [List.length_drop]
  omega

theorem getD_of_start {content old : Bytes} (h : content <+: old) {i : ℕ} (hi : i < content.length) :
    content.getD i 0 = old.getD i 0 := by
  obtain ⟨rest, rfl⟩ := h
  rw [List.getD_append _ _ _ _ hi]

section Window

variable {source : ByteSource σ} {g : Bytes} {oldLen chunk p last : ℕ} {w : SlidingWindow σ}

/-- The window has loaded `g`, and keeps it from `p` on at least. -/
structure SlidingWindow.Serves (g : Bytes) (oldLen chunk : ℕ) (w : SlidingWindow σ) (p : ℕ) : Prop where
  pos : 0 < chunk
  total : w.total = oldLen
  chunk : w.chunk = chunk
  buf : w.buf = g.drop w.physBase
  base : w.physBase ≤ p
  loaded : p ≤ g.length

theorem SlidingWindow.Serves.loaded_eq (h : w.Serves g oldLen chunk p) : w.physBase + w.buf.length = g.length := by
  have hbase := h.base
  have hloaded := h.loaded
  rw [h.buf, List.length_drop]
  omega

theorem SlidingWindow.Serves.slice_eq (h : w.Serves g oldLen chunk p) {q len : ℕ} (hq : w.physBase ≤ q) :
    slice w.buf (q - w.physBase) len = slice g q len := by
  unfold slice
  rw [h.buf, List.drop_drop, show w.physBase + (q - w.physBase) = q by omega]

theorem SlidingWindow.Serves.getD_eq (h : w.Serves g oldLen chunk p) {q : ℕ} (hq : w.physBase ≤ q) :
    w.buf.getD (q - w.physBase) 0 = g.getD q 0 := by
  rw [h.buf, List.getD_eq_getElem?_getD, List.getD_eq_getElem?_getD, List.getElem?_drop,
    show w.physBase + (q - w.physBase) = q by omega]

theorem SlidingWindow.advance_eq (hpos : 0 < w.chunk) (q : ℕ) :
    w.advance q = { w with buf := w.buf.drop (dropBelow w.chunk w.physBase q - w.physBase)
                           physBase := dropBelow w.chunk w.physBase q } := by
  unfold SlidingWindow.advance dropBelow
  by_cases h : w.physBase + w.chunk ≤ q
  · rw [if_pos (by omega), if_pos h]
    exact if_pos (by omega)
  · rw [if_neg h, Nat.sub_self, List.drop_zero]
    split
    · exact if_neg (by omega)
    · rfl

theorem dropBelow_le (chunk : ℕ) {base p : ℕ} (h : base ≤ p) : base ≤ dropBelow chunk base p ∧ dropBelow chunk base p ≤ p := by
  unfold dropBelow
  split <;> omega

theorem SlidingWindow.Serves.advance (h : w.Serves g oldLen chunk p) {q : ℕ} (hpq : p ≤ q) (hq : q ≤ g.length) :
    (w.advance q).Serves g oldLen chunk q ∧ (w.advance q).physBase = dropBelow chunk w.physBase q ∧
      (w.advance q).src = w.src ∧ (w.advance q).inBounds = w.inBounds ∧ (w.advance q).peak = w.peak := by
  have hbase := h.base
  have hdrop := dropBelow_le chunk (show w.physBase ≤ q by omega)
  rw [SlidingWindow.advance_eq (h.chunk ▸ h.pos), h.chunk]
  refine ⟨⟨h.pos, h.total, rfl, ?_, hdrop.2, hq⟩, rfl, rfl, rfl, rfl⟩
  dsimp only
  rw [h.buf, List.drop_drop]
  congr 1
  omega

/-- The window at the load of a move. -/
def SlidingWindow.follow (w : SlidingWindow σ) (m : Move) : SlidingWindow σ :=
  if m.jump then (w.advance m.start).advance m.stop else w.advance m.start

theorem SlidingWindow.Serves.follow {m : Move} (h : w.Serves g oldLen chunk m.start) (hm : m.start ≤ m.stop)
    (hstop : m.stop ≤ g.length) :
    (w.follow m).Serves g oldLen chunk m.stop ∧ (w.follow m).physBase = baseBehind chunk w.physBase m ∧
      (w.follow m).src = w.src ∧ (w.follow m).inBounds = w.inBounds ∧ (w.follow m).peak = w.peak := by
  obtain ⟨h1, hbase, hsrc, hin, hpeak⟩ := h.advance le_rfl h.loaded
  unfold SlidingWindow.follow baseBehind
  by_cases hj : m.jump = true
  · obtain ⟨h2, hbase', hsrc', hin', hpeak'⟩ := h1.advance hm hstop
    rw [if_pos hj, if_pos hj]
    exact ⟨h2, by rw [hbase', hbase], hsrc'.trans hsrc, hin'.trans hin, hpeak'.trans hpeak⟩
  · rw [if_neg hj, if_neg hj]
    exact ⟨⟨h1.pos, h1.total, h1.chunk, h1.buf, le_trans h1.base hm, hstop⟩, hbase, hsrc, hin, hpeak⟩

/-- The window behind an access that ends at `last`. -/
def SlidingWindow.reach (source : ByteSource σ) (w : SlidingWindow σ) (last : ℕ) : SlidingWindow σ :=
  { w.loadLoop source last with
    inBounds := w.inBounds && last ≤ w.physBase + (w.loadLoop source last).buf.length }

/-- The reads of the loading loop. -/
def SlidingWindow.reads (source : ByteSource σ) (w : SlidingWindow σ) (last : ℕ) : List (Read UInt8) × σ :=
  fill source.read w.chunk last w.src (w.physBase + w.buf.length)

theorem SlidingWindow.refill_eq (source : ByteSource σ) (last : ℕ) (w : SlidingWindow σ) :
    w.refill source last =
      let want := max w.chunk (last - (w.physBase + w.buf.length))
      let r := source.read w.src want
      (r.1, { w with buf := w.buf ++ r.1, src := r.2, peak := max w.peak (w.buf.length + want) }) := by
  have hwant : (if w.chunk > last - (w.physBase + w.buf.length) then w.chunk
      else last - (w.physBase + w.buf.length)) = max w.chunk (last - (w.physBase + w.buf.length)) := by
    rw [max_comm, max_def_lt]
  unfold SlidingWindow.refill
  dsimp only
  rw [hwant]

/-- A read that brings something is followed by the reads of the window behind it. -/
theorem SlidingWindow.reads_refill (source : ByteSource σ) {last : ℕ} {w : SlidingWindow σ}
    (hlt : w.physBase + w.buf.length < last) (hne : ¬ (w.refill source last).1.length = 0) :
    w.reads source last =
      (⟨w.physBase + w.buf.length, max w.chunk (last - (w.physBase + w.buf.length)), (w.refill source last).1⟩ ::
        ((w.refill source last).2.reads source last).1, ((w.refill source last).2.reads source last).2) := by
  rw [SlidingWindow.refill_eq] at hne ⊢
  unfold SlidingWindow.reads
  dsimp only at hne ⊢
  rw [fill, if_pos hlt]
  dsimp only
  rw [if_neg hne, List.length_append, Nat.add_assoc]

theorem SlidingWindow.loadLoop_reads (source : ByteSource σ) (last : ℕ) (w : SlidingWindow σ) :
    w.loadLoop source last = { w with
      buf := w.buf ++ brought (w.reads source last).1
      src := (w.reads source last).2
      peak := (w.loadLoop source last).peak } := by
  fun_induction SlidingWindow.loadLoop source last w with
  | case1 w hlt hempty =>
    rw [SlidingWindow.refill_eq] at hempty ⊢
    unfold SlidingWindow.reads
    rw [fill, if_pos hlt]
    dsimp only at hempty ⊢
    rw [if_pos hempty, brought_cons, brought_nil, List.append_nil]
  | case2 w hlt hne ih =>
    have hbuf : (w.refill source last).2.buf = w.buf ++ (w.refill source last).1 := rfl
    rw [ih, SlidingWindow.reads_refill source hlt hne, brought_cons, ← List.append_assoc, ← hbuf]
    rfl
  | case3 w hge =>
    unfold SlidingWindow.reads
    rw [fill, if_neg hge]
    dsimp only
    rw [brought_nil, List.append_nil]

/-- **One load**: what the source brings is behind what was loaded, and the access is inside it exactly
if every read brings something. -/
theorem SlidingWindow.Serves.reach (source : ByteSource σ) (h : w.Serves g oldLen chunk p) (last : ℕ) :
    let t := fill source.read chunk last w.src g.length
    (w.reach source last).Serves (g ++ brought t.1) oldLen chunk p ∧ (w.reach source last).physBase = w.physBase ∧
      (w.reach source last).src = t.2 ∧
      ((w.reach source last).inBounds = true ↔ w.inBounds = true ∧ ∀ r ∈ t.1, r.items ≠ []) := by
  intro t
  have hreads : w.reads source last = t := by
    unfold SlidingWindow.reads
    rw [h.chunk, h.loaded_eq]
  have hload := SlidingWindow.loadLoop_reads source last w
  rw [hreads] at hload
  have hbase := h.base
  have hloaded := h.loaded
  have hlen : w.physBase + (w.loadLoop source last).buf.length = g.length + (brought t.1).length := by
    have hbuf : (w.loadLoop source last).buf = w.buf ++ brought t.1 := by rw [hload]
    have heq := h.loaded_eq
    rw [hbuf, List.length_append]
    omega
  unfold SlidingWindow.reach
  rw [hlen, Bool.and_eq_true, decide_eq_true_iff]
  rw [hload]
  refine ⟨⟨h.pos, h.total, h.chunk, ?_, h.base, ?_⟩, rfl, rfl, and_congr_right fun _ => fill_reaches.symm⟩
  · dsimp only
    rw [h.buf, List.drop_append_of_le_length (by omega)]
  · rw [List.length_append]
    omega

/-- A read that finds few bytes makes the buffer at most a chunk and a block long, where what is asked for
does. `slack` is 1 where a read-ahead of 0 counts as a chunk of 1. -/
theorem SlidingWindow.loadLoop_peak {readAhead slack L : ℕ} (source : ByteSource σ) {last : ℕ} {w : SlidingWindow σ}
    (hchunk : w.chunk = readAhead + slack)
    (hlast : w.buf.length + slack ≤ L → last ≤ w.physBase + (readAhead + L)) :
    (w.loadLoop source last).peak ≤ readAhead + L ↔
      w.peak ≤ readAhead + L ∧ ∀ r ∈ (w.reads source last).1, r.loaded + slack ≤ w.physBase + L := by
  have hrefill : ∀ {w : SlidingWindow σ}, w.chunk = readAhead + slack →
      (w.buf.length + slack ≤ L → last ≤ w.physBase + (readAhead + L)) →
      ((w.refill source last).2.peak ≤ readAhead + L ↔
        w.peak ≤ readAhead + L ∧ w.physBase + w.buf.length + slack ≤ w.physBase + L) := by
    intro w hchunk hlast
    rw [SlidingWindow.refill_eq, hchunk]
    dsimp only
    rw [max_le_iff]
    omega
  fun_induction SlidingWindow.loadLoop source last w with
  | case1 w hlt hempty =>
    rw [hrefill hchunk hlast]
    unfold SlidingWindow.reads
    rw [SlidingWindow.refill_eq] at hempty
    rw [fill, if_pos hlt]
    dsimp only at hempty ⊢
    rw [if_pos hempty, List.forall_mem_singleton]
  | case2 w hlt hne ih =>
    -- the buffer only grows, so a read that finds few bytes comes after reads that did too
    have hgrown : (w.refill source last).2.buf.length = w.buf.length + (w.refill source last).1.length := by
      simp [SlidingWindow.refill]
    have hlast' : (w.refill source last).2.buf.length + slack ≤ L →
        last ≤ (w.refill source last).2.physBase + (readAhead + L) := by
      intro h
      exact hlast (by omega)
    refine (ih hchunk hlast').trans ?_
    rw [hrefill hchunk hlast, SlidingWindow.reads_refill source hlt hne, List.forall_mem_cons, and_assoc]
    rfl
  | case3 w hge =>
    unfold SlidingWindow.reads
    rw [fill, if_neg hge]
    exact (and_iff_left fun r hr => absurd hr List.not_mem_nil).symm

theorem SlidingWindow.Serves.reach_peak {readAhead slack L : ℕ} (source : ByteSource σ) (last : ℕ)
    (h : w.Serves g oldLen chunk p) (hchunk : chunk = readAhead + slack)
    (hlast : g.length + slack ≤ w.physBase + L → last ≤ w.physBase + (readAhead + L)) :
    (w.reach source last).peak ≤ readAhead + L ↔ w.peak ≤ readAhead + L ∧
      ∀ r ∈ (fill source.read chunk last w.src g.length).1, r.loaded + slack ≤ w.physBase + L := by
  have hloaded := h.loaded_eq
  have hpeak := SlidingWindow.loadLoop_peak (L := L) source (h.chunk.trans hchunk)
    (fun hroom => hlast (by omega))
  unfold SlidingWindow.reads at hpeak
  rw [h.chunk, hloaded] at hpeak
  exact hpeak

/-- The view of a block is one load. -/
theorem SlidingWindow.window_reach (source : ByteSource σ) (q len : ℕ) (hend : q + len ≤ w.total) (hq : w.physBase ≤ q) :
    (w.window source q len).2 = w.reach source (q + len) ∧
      (w.window source q len).1 = slice (w.reach source (q + len)).buf (q - w.physBase) len := by
  have hload := SlidingWindow.loadLoop_reads source (q + len) w
  have hbase : (w.loadLoop source (q + len)).physBase = w.physBase := by rw [hload]
  have hin : (w.loadLoop source (q + len)).inBounds = w.inBounds := by rw [hload]
  unfold SlidingWindow.window SlidingWindow.loadTo SlidingWindow.reach
  rw [if_neg (by omega)]
  dsimp only
  rw [hbase, hin, decide_eq_true hq, Bool.and_true]
  exact ⟨rfl, rfl⟩

theorem SlidingWindow.reach_loaded (source : ByteSource σ) (h : last ≤ w.physBase + w.buf.length) :
    w.reach source last = w := by
  have hload : w.loadLoop source last = w := by
    rw [SlidingWindow.loadLoop, if_neg (by omega)]
  unfold SlidingWindow.reach
  rw [hload, decide_eq_true h, Bool.and_true]

theorem SlidingWindow.byteAt_reach (source : ByteSource σ) (off : ℕ) (hend : off + 1 ≤ w.total) (hq : w.physBase ≤ off) :
    (w.byteAt source off).2 = w.reach source (off + 1) ∧
      (w.byteAt source off).1 = (w.reach source (off + 1)).buf.getD (off - w.physBase) 0 := by
  have hload := SlidingWindow.loadLoop_reads source (off + 1) w
  have hbase : (w.loadLoop source (off + 1)).physBase = w.physBase := by rw [hload]
  have hin : (w.loadLoop source (off + 1)).inBounds = w.inBounds := by rw [hload]
  unfold SlidingWindow.byteAt SlidingWindow.loadTo SlidingWindow.reach
  rw [if_neg (by omega)]
  dsimp only
  rw [hbase, hin, decide_eq_true hq, Bool.and_true]
  exact ⟨rfl, rfl⟩

end Window

/-! ### One turn of the scan -/

section Scan

variable {source : ByteSource σ} {strongHash : Bytes → Strong} {sig : SignatureSet} {onCopy : Bool} {csr : Csr}
  {oldLen chunk : ℕ} {opt : BuildOptions} {g : Bytes}

/-- Over a loaded block the candidates are looked at as in memory, and nothing is read. -/
theorem tryCandidatesStreaming_loaded {p : ℕ} (weak32 : UInt32) (es : List Entry) (strong : Option Strong)
    {st : StreamState σ} (hwin : st.win.Serves g oldLen chunk p) (hfits : p + sig.blockSize ≤ g.length)
    (htotal : p + sig.blockSize ≤ oldLen) :
    let r := tryCandidatesStreaming strongHash sig source onCopy p weak32 es strong st
    let r' := tryCandidates strongHash sig g p weak32 es strong st.log
    r.1.log = r'.1 ∧ r.1.win = st.win ∧ r.2 = r'.2 := by
  -- a view of the block finds it in the buffer
  have hview : st.win.window source p sig.blockSize = (slice g p sig.blockSize, st.win) := by
    obtain ⟨h2, h1⟩ := SlidingWindow.window_reach source p sig.blockSize (hwin.total ▸ htotal) hwin.base
    rw [SlidingWindow.reach_loaded source (hwin.loaded_eq ▸ hfits)] at h1 h2
    exact Prod.ext (h1.trans (hwin.slice_eq hwin.base)) h2
  induction es generalizing strong st with
  | nil => exact ⟨rfl, rfl, rfl⟩
  | cons e es ih =>
    simp only [tryCandidatesStreaming, tryCandidates]
    by_cases hweak : e.weak ≠ weak32
    · rw [if_pos hweak, if_pos hweak]
      exact ih strong hwin hview
    rw [if_neg hweak, if_neg hweak]
    by_cases hmatched : st.log.matched.getD e.blockIndex false = true
    · rw [if_pos hmatched, if_pos hmatched]
      exact @ih strong { st with log := { st.log with weakCandidateHits := st.log.weakCandidateHits + 1 } } hwin hview
    rw [if_neg hmatched, if_neg hmatched]
    have hlazy : lazyStrong strongHash sig source p strong
        { st with log := { st.log with weakCandidateHits := st.log.weakCandidateHits + 1 } } =
          (strong.getD (strongHash (slice g p sig.blockSize)),
            { st with log := if strong.isSome then { st.log with weakCandidateHits := st.log.weakCandidateHits + 1 }
              else { st.log with
                weakCandidateHits := st.log.weakCandidateHits + 1
                strongComputations := st.log.strongComputations + 1 } }) := by
      cases strong with
      | some h => rfl
      | none =>
        unfold lazyStrong
        dsimp only
        rw [hview]
        rfl
    rw [hlazy]
    dsimp only
    by_cases heq : strongEq sig.strongLen (strong.getD (strongHash (slice g p sig.blockSize)))
        (sig.blocks.getD e.blockIndex default).strong = true
    · rw [if_pos heq, if_pos heq]
      by_cases hcb : onCopy = true
      · rw [if_pos hcb, hview]
        exact ⟨rfl, rfl, rfl⟩
      · rw [if_neg hcb]
        exact ⟨rfl, rfl, rfl⟩
    · rw [if_neg heq, if_neg heq]
      exact @ih _ { st with log := _ } hwin hview

/-- The scan stands at `c`: its window has loaded `g` and holds the block at `c`, and its log records the
blocks taken. -/
structure Stands (sig : SignatureSet) (g : Bytes) (oldLen chunk : ℕ) (c : Cursor) (st : StreamState σ)
    (taken : List (ℕ × ℕ)) : Prop where
  win : st.win.Serves g oldLen chunk c.p
  fits : c.p + sig.blockSize ≤ g.length
  inside : c.p + sig.blockSize ≤ oldLen
  weak : c.w = weakInit (slice g c.p sig.blockSize)
  records : Records sig st.log taken
  matched : st.log.matchedBytes = taken.length * sig.blockSize

/-- The move of block matching over what is loaded. -/
def nextMove (strongHash : Bytes → Strong) (sig : SignatureSet) (g : Bytes) (p : ℕ) (taken : List (ℕ × ℕ)) :
    Move × List (ℕ × ℕ) :=
  move (windowHit strongHash sig g) (fullBlocks sig).reverse sig.blockSize p taken

/-- The candidates at the block the scan stands at. -/
theorem Stands.look (strongHash : Bytes → Strong) (source : ByteSource σ) (onCopy : Bool) (hcsr : Layout sig csr) {c : Cursor} {st : StreamState σ} {taken : List (ℕ × ℕ)}
    (h : Stands sig g oldLen chunk c st taken) :
    let r := tryCandidatesStreaming strongHash sig source onCopy c.p c.w.value (csr.candidates c.w.value) none
      { st with win := st.win.advance c.p }
    r.1.win = st.win.advance c.p ∧ r.1.log.matchedBytes = st.log.matchedBytes ∧
      ((r.2 = true ∧ ∃ i, nextMove strongHash sig g c.p taken = (⟨c.p, c.p + sig.blockSize, true⟩, (i, c.p) :: taken) ∧
          Records sig r.1.log ((i, c.p) :: taken)) ∨
        (r.2 = false ∧ nextMove strongHash sig g c.p taken = (⟨c.p, c.p + 1, false⟩, taken) ∧
          Records sig r.1.log taken)) := by
  intro r
  have hadv := (h.win.advance le_rfl h.win.loaded).1
  obtain ⟨hlog, hwin, hflag⟩ := @tryCandidatesStreaming_loaded σ source strongHash sig onCopy oldLen chunk g c.p c.w.value
    (csr.candidates c.w.value) none { st with win := st.win.advance c.p } hadv h.fits h.inside
  refine ⟨hwin, ?_, ?_⟩
  · show (tryCandidatesStreaming _ _ _ _ _ _ _ _ _).1.log.matchedBytes = _
    rw [hlog, tryCandidates_matchedBytes]
  · unfold nextMove move
    have hweak := congrArg RollingWeak.value h.weak
    by_cases hm : r.2 = true
    · have htry : (tryCandidates strongHash sig g c.p c.w.value (csr.candidates c.w.value) none st.log).2 = true := hflag ▸ hm
      obtain ⟨i, hi, hr⟩ := tryCandidates_hit hcsr h.records hweak htry
      rw [hi]
      exact .inl ⟨hm, i, rfl, hlog ▸ hr⟩
    · have htry : ¬ (tryCandidates strongHash sig g c.p c.w.value (csr.candidates c.w.value) none st.log).2 = true := hflag ▸ hm
      obtain ⟨hi, hr⟩ := tryCandidates_miss hcsr h.records hweak htry
      rw [hi]
      exact .inr ⟨Bool.not_eq_true _ ▸ hm, rfl, hlog ▸ hr⟩

/-- What is loaded once the move is made. -/
def loadedBy (source : ByteSource σ) (g : Bytes) (chunk : ℕ) (s : σ) (last : ℕ) : Bytes :=
  g ++ brought (fill source.read chunk last s g.length).1

/-- The jump past a block loads the block behind it. -/
theorem Stands.jump (source : ByteSource σ) {c : Cursor} {st : StreamState σ} {taken : List (ℕ × ℕ)} (h : Stands sig g oldLen chunk c st taken)
    (hend : c.p + sig.blockSize + sig.blockSize ≤ oldLen) :
    let v := ((st.win.advance c.p).advance (c.p + sig.blockSize)).window source (c.p + sig.blockSize) sig.blockSize
    let last := c.p + sig.blockSize + sig.blockSize
    v.2 = (st.win.follow ⟨c.p, c.p + sig.blockSize, true⟩).reach source last ∧
      v.1 = slice (loadedBy source g chunk st.win.src last) (c.p + sig.blockSize) sig.blockSize := by
  intro v last
  obtain ⟨hserves, -, hsrc, -, -⟩ := h.win.follow (m := ⟨c.p, c.p + sig.blockSize, true⟩) (Nat.le_add_right _ _) h.fits
  obtain ⟨hview, hbytes⟩ := SlidingWindow.window_reach source _ sig.blockSize (hserves.total ▸ hend) hserves.base
  obtain ⟨hreach, hbase, -, -⟩ := hserves.reach source last
  rw [hsrc] at hreach
  refine ⟨hview, hbytes.trans ?_⟩
  rw [← hbase]
  exact hreach.slice_eq hreach.base

/-- The roll by one byte loads the byte that comes in; the one that leaves is there. -/
theorem Stands.roll (source : ByteSource σ) {c : Cursor} {st : StreamState σ} {taken : List (ℕ × ℕ)} (h : Stands sig g oldLen chunk c st taken)
    (hL : 0 < sig.blockSize) (hend : c.p + 1 + sig.blockSize ≤ oldLen) :
    let o := (st.win.advance c.p).byteAt source c.p
    let i := o.2.byteAt source (c.p + sig.blockSize)
    let last := c.p + 1 + sig.blockSize
    i.2 = (st.win.follow ⟨c.p, c.p + 1, false⟩).reach source last ∧
      (i.2.inBounds = true → weakRoll c.w o.1 i.1 sig.blockSize =
        weakInit (slice (loadedBy source g chunk st.win.src last) (c.p + 1) sig.blockSize)) := by
  intro o i last
  have hlast : c.p + sig.blockSize + 1 = last := by omega
  have hfits := h.fits
  obtain ⟨hadv, -, hsrc, -, -⟩ := h.win.advance le_rfl h.win.loaded
  have hbase := hadv.base
  obtain ⟨ho, hout⟩ := SlidingWindow.byteAt_reach source c.p (w := st.win.advance c.p)
    (by rw [hadv.total]; omega) hbase
  rw [SlidingWindow.reach_loaded source (by rw [hadv.loaded_eq]; omega)] at ho hout
  rw [hadv.getD_eq hbase] at hout
  have ho' : o.2 = st.win.advance c.p := ho
  obtain ⟨hi, hin⟩ := SlidingWindow.byteAt_reach source (c.p + sig.blockSize) (w := st.win.advance c.p)
    (by rw [hadv.total]; omega) (by omega)
  obtain ⟨hreach, hbase', -, hbounds⟩ := hadv.reach source last
  rw [hlast] at hi hin
  rw [hsrc] at hreach hbounds
  rw [← hbase', hreach.getD_eq (by omega)] at hin
  have hi' : i.2 = (st.win.advance c.p).reach source last := by
    rw [← hi, ← ho']
  have hin' : i.1 = (loadedBy source g chunk st.win.src last).getD (c.p + sig.blockSize) 0 := by
    rw [← ho'] at hin
    exact hin
  refine ⟨hi'.trans (congrArg (fun w => SlidingWindow.reach source w last) (if_neg Bool.false_ne_true).symm), fun hinside => ?_⟩
  -- the block at `c` and the byte that leaves were loaded before
  have hpre : g <+: loadedBy source g chunk st.win.src last := List.prefix_append _ _
  have hlen : last ≤ (loadedBy source g chunk st.win.src last).length := by
    unfold loadedBy
    rw [List.length_append]
    exact fill_reaches.1 (hbounds.1 (hi' ▸ hinside)).2
  rw [hin', show o.1 = _ from hout, h.weak, slice_of_start hpre hfits, getD_of_start hpre (by omega)]
  exact weakRoll_slice hL (by omega)

/-- Inside the loaded bytes the scan stands at the block moved to. -/
theorem Stands.behind {c : Cursor} {st st' : StreamState σ} {taken taken' : List (ℕ × ℕ)} {m : Move} {w : RollingWeak}
    {k : ℕ} (h : Stands sig g oldLen chunk c st taken) (hstart : m.start = c.p) (hm : m.start ≤ m.stop)
    (hstop : m.stop ≤ g.length) (hend : m.stop + sig.blockSize ≤ oldLen)
    (hwin : st'.win = (st.win.follow m).reach source (m.stop + sig.blockSize)) (hin : st'.win.inBounds = true)
    (hweak : w = weakInit (slice (loadedBy source g chunk st.win.src (m.stop + sig.blockSize)) m.stop sig.blockSize))
    (hrecords : Records sig st'.log taken') (hmatched : st'.log.matchedBytes = taken'.length * sig.blockSize) :
    Stands sig (loadedBy source g chunk st.win.src (m.stop + sig.blockSize)) oldLen chunk ⟨m.stop, w, k⟩ st' taken' := by
  obtain ⟨hfollow, -, hsrc, -, -⟩ := (hstart ▸ h.win : st.win.Serves g oldLen chunk m.start).follow hm hstop
  obtain ⟨hserves, -, -, hbounds⟩ := hfollow.reach source (m.stop + sig.blockSize)
  rw [hsrc] at hserves hbounds
  refine ⟨hwin ▸ hserves, ?_, hend, hweak, hrecords, hmatched⟩
  have hreach := fill_reaches.1 (hbounds.1 (hwin ▸ hin)).2
  unfold loadedBy
  rw [List.length_append]
  exact hreach

/-- **One turn of the scan** is one move of block matching: beyond the file it ends; else the block moved
to is loaded, and the scan stops at the checkpoint or goes on from there. -/
theorem scanLoop_turn (source : ByteSource σ) (onCopy : Bool) (opt : BuildOptions) (hcsr : Layout sig csr)
    (hL : 0 < sig.blockSize) {c : Cursor} {st : StreamState σ}
    {taken : List (ℕ × ℕ)} (h : Stands sig g oldLen chunk c st taken) {m : Move × List (ℕ × ℕ)}
    (hm : nextMove strongHash sig g c.p taken = m) :
    let r := scanLoopStreaming strongHash sig csr oldLen source opt onCopy hL c st
    let w := (st.win.follow m.1).reach source (m.1.stop + sig.blockSize)
    (¬ m.1.stop + sig.blockSize ≤ oldLen ∧ r.1.win = st.win.advance c.p) ∨
    (m.1.stop + sig.blockSize ≤ oldLen ∧
      checkpoint sig oldLen opt c.nextEval m.2.length m.1.stop = none ∧ r.1.win = w) ∨
    (m.1.stop + sig.blockSize ≤ oldLen ∧ ∃ k st' weak,
      checkpoint sig oldLen opt c.nextEval m.2.length m.1.stop = some k ∧
      r = scanLoopStreaming strongHash sig csr oldLen source opt onCopy hL ⟨m.1.stop, weak, k⟩ st' ∧ st'.win = w ∧
      (st'.win.inBounds = true → Stands sig (loadedBy source g chunk st.win.src (m.1.stop + sig.blockSize)) oldLen chunk
        ⟨m.1.stop, weak, k⟩ st' m.2)) := by
  obtain ⟨hwin, hbytes, hcase⟩ := h.look strongHash source onCopy hcsr
  have hfits := h.fits
  intro r w
  have hr : r = scanLoopStreaming strongHash sig csr oldLen source opt onCopy hL c st := rfl
  clear_value r
  rw [scanLoopStreaming] at hr
  dsimp only at hr
  generalize tryCandidatesStreaming strongHash sig source onCopy c.p c.w.value (csr.candidates c.w.value) none
    { st with win := st.win.advance c.p } = t at hwin hbytes hcase hr
  rw [hm] at hcase
  rcases hcase with ⟨hflag, i, rfl, hrecords⟩ | ⟨hflag, rfl, hrecords⟩
  · -- a block is found: jump past it
    have hmatched : t.1.log.matchedBytes + sig.blockSize = ((i, c.p) :: taken).length * sig.blockSize := by
      rw [hbytes, h.matched, List.length_cons, Nat.succ_mul]
    rw [if_pos hflag, hmatched, hwin] at hr
    by_cases hend : c.p + sig.blockSize + sig.blockSize ≤ oldLen
    · obtain ⟨hview, hblock⟩ := h.jump source hend
      rw [if_neg (show ¬ c.p + sig.blockSize + sig.blockSize > oldLen by omega)] at hr
      refine .inr ?_
      unfold checkpoint
      by_cases hstop : stopHere sig oldLen opt (((i, c.p) :: taken).length * sig.blockSize) (c.p + sig.blockSize)
          c.nextEval = true
      · rw [if_pos hstop] at hr
        exact .inl ⟨hend, if_pos hstop, by rw [hr]; exact hview⟩
      · rw [if_neg hstop] at hr
        refine .inr ⟨hend, _, _, _, if_neg hstop, hr, hview, fun hin => ?_⟩
        exact h.behind rfl (Nat.le_add_right _ _) hfits hend hview hin (congrArg weakInit hblock)
          (hrecords.of_same ⟨rfl, rfl⟩) rfl
    · rw [if_pos (show c.p + sig.blockSize + sig.blockSize > oldLen by omega)] at hr
      exact .inl ⟨hend, by rw [hr]⟩
  · -- no block is found: roll by one byte
    have hoff : ¬ t.2 = true := by
      rw [hflag]
      decide
    rw [if_neg hoff, hwin, hbytes, h.matched] at hr
    by_cases hend : c.p + 1 + sig.blockSize ≤ oldLen
    · obtain ⟨hview, hblock⟩ := h.roll source hL hend
      rw [if_neg (show ¬ c.p + sig.blockSize ≥ oldLen by omega)] at hr
      refine .inr ?_
      unfold checkpoint
      by_cases hstop : stopHere sig oldLen opt (taken.length * sig.blockSize) (c.p + 1) c.nextEval = true
      · rw [if_pos hstop] at hr
        exact .inl ⟨hend, if_pos hstop, by rw [hr]; exact hview⟩
      · rw [if_neg hstop] at hr
        refine .inr ⟨hend, _, _, _, if_neg hstop, hr, hview, fun hin => ?_⟩
        exact h.behind rfl (Nat.le_succ _) (by dsimp only; omega) hend hview hin (hblock hin)
          (hrecords.of_same ⟨rfl, rfl⟩) (hbytes.trans h.matched)
    · rw [if_pos (show c.p + sig.blockSize ≥ oldLen by omega)] at hr
      exact .inl ⟨hend, by rw [hr]; exact hwin⟩

/-! ### Whole scans -/

/-- The move depends on the block at `p` only. -/
theorem nextMove_of_start {f : Bytes} (hpre : g <+: f) {p : ℕ} (hfits : p + sig.blockSize ≤ g.length)
    (taken : List (ℕ × ℕ)) : nextMove strongHash sig f p taken = nextMove strongHash sig g p taken := by
  refine move_congr ?_ taken
  funext i
  unfold windowHit
  rw [slice_of_start hpre hfits]

theorem nextMove_cases (strongHash : Bytes → Strong) (sig : SignatureSet) (g : Bytes) (p : ℕ) (taken : List (ℕ × ℕ)) :
    (nextMove strongHash sig g p taken).1 = ⟨p, p + sig.blockSize, true⟩ ∨
      (nextMove strongHash sig g p taken).1 = ⟨p, p + 1, false⟩ := by
  unfold nextMove move
  split
  · exact .inl rfl
  · exact .inr rfl

/-- A move goes forward, and stays inside what is loaded. -/
theorem Stands.goes {c : Cursor} {st : StreamState σ} {taken : List (ℕ × ℕ)} (h : Stands sig g oldLen chunk c st taken)
    (hL : 0 < sig.blockSize) (strongHash : Bytes → Strong) :
    (nextMove strongHash sig g c.p taken).1.start = c.p ∧ c.p < (nextMove strongHash sig g c.p taken).1.stop ∧
      (nextMove strongHash sig g c.p taken).1.stop ≤ g.length := by
  have hfits := h.fits
  rcases nextMove_cases strongHash sig g c.p taken with hm | hm <;> rw [hm] <;> exact ⟨rfl, by dsimp only; omega, by dsimp only; omega⟩

theorem dropBelow_near {base p : ℕ} (hpos : 0 < chunk) : p < dropBelow chunk base p + chunk := by
  unfold dropBelow
  split <;> omega

/-- The end of the block moved to is at most a chunk and a block beyond the bytes kept, where there is room
for a read at all. -/
theorem Stands.load_near {c : Cursor} {st : StreamState σ} {taken : List (ℕ × ℕ)} {readAhead slack : ℕ}
    (h : Stands sig g oldLen chunk c st taken) (hchunk : chunk = readAhead + slack) (hslack : slack ≤ 1) :
    let m := (nextMove strongHash sig g c.p taken).1
    let base := baseBehind chunk st.win.physBase m
    g.length + slack ≤ base + sig.blockSize → m.stop + sig.blockSize ≤ base + (readAhead + sig.blockSize) := by
  intro m base hroom
  have hfits := h.fits
  have hbase := h.win.base
  have hdrop := dropBelow_le chunk hbase
  have hnear := @dropBelow_near chunk st.win.physBase c.p h.win.pos
  rcases nextMove_cases strongHash sig g c.p taken with hm | hm
  · have hb : base = dropBelow chunk (dropBelow chunk st.win.physBase c.p) (c.p + sig.blockSize) := by
      show baseBehind chunk _ (nextMove strongHash sig g c.p taken).1 = _
      rw [hm]
      exact if_pos rfl
    have hnear' := @dropBelow_near chunk (dropBelow chunk st.win.physBase c.p) (c.p + sig.blockSize) h.win.pos
    have hstop : m.stop = c.p + sig.blockSize := congrArg Move.stop hm
    omega
  · have hb : base = dropBelow chunk st.win.physBase c.p := by
      show baseBehind chunk _ (nextMove strongHash sig g c.p taken).1 = _
      rw [hm]
      exact if_neg Bool.false_ne_true
    have hstop : m.stop = c.p + 1 := congrArg Move.stop hm
    omega

section Along

variable {f : Bytes} {hL : 0 < sig.blockSize} {nextEval p : ℕ} {taken : List (ℕ × ℕ)} {m : Move × List (ℕ × ℕ)}
  (hm : nextMove strongHash sig f p taken = m)
include hm

theorem movesAlong_end (h : ¬ m.1.stop + sig.blockSize ≤ oldLen) :
    movesAlong strongHash sig f oldLen opt hL nextEval p taken = [] := by
  subst hm
  exact moves_end h

theorem movesAlong_stop (h : m.1.stop + sig.blockSize ≤ oldLen)
    (hk : checkpoint sig oldLen opt nextEval m.2.length m.1.stop = none) :
    movesAlong strongHash sig f oldLen opt hL nextEval p taken = [m.1] := by
  subst hm
  exact moves_stop h hk

theorem movesAlong_go {k : ℕ} (h : m.1.stop + sig.blockSize ≤ oldLen)
    (hk : checkpoint sig oldLen opt nextEval m.2.length m.1.stop = some k) :
    movesAlong strongHash sig f oldLen opt hL nextEval p taken =
      m.1 :: movesAlong strongHash sig f oldLen opt hL k m.1.stop m.2 := by
  subst hm
  exact moves_go h hk

end Along

/-- The reads of a scan from `c` on, over a content `f`. -/
def readsFrom (strongHash : Bytes → Strong) (sig : SignatureSet) (source : ByteSource σ) (f g : Bytes)
    (oldLen chunk : ℕ) (opt : BuildOptions) (hL : 0 < sig.blockSize) (c : Cursor) (st : StreamState σ)
    (taken : List (ℕ × ℕ)) : List (ℕ × Read UInt8) :=
  fills source.read chunk (loadsOf chunk sig.blockSize st.win.physBase
    (movesAlong strongHash sig f oldLen opt hL c.nextEval c.p taken)) st.win.src g.length

/-- The reads of a scan are those of its next load and those of the scan behind it. -/
theorem Stands.forall_reads (source : ByteSource σ) (opt : BuildOptions) (hL : 0 < sig.blockSize) {c : Cursor} {st : StreamState σ} {taken : List (ℕ × ℕ)}
    (h : Stands sig g oldLen chunk c st taken) {f : Bytes} (hpre : g <+: f) {m : Move × List (ℕ × ℕ)}
    (hm : nextMove strongHash sig g c.p taken = m) (P : ℕ × Read UInt8 → Prop) :
    (¬ m.1.stop + sig.blockSize ≤ oldLen → readsFrom strongHash sig source f g oldLen chunk opt hL c st taken = []) ∧
    (m.1.stop + sig.blockSize ≤ oldLen →
      checkpoint sig oldLen opt c.nextEval m.2.length m.1.stop = none →
      ((∀ x ∈ readsFrom strongHash sig source f g oldLen chunk opt hL c st taken, P x) ↔
        ∀ r ∈ (fill source.read chunk (m.1.stop + sig.blockSize) st.win.src g.length).1,
          P (baseBehind chunk st.win.physBase m.1, r))) ∧
    (m.1.stop + sig.blockSize ≤ oldLen → ∀ k st' weak,
      checkpoint sig oldLen opt c.nextEval m.2.length m.1.stop = some k →
      st'.win = (st.win.follow m.1).reach source (m.1.stop + sig.blockSize) →
      ((∀ x ∈ readsFrom strongHash sig source f g oldLen chunk opt hL c st taken, P x) ↔
        (∀ r ∈ (fill source.read chunk (m.1.stop + sig.blockSize) st.win.src g.length).1,
          P (baseBehind chunk st.win.physBase m.1, r)) ∧
        ∀ x ∈ readsFrom strongHash sig source f (loadedBy source g chunk st.win.src (m.1.stop + sig.blockSize)) oldLen chunk
          opt hL ⟨m.1.stop, weak, k⟩ st' m.2, P x)) := by
  obtain ⟨hstart, hlt, hstop⟩ := h.goes hL strongHash
  have hmf : nextMove strongHash sig f c.p taken = m := (nextMove_of_start hpre h.fits taken).trans hm
  rw [hm] at hstart hlt hstop
  unfold readsFrom
  refine ⟨fun hend => ?_, fun hend hk => ?_, fun hend k st' weak hk hwin => ?_⟩
  · rw [movesAlong_end hmf hend]
    rfl
  · rw [movesAlong_stop hmf hend hk]
    exact forall_fills_cons.trans (and_iff_left fun x hx => absurd hx List.not_mem_nil)
  · obtain ⟨hfollow, hbase, hsrc, -, -⟩ := (hstart ▸ h.win : st.win.Serves g oldLen chunk m.1.start).follow (by omega) hstop
    obtain ⟨-, hbase', hsrc', -⟩ := hfollow.reach source (m.1.stop + sig.blockSize)
    rw [movesAlong_go hmf hend hk, hwin, hbase', hsrc', hbase, hsrc]
    unfold loadedBy
    rw [List.length_append]
    exact forall_fills_cons

/-- **A scan whose reads are served** stays inside the loaded bytes, and its window stays within a chunk and
a block exactly if every read finds few enough bytes behind where they begin. -/
theorem scanLoop_served (onCopy : Bool) (hcsr : Layout sig csr) {hL : 0 < sig.blockSize} {readAhead slack : ℕ}
    (hchunk : chunk = readAhead + slack) (hslack : slack ≤ 1) {f : Bytes} {c : Cursor} {st : StreamState σ}
    {taken : List (ℕ × ℕ)} (h : Stands sig g oldLen chunk c st taken) (hpre : g <+: f) (hin : st.win.inBounds = true)
    (hs : ∀ x ∈ readsFrom strongHash sig source f g oldLen chunk opt hL c st taken,
      x.2.items ≠ [] ∧ x.2.items <+: f.drop x.2.loaded) :
    let r := scanLoopStreaming strongHash sig csr oldLen source opt onCopy hL c st
    r.1.win.inBounds = true ∧ (r.1.win.peak ≤ readAhead + sig.blockSize ↔ st.win.peak ≤ readAhead + sig.blockSize ∧
      ∀ x ∈ readsFrom strongHash sig source f g oldLen chunk opt hL c st taken, x.2.loaded + slack ≤ x.1 + sig.blockSize) := by
  induction hn : oldLen - c.p using Nat.strong_induction_on generalizing c st taken g with
  | _ n ih =>
    obtain ⟨m, hm⟩ : ∃ m, nextMove strongHash sig g c.p taken = m := ⟨_, rfl⟩
    obtain ⟨hstart, hlt, hstop⟩ := h.goes hL strongHash
    have hnear := @Stands.load_near σ strongHash sig oldLen chunk g c st taken readAhead slack h hchunk hslack
    dsimp only at hnear
    rw [hm] at hstart hlt hstop hnear
    obtain ⟨hnone, hlast, hmore⟩ := h.forall_reads source opt hL hpre hm
      (fun x => x.2.items ≠ [] ∧ x.2.items <+: f.drop x.2.loaded)
    obtain ⟨-, hlast', hmore'⟩ := h.forall_reads source opt hL hpre hm
      (fun x => x.2.loaded + slack ≤ x.1 + sig.blockSize)
    obtain ⟨hfollow, hbase, hsrc, hkeep, hpeak⟩ :=
      (hstart ▸ h.win : st.win.Serves g oldLen chunk m.1.start).follow (by omega) hstop
    have hinside := (hfollow.reach source (m.1.stop + sig.blockSize)).2.2.2
    have hgrown := hfollow.reach_peak (L := sig.blockSize) source (m.1.stop + sig.blockSize) hchunk (fun hroom => hbase ▸ hnear (hbase ▸ hroom))
    rw [hbase, hpeak, hsrc] at hgrown
    rw [hsrc, hkeep] at hinside
    -- the load of the move is served
    have hload : (∀ r ∈ (fill source.read chunk (m.1.stop + sig.blockSize) st.win.src g.length).1,
        r.items ≠ [] ∧ r.items <+: f.drop r.loaded) →
          ((st.win.follow m.1).reach source (m.1.stop + sig.blockSize)).inBounds = true ∧
            loadedBy source g chunk st.win.src (m.1.stop + sig.blockSize) <+: f := by
      intro hserved
      obtain ⟨h1, h2⟩ := (fill_served hpre rfl).1 hserved
      exact ⟨hinside.2 ⟨hin, h1⟩, h2⟩
    rcases scanLoop_turn source onCopy opt hcsr hL h hm with
      ⟨hend, hwin⟩ | ⟨hend, hk, hwin⟩ | ⟨hend, k, st', weak, hk, hr, hwin, hstands⟩
    · obtain ⟨-, -, -, hkeep', hpeak'⟩ := h.win.advance le_rfl h.win.loaded
      intro r
      rw [show r.1.win = _ from hwin, hkeep', hpeak', hnone hend]
      exact ⟨hin, (and_iff_left fun x hx => absurd hx List.not_mem_nil).symm⟩
    · intro r
      rw [show r.1.win = _ from hwin, hlast' hend hk]
      exact ⟨(hload ((hlast hend hk).1 hs)).1, hgrown⟩
    · obtain ⟨hfirst, hrest⟩ := (hmore hend k st' weak hk hwin).1 hs
      obtain ⟨hin', hpre'⟩ := hload hfirst
      have hnext := ih (oldLen - m.1.stop) (by omega) (hstands (hwin ▸ hin')) hpre' (hwin ▸ hin') hrest rfl
      intro r
      rw [show r = _ from hr, hmore' hend k st' weak hk hwin, ← and_assoc, ← hgrown, ← hwin]
      exact hnext

end Scan

/-! ### The planner -/

/-- The window at the end of the planner's run. -/
def streamingWindow (strongHash : Bytes → Strong) (sig : SignatureSet) (oldLen : ℕ) (source : ByteSource σ) (s : σ)
    (opt : StreamingPlanOptions) (onCopy : Bool) : SlidingWindow σ :=
  if h : sig.blockCount = 0 ∨ sig.blockSize = 0 then SlidingWindow.init oldLen s opt.readAheadChunkBytes
  else (scanStreaming strongHash sig oldLen source s opt onCopy (SignatureSet.blockSize_pos h)).1.win

section Planner

variable {source : ByteSource σ} {strongHash : Bytes → Strong} {sig : SignatureSet} {onCopy : Bool} {oldLen : ℕ}
  {opt : StreamingPlanOptions} {s : σ}

theorem StreamingPlanOptions.chunk_pos (opt : StreamingPlanOptions) : 0 < opt.chunk := by
  unfold StreamingPlanOptions.chunk
  split <;> omega

theorem SlidingWindow.serves_init (oldLen : ℕ) (s : σ) (opt : StreamingPlanOptions) :
    (SlidingWindow.init oldLen s opt.readAheadChunkBytes).Serves [] oldLen opt.chunk 0 :=
  ⟨opt.chunk_pos, rfl, rfl, rfl, le_rfl, le_rfl⟩

/-- The scan behind the load of the first block. -/
def firstState (sig : SignatureSet) (oldLen : ℕ) (source : ByteSource σ) (s : σ) (opt : StreamingPlanOptions) :
    StreamState σ :=
  { log := ScanLog.init sig.blockCount
    win := (SlidingWindow.init oldLen s opt.readAheadChunkBytes).reach source sig.blockSize }

theorem stands_first (hle : sig.blockSize ≤ oldLen) (hin : (firstState sig oldLen source s opt).win.inBounds = true) :
    ∀ k, Stands sig (loadedBy source [] opt.chunk s sig.blockSize) oldLen opt.chunk
      ⟨0, weakInit (slice (loadedBy source [] opt.chunk s sig.blockSize) 0 sig.blockSize), k⟩
      (firstState sig oldLen source s opt) [] := by
  obtain ⟨hserves, -, -, hbounds⟩ := (SlidingWindow.serves_init oldLen s opt).reach source sig.blockSize
  have hreach : sig.blockSize ≤ ([] : Bytes).length + (brought (fill source.read opt.chunk sig.blockSize s
      ([] : Bytes).length).1).length := fill_reaches.1 (hbounds.1 hin).2
  intro k
  refine ⟨hserves, ?_, by dsimp only; omega, rfl, ⟨by simp [firstState, ScanLog.init], fun i => ?_⟩, ?_⟩
  · unfold loadedBy
    rw [List.length_append]
    dsimp only
    omega
  · simp [firstState, ScanLog.init, Array.getD]
  · rw [List.length_nil, Nat.zero_mul]
    rfl

theorem streamingWindow_scan (h : ¬ (sig.blockCount = 0 ∨ sig.blockSize = 0)) (hle : sig.blockSize ≤ oldLen) :
    streamingWindow strongHash sig oldLen source s opt onCopy =
      (scanLoopStreaming strongHash sig (buildCsr sig) oldLen source opt.build onCopy (SignatureSet.blockSize_pos h)
        ⟨0, weakInit (slice (loadedBy source [] opt.chunk s sig.blockSize) 0 sig.blockSize), prefixBytes sig oldLen opt.build⟩
        (firstState sig oldLen source s opt)).1.win := by
  have hinit := SlidingWindow.serves_init oldLen s opt
  obtain ⟨hview, hbytes⟩ := SlidingWindow.window_reach source 0 sig.blockSize
    (by rw [hinit.total]; omega) hinit.base
  obtain ⟨hserves, hbase, -, -⟩ := hinit.reach source (0 + sig.blockSize)
  rw [← hbase, hserves.slice_eq hserves.base] at hbytes
  rw [Nat.zero_add] at hview hbytes
  unfold streamingWindow scanStreaming
  rw [dif_neg h]
  dsimp only
  rw [if_pos hle, hview, hbytes]
  rfl

/-- The first load, and the reads of the scan behind it. -/
theorem forall_neededLoads (h : ¬ (sig.blockCount = 0 ∨ sig.blockSize = 0)) (hle : sig.blockSize ≤ oldLen) (f : Bytes)
    (P : ℕ × Read UInt8 → Prop) :
    (∀ x ∈ fills source.read opt.chunk (neededLoads strongHash sig f oldLen opt) s 0, P x) ↔
      (∀ r ∈ (fill source.read opt.chunk sig.blockSize s 0).1, P (0, r)) ∧
        ∀ x ∈ readsFrom strongHash sig source f (loadedBy source [] opt.chunk s sig.blockSize) oldLen opt.chunk opt.build
          (SignatureSet.blockSize_pos h)
          ⟨0, weakInit (slice (loadedBy source [] opt.chunk s sig.blockSize) 0 sig.blockSize), prefixBytes sig oldLen opt.build⟩
          (firstState sig oldLen source s opt) [], P x := by
  obtain ⟨-, hbase, hsrc, -⟩ := (SlidingWindow.serves_init oldLen s opt).reach source sig.blockSize
  unfold neededLoads readsFrom firstState
  rw [dif_neg h, if_neg (by omega), hbase, hsrc]
  unfold loadedBy
  rw [List.nil_append, ← Nat.zero_add (brought _).length]
  exact forall_fills_cons

theorem neededLoads_none {f : Bytes} (h : sig.blockCount = 0 ∨ sig.blockSize = 0) :
    neededLoads strongHash sig f oldLen opt = [] := by
  unfold neededLoads
  rw [dif_pos h]

theorem neededLoads_short {f : Bytes} (h : oldLen < sig.blockSize) : neededLoads strongHash sig f oldLen opt = [] := by
  unfold neededLoads
  split
  · rfl
  · rfl

/-- A run that scans nothing. -/
theorem streamingWindow_none (h : (sig.blockCount = 0 ∨ sig.blockSize = 0) ∨ oldLen < sig.blockSize) :
    streamingWindow strongHash sig oldLen source s opt onCopy = SlidingWindow.init oldLen s opt.readAheadChunkBytes ∧
      ∀ f, neededLoads strongHash sig f oldLen opt = [] := by
  unfold streamingWindow
  rcases h with h | h
  · rw [dif_pos h]
    exact ⟨rfl, fun f => neededLoads_none h⟩
  · refine ⟨?_, fun f => neededLoads_short h⟩
    split
    · rfl
    · unfold scanStreaming
      dsimp only
      rw [if_neg (by omega)]

/-- What a read-ahead of 0 adds to the chunk. -/
def StreamingPlanOptions.slack (opt : StreamingPlanOptions) : ℕ := if opt.readAheadChunkBytes = 0 then 1 else 0

theorem StreamingPlanOptions.chunk_eq (opt : StreamingPlanOptions) :
    opt.chunk = opt.readAheadChunkBytes + opt.slack ∧ opt.slack ≤ 1 := by
  unfold StreamingPlanOptions.chunk StreamingPlanOptions.slack
  split <;> omega

/-- **A run whose reads are served.** -/
theorem streamingWindow_served {f : Bytes}
    (hs : ∀ x ∈ fills source.read opt.chunk (neededLoads strongHash sig f oldLen opt) s 0,
      x.2.items ≠ [] ∧ x.2.items <+: f.drop x.2.loaded) :
    (streamingWindow strongHash sig oldLen source s opt onCopy).inBounds = true ∧
      ((streamingWindow strongHash sig oldLen source s opt onCopy).peak ≤ opt.readAheadChunkBytes + sig.blockSize ↔
        ∀ x ∈ fills source.read opt.chunk (neededLoads strongHash sig f oldLen opt) s 0,
          x.2.loaded + opt.slack ≤ x.1 + sig.blockSize) := by
  by_cases hnone : (sig.blockCount = 0 ∨ sig.blockSize = 0) ∨ oldLen < sig.blockSize
  · obtain ⟨hwin, hloads⟩ := @streamingWindow_none σ source strongHash sig onCopy oldLen opt s hnone
    rw [hwin, hloads f]
    exact ⟨rfl, iff_of_true (Nat.zero_le _) (fun x hx => absurd hx List.not_mem_nil)⟩
  obtain ⟨h, hshort⟩ := not_or.1 hnone
  have hle : sig.blockSize ≤ oldLen := by omega
  obtain ⟨hchunk, hslack⟩ := opt.chunk_eq
  have hinit := SlidingWindow.serves_init oldLen s opt
  obtain ⟨-, -, -, hbounds⟩ := hinit.reach source sig.blockSize
  have hpeak := hinit.reach_peak (L := sig.blockSize) source sig.blockSize hchunk
    (fun _ => by show _ ≤ 0 + _; omega)
  obtain ⟨hfirst, hrest⟩ := (forall_neededLoads h hle f _).1 hs
  obtain ⟨hne, hpre⟩ := (fill_served (List.nil_prefix) rfl).1 hfirst
  have hin : (firstState sig oldLen source s opt).win.inBounds = true := hbounds.2 ⟨rfl, hne⟩
  have hscan := scanLoop_served onCopy (candidates_eq sig) hchunk hslack (stands_first hle hin _) hpre hin hrest
  rw [streamingWindow_scan h hle, forall_neededLoads h hle]
  refine ⟨hscan.1, hscan.2.trans (and_congr_left fun _ => ?_)⟩
  exact hpeak.trans (and_iff_right (Nat.zero_le _))

end Planner

end FastClone.Delta
