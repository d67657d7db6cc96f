import Mathlib.Data.List.Perm.Basic
import Mathlib.Data.List.NodupEquivFin
import FastClone.Spec.DeltaStream
import FastClone.Proof.DeltaPlan

/-!
# The streaming planner equals the in-memory planner

`SlidingWindow.Holds` says what the window holds at every point of the scan: its buffer
followed by what the source still has to deliver is the old file from `physBase` on.
Under it every view and every byte served is the old file's own (`window_spec`,
`byteAt_spec`), so the two scans run in lockstep (`scanLoopStreaming_spec`).

`buildPlanStreaming_eq`: **same plan in every field, and `onCopy` is called exactly once
for each copy, with its old bytes.**
-/

namespace FastClone.Delta

variable {σ : Type}

/-- The source delivers `remaining s`, in order, in non-empty pieces. -/
def ByteSource.Delivers (source : ByteSource σ) (remaining : σ → Bytes) : Prop :=
  ∀ s n, remaining s = (source.read s n).1 ++ remaining (source.read s n).2 ∧
    (0 < n → remaining s ≠ [] → (source.read s n).1 ≠ [])

/-- The window serves the bytes `old` for a cursor at `p`; they may end before the declared
length. -/
structure SlidingWindow.Holds (old : Bytes) (remaining : σ → Bytes) (w : SlidingWindow σ) (p : ℕ) :
    Prop where
  total : old.length ≤ w.total
  chunk : 0 < w.chunk
  base : w.physBase ≤ p
  loaded : p ≤ w.physBase + w.buf.length
  stream : w.buf ++ remaining w.src = old.drop w.physBase

/-- Two windows at the same base over the same file; the second has loaded at least as much. -/
structure SlidingWindow.Extends (old : Bytes) (remaining : σ → Bytes) (w w' : SlidingWindow σ) : Prop where
  total : w'.total = w.total
  chunk : w'.chunk = w.chunk
  base : w'.physBase = w.physBase
  grown : w.buf.length ≤ w'.buf.length
  stream : w'.buf ++ remaining w'.src = old.drop w'.physBase

section Window

variable {source : ByteSource σ} {remaining : σ → Bytes} {old : Bytes} {w : SlidingWindow σ} {p : ℕ}

theorem SlidingWindow.Holds.extends {w' : SlidingWindow σ} (h : w.Holds old remaining p)
    (he : w.Extends old remaining w') : w'.Holds old remaining p := by
  have h1 := he.grown
  have h2 := h.base
  have h3 := h.loaded
  have h4 := he.base
  exact ⟨he.total ▸ h.total, he.chunk ▸ h.chunk, by omega, by omega, he.stream⟩

/-- The loading loop reaches `last` whenever the file is that long. -/
theorem SlidingWindow.loadLoop_spec (hd : source.Delivers remaining) {last : ℕ} (hlast : last ≤ old.length)
    (hstream : w.buf ++ remaining w.src = old.drop w.physBase) (hchunk : 0 < w.chunk) :
    w.Extends old remaining (w.loadLoop source last) ∧
      last ≤ (w.loadLoop source last).physBase + (w.loadLoop source last).buf.length := by
  fun_induction SlidingWindow.loadLoop source last w with
  | case1 w hlt hempty =>
    -- the source has bytes left, so the read was not empty
    exfalso
    have hlen := congrArg List.length hstream
    rw [List.length_append, List.length_drop] at hlen
    have hrem : remaining w.src ≠ [] := by
      intro h
      rw [h, List.length_nil] at hlen
      omega
    have hwant : 0 < (if w.chunk > last - (w.physBase + w.buf.length) then w.chunk
        else last - (w.physBase + w.buf.length)) := by
      split <;> omega
    exact (hd w.src _).2 hwant hrem (List.eq_nil_of_length_eq_zero hempty)
  | case2 w hlt hne ih =>
    have hs : (w.refill source last).2.buf ++ remaining (w.refill source last).2.src =
        old.drop (w.refill source last).2.physBase := by
      change w.buf ++ (source.read w.src _).1 ++ remaining (source.read w.src _).2 = old.drop w.physBase
      rw [List.append_assoc, ← (hd w.src _).1, hstream]
    obtain ⟨he, hreach⟩ := ih hs hchunk
    have hgrown : w.buf.length ≤ (w.refill source last).2.buf.length := by
      simp [SlidingWindow.refill]
    exact ⟨⟨he.total, he.chunk, he.base, le_trans hgrown he.grown, he.stream⟩, hreach⟩
  | case3 w hge => exact ⟨⟨rfl, rfl, rfl, le_refl _, hstream⟩, by omega⟩

theorem SlidingWindow.loadTo_spec (hd : source.Delivers remaining) (h : w.Holds old remaining p) {last : ℕ}
    (hlast : last ≤ old.length) :
    w.Extends old remaining (w.loadTo source last) ∧
      last ≤ (w.loadTo source last).physBase + (w.loadTo source last).buf.length := by
  have htotal := h.total
  unfold SlidingWindow.loadTo
  rw [if_neg (by omega)]
  exact SlidingWindow.loadLoop_spec hd hlast h.stream h.chunk

/-- What is loaded is the old file's own bytes. -/
theorem slice_buf {len : ℕ} {rest : Bytes} (hstream : w.buf ++ rest = old.drop w.physBase)
    (hbase : w.physBase ≤ p) (hend : p + len ≤ w.physBase + w.buf.length) :
    slice w.buf (p - w.physBase) len = slice old p len := by
  have hdrop : old.drop p = (w.buf ++ rest).drop (p - w.physBase) := by
    rw [hstream, List.drop_drop]
    congr 1
    omega
  unfold slice
  rw [hdrop, List.drop_append_of_le_length (by omega), List.take_append_of_le_length]
  rw [List.length_drop]
  omega

theorem SlidingWindow.window_spec (hd : source.Delivers remaining) (h : w.Holds old remaining p) {q len : ℕ}
    (hq : p ≤ q) (hend : q + len ≤ old.length) :
    (w.window source q len).1 = slice old q len ∧
      (w.window source q len).2.Holds old remaining p ∧
      q + len ≤ (w.window source q len).2.physBase + (w.window source q len).2.buf.length := by
  obtain ⟨he, hreach⟩ := SlidingWindow.loadTo_spec hd h hend
  have hh := h.extends he
  have hbase := hh.base
  exact ⟨slice_buf he.stream (by omega) hreach, ⟨hh.total, hh.chunk, hh.base, hh.loaded, hh.stream⟩, hreach⟩

theorem SlidingWindow.byteAt_spec (hd : source.Delivers remaining) (h : w.Holds old remaining p) {off : ℕ}
    (hoff : p ≤ off) (hend : off < old.length) :
    (w.byteAt source off).1 = old.getD off 0 ∧ (w.byteAt source off).2.Holds old remaining p ∧
      off < (w.byteAt source off).2.physBase + (w.byteAt source off).2.buf.length := by
  obtain ⟨he, hreach⟩ := SlidingWindow.loadTo_spec hd h (show off + 1 ≤ old.length from hend)
  have hh := h.extends he
  have hbase := hh.base
  refine ⟨?_, ⟨hh.total, hh.chunk, hh.base, hh.loaded, hh.stream⟩, hreach⟩
  have hget := congrArg (fun X => X[off - (w.loadTo source (off + 1)).physBase]?) he.stream
  simp only [List.getElem?_drop] at hget
  rw [List.getElem?_append_left (by omega)] at hget
  change (w.loadTo source (off + 1)).buf.getD _ 0 = _
  rw [List.getD_eq_getElem?_getD, List.getD_eq_getElem?_getD, hget]
  congr 3
  omega

/-- Advancing the cursor over loaded bytes. -/
theorem SlidingWindow.advance_spec (h : w.Holds old remaining p) {q : ℕ} (hq : p ≤ q)
    (hloaded : q ≤ w.physBase + w.buf.length) : (w.advance q).Holds old remaining q := by
  have hbase := h.base
  have hstay : w.Holds old remaining q := ⟨h.total, h.chunk, by omega, hloaded, h.stream⟩
  unfold SlidingWindow.advance
  split
  · dsimp only
    split
    · refine ⟨h.total, h.chunk, le_refl _, by simp, ?_⟩
      dsimp only
      rw [← List.drop_append_of_le_length (by omega), h.stream, List.drop_drop]
      congr 1
      omega
    · exact hstay
  · exact hstay

end Window

section Lockstep

variable {source : ByteSource σ} {remaining : σ → Bytes} {old : Bytes} {strongHash : Bytes → Strong}
  {sig : SignatureSet} {opt : BuildOptions} {onCopy : Bool}

/-- The capture of a block matched with the old window at `p`. -/
def captureAt (sig : SignatureSet) (old : Bytes) (p i : ℕ) : Captured :=
  ⟨p, i * sig.blockSize, sig.blockSize, slice old p sig.blockSize⟩

theorem lazyStrong_spec (hd : source.Delivers remaining) {p : ℕ} (hp : p + sig.blockSize ≤ old.length)
    (strong : Option Strong) (st : StreamState σ) (hwin : st.win.Holds old remaining p)
    (hstrong : ∀ h, strong = some h → h = strongHash (slice old p sig.blockSize) ∧
      p + sig.blockSize ≤ st.win.physBase + st.win.buf.length) :
    ∃ st' : StreamState σ,
      lazyStrong strongHash sig source p strong st = (strongHash (slice old p sig.blockSize), st') ∧
      st'.log = (if strong.isSome then st.log
        else { st.log with strongComputations := st.log.strongComputations + 1 }) ∧
      st'.captured = st.captured ∧ st'.win.Holds old remaining p ∧
      p + sig.blockSize ≤ st'.win.physBase + st'.win.buf.length := by
  cases strong with
  | some h =>
    obtain ⟨h1, h2⟩ := hstrong h rfl
    exact ⟨st, by rw [lazyStrong, h1], rfl, rfl, hwin, h2⟩
  | none =>
    obtain ⟨h1, h2, h3⟩ := SlidingWindow.window_spec hd hwin (le_refl p) hp
    refine ⟨{ st with
      log := { st.log with strongComputations := st.log.strongComputations + 1 }
      win := (st.win.window source p sig.blockSize).2 }, ?_, rfl, rfl, h2, h3⟩
    rw [lazyStrong, ← h1]

/-- The streaming candidate loop against the in-memory one. -/
structure SameWindow (sig : SignatureSet) (old : Bytes) (remaining : σ → Bytes) (onCopy : Bool) (p : ℕ)
    (captured : List Captured) (r : ScanLog × Bool) (found : Option Entry)
    (r' : StreamState σ × Bool) : Prop where
  flag : r'.2 = r.2
  log : r'.1.log = r.1
  win : r'.1.win.Holds old remaining p
  loaded : r.2 = true → p + sig.blockSize ≤ r'.1.win.physBase + r'.1.win.buf.length
  captured : r'.1.captured = captured ++
    if onCopy then (found.map fun e => captureAt sig old p e.blockIndex).toList else []

theorem tryCandidatesStreaming_spec (hd : source.Delivers remaining) {p : ℕ}
    (hp : p + sig.blockSize ≤ old.length) (weak32 : UInt32) (es : List Entry) (strong : Option Strong)
    (st : StreamState σ) (hwin : st.win.Holds old remaining p)
    (hstrong : ∀ h, strong = some h → h = strongHash (slice old p sig.blockSize) ∧
      p + sig.blockSize ≤ st.win.physBase + st.win.buf.length) :
    SameWindow sig old remaining onCopy p st.captured
      (tryCandidates strongHash sig old p weak32 es strong st.log)
      (es.find? (hits strongHash sig old p weak32 st.log))
      (tryCandidatesStreaming strongHash sig source onCopy p weak32 es strong st) := by
  induction es generalizing strong st with
  | nil =>
    refine ⟨rfl, rfl, hwin, fun h => (by cases h), ?_⟩
    simp [tryCandidatesStreaming]
  | cons e es ih =>
    simp only [tryCandidates, tryCandidatesStreaming]
    by_cases hweak : e.weak ≠ weak32
    · rw [if_pos hweak, if_pos hweak, List.find?_cons_of_neg (fun h => hweak (hits_iff.1 h).1)]
      exact ih strong st hwin hstrong
    rw [if_neg hweak, if_neg hweak]
    by_cases hmatched : st.log.matched.getD e.blockIndex false = true
    · rw [if_pos hmatched, if_pos hmatched,
        List.find?_cons_of_neg (fun h => by rw [hits_iff, hmatched] at h; cases h.2.1)]
      exact ih strong { st with log := { st.log with weakCandidateHits := st.log.weakCandidateHits + 1 } }
        hwin hstrong
    rw [if_neg hmatched, if_neg hmatched]
    obtain ⟨st', hcomp, hlog, hcap, hwin', hloaded⟩ := @lazyStrong_spec σ source remaining old
      strongHash sig hd p hp strong { st with log := { st.log with weakCandidateHits := st.log.weakCandidateHits + 1 } } hwin hstrong
    have hh : strong.getD (strongHash (slice old p sig.blockSize)) =
        strongHash (slice old p sig.blockSize) := by
      cases strong with
      | none => rfl
      | some h => exact (hstrong h rfl).1
    dsimp only at hcomp hlog
    rw [hcomp, hh, ← hlog]
    dsimp only
    by_cases heq : strongEq sig.strongLen (strongHash (slice old p sig.blockSize))
        (sig.blocks.getD e.blockIndex default).strong = true
    · -- a match: the window is loaded and, with a callback, captured
      rw [if_pos heq, if_pos heq, List.find?_cons_of_pos
        (hits_iff.2 ⟨not_not.1 hweak, Bool.not_eq_true _ ▸ hmatched, heq⟩)]
      obtain ⟨h1, h2, h3⟩ := SlidingWindow.window_spec hd hwin' (le_refl p) hp
      by_cases hcb : onCopy = true
      · rw [if_pos hcb]
        refine ⟨rfl, rfl, h2, fun _ => h3, ?_⟩
        simp only [hcb, if_true, Option.map_some, Option.toList_some, captureAt, h1, hcap]
      · rw [if_neg hcb]
        refine ⟨rfl, rfl, hwin', fun _ => hloaded, ?_⟩
        simp only [hcb, if_false, Bool.false_eq_true, List.append_nil, hcap]
    · rw [if_neg heq, if_neg heq, List.find?_cons_of_neg (fun h => heq (hits_iff.1 h).2.2)]
      have hhits : hits strongHash sig old p weak32 st.log = hits strongHash sig old p weak32 st'.log := by
        funext e
        rw [hits, hits, hlog]
        split <;> rfl
      rw [hhits]
      have := ih (some (strongHash (slice old p sig.blockSize))) st' hwin'
        (fun h hs => ⟨(Option.some.inj hs).symm, hloaded⟩)
      exact hcap ▸ this

/-- The captures so far are those of the matched blocks, each once. -/
def Mirrors (sig : SignatureSet) (old : Bytes) (log : ScanLog) (captured : List Captured) : Prop :=
  captured.Perm (((List.range sig.blockCount).filter fun i => log.matched.getD i false).map
    fun i => captureAt sig old (log.matchedSrc.getD i 0) i)

theorem Mirrors.of_same {a b : ScanLog} {captured : List Captured} (h : Mirrors sig old a captured)
    (hs : SameMatches a b) : Mirrors sig old b captured := by
  unfold Mirrors at h ⊢
  rwa [hs.1, hs.2]

/-- A new match adds its own capture. -/
theorem Mirrors.new {i p : ℕ} {a b : ScanLog} {captured : List Captured} (hsound : Sound strongHash sig old a)
    (h : Mirrors sig old a captured) (hm : NewMatch strongHash sig old i p a b) :
    Mirrors sig old b (captured ++ [captureAt sig old p i]) := by
  have hget : ∀ k, b.matched.getD k false = if k = i then true else a.matched.getD k false := by
    intro k
    rw [hm.matched, getD_setIfInBounds _ _ _ _ _ (by rw [hsound.size]; exact hm.index)]
  have hsrc : ∀ k, b.matchedSrc.getD k 0 = if k = i then p else a.matchedSrc.getD k 0 := by
    intro k
    rw [hm.matchedSrc, getD_setIfInBounds _ _ _ _ _ (by rw [hsound.sizeSrc]; exact hm.index)]
  -- the matched blocks of `b` are those of `a` and `i`
  have hblocks : ((List.range sig.blockCount).filter fun k => b.matched.getD k false).Perm
      (i :: (List.range sig.blockCount).filter fun k => a.matched.getD k false) := by
    have hi : i ∉ (List.range sig.blockCount).filter fun k => a.matched.getD k false := by
      rw [List.mem_filter, hm.fresh]
      simp
    refine (List.perm_ext_iff_of_nodup (List.nodup_range.filter _)
      (List.nodup_cons.2 ⟨hi, List.nodup_range.filter _⟩)).2 fun k => ?_
    rw [List.mem_cons, List.mem_filter, List.mem_filter, List.mem_range, hget]
    by_cases hk : k = i
    · simp [hk, hm.index]
    · simp [hk]
  unfold Mirrors
  refine (List.perm_append_singleton _ _).trans ?_
  refine List.Perm.trans ?_ (hblocks.map _).symm
  rw [List.map_cons, hsrc, if_pos rfl]
  refine List.Perm.cons _ (h.trans (List.Perm.of_eq (List.map_congr_left fun k hk => ?_)))
  rw [hsrc, if_neg]
  rintro rfl
  rw [List.mem_filter, hm.fresh] at hk
  cases hk.2

/-- The two scans at the same point: same log, the window serves the old file, and the
captures mirror the matches. -/
structure InStep (strongHash : Bytes → Strong) (sig : SignatureSet) (old : Bytes) (remaining : σ → Bytes)
    (onCopy : Bool) (p : ℕ) (log : ScanLog) (st : StreamState σ) : Prop where
  same : st.log = log
  win : st.win.Holds old remaining p
  sound : Sound strongHash sig old log
  captured : onCopy = true → Mirrors sig old log st.captured

/-- One window of both scans. -/
theorem InStep.window (hd : source.Delivers remaining) {p : ℕ} (hp : p + sig.blockSize ≤ old.length)
    {log : ScanLog} {st : StreamState σ} (h : InStep strongHash sig old remaining onCopy p log st)
    (weak32 : UInt32) {es : List Entry} (hes : FullEntries sig es) :
    let r := tryCandidates strongHash sig old p weak32 es none log
    let r' := tryCandidatesStreaming strongHash sig source onCopy p weak32 es none
      { st with win := st.win.advance p }
    r'.2 = r.2 ∧ InStep strongHash sig old remaining onCopy p r.1 r'.1 ∧
      (r.2 = true → p + sig.blockSize ≤ r'.1.win.physBase + r'.1.win.buf.length) := by
  obtain ⟨rfl, hwin, hsound, hcap⟩ := h
  have hs := @tryCandidatesStreaming_spec σ source remaining old strongHash sig onCopy hd p hp weak32 es none
    { st with win := st.win.advance p } (SlidingWindow.advance_spec hwin (le_refl p) hwin.loaded)
    (fun h hn => by cases hn)
  have hf := @tryCandidates_find strongHash sig old p weak32 es none st.log (fun h hn => by cases hn)
  dsimp only at hs hf ⊢
  refine ⟨hs.flag, ?_, hs.loaded⟩
  cases hfind : es.find? (hits strongHash sig old p weak32 st.log) with
  | none =>
    rw [hfind] at hs hf
    refine ⟨hs.log, hs.win, ⟨hf.2.1 ▸ hsound.size, hf.2.2 ▸ hsound.sizeSrc, ?_⟩, fun hcb => ?_⟩
    · rw [hf.2.1, hf.2.2]; exact hsound.found
    · rw [hs.captured]
      simpa [hcb] using (hcap hcb).of_same hf.2
  | some e =>
    rw [hfind] at hs hf
    have hhit := hits_iff.1 (List.find?_some hfind)
    obtain ⟨h1, h2⟩ := hes e (List.mem_of_find?_eq_some hfind)
    have hm : NewMatch strongHash sig old e.blockIndex p st.log
        (tryCandidates strongHash sig old p weak32 es none st.log).1 :=
      ⟨hhit.2.1, h1, h2, hp, hhit.2.2, hf.2.1, hf.2.2⟩
    refine ⟨hs.log, hs.win, hsound.new hm, fun hcb => ?_⟩
    rw [hs.captured]
    simpa [hcb] using (hcap hcb).new hsound hm

/-- The two scans agree at the end. -/
structure SameScan (strongHash : Bytes → Strong) (sig : SignatureSet) (old : Bytes) (onCopy : Bool)
    (r : ScanLog × ℕ × Bool) (r' : StreamState σ × ℕ × Bool) : Prop where
  log : r'.1.log = r.1
  rest : r'.2 = r.2
  captured : onCopy = true → Mirrors sig old r.1 r'.1.captured

/-- **Lockstep of the two scan loops.** -/
theorem scanLoopStreaming_spec (hd : source.Delivers remaining) {csr : Csr} {hL : 0 < sig.blockSize}
    (hcsr : ∀ weak32, FullEntries sig (csr.candidates weak32)) (c : Cursor) (log : ScanLog)
    (hp : c.p + sig.blockSize ≤ old.length) :
    ∀ st : StreamState σ, InStep strongHash sig old remaining onCopy c.p log st →
      SameScan strongHash sig old onCopy (scanLoop strongHash sig csr old opt hL c log)
        (scanLoopStreaming strongHash sig csr old.length source opt onCopy hL c st) := by
  fun_induction scanLoop strongHash sig csr old opt hL c log with
  | case1 c log weak32 r hr log' p hend =>
    intro st h
    obtain ⟨h1, h2, -⟩ := h.window hd hp c.w.value (hcsr _)
    rw [scanLoopStreaming]
    dsimp only
    rw [h1, if_pos hr, if_pos hend]
    exact ⟨by rw [h2.same], rfl, fun hcb => (h2.captured hcb).of_same ⟨rfl, rfl⟩⟩
  | case2 c log weak32 r hr log' p hend hstop =>
    intro st h
    obtain ⟨h1, h2, -⟩ := h.window hd hp c.w.value (hcsr _)
    rw [scanLoopStreaming]
    dsimp only
    rw [h1, if_pos hr, if_neg hend, h2.same, if_pos hstop]
    exact ⟨rfl, rfl, fun hcb => (h2.captured hcb).of_same ⟨rfl, rfl⟩⟩
  | case3 c log weak32 r hr log' p hend hstop ih =>
    intro st h
    obtain ⟨h1, h2, h3⟩ := h.window hd hp c.w.value (hcsr _)
    -- the jump past the block stays inside the loaded bytes
    have hadv := SlidingWindow.advance_spec h2.win (Nat.le_add_right c.p sig.blockSize) (h3 hr)
    obtain ⟨hv1, hv2, -⟩ := SlidingWindow.window_spec hd hadv (le_refl _)
      (show c.p + sig.blockSize + sig.blockSize ≤ old.length by omega)
    rw [scanLoopStreaming]
    dsimp only
    rw [h1, if_pos hr, if_neg hend, h2.same, if_neg hstop, hv1]
    exact ih (by dsimp only; omega) _ ⟨rfl, hv2, ⟨h2.sound.size, h2.sound.sizeSrc, h2.sound.found⟩,
      fun hcb => (h2.captured hcb).of_same ⟨rfl, rfl⟩⟩
  | case4 c log weak32 r hr hend =>
    intro st h
    obtain ⟨h1, h2, -⟩ := h.window hd hp c.w.value (hcsr _)
    rw [scanLoopStreaming]
    dsimp only
    rw [h1, if_neg hr, if_pos hend]
    exact ⟨h2.same, rfl, h2.captured⟩
  | case5 c log weak32 r hr hend p hstop =>
    intro st h
    obtain ⟨h1, h2, -⟩ := h.window hd hp c.w.value (hcsr _)
    rw [scanLoopStreaming]
    dsimp only
    rw [h1, if_neg hr, if_neg hend, h2.same, if_pos hstop]
    exact ⟨rfl, rfl, h2.captured⟩
  | case6 c log weak32 r hr hend w p hstop ih =>
    intro st h
    obtain ⟨h1, h2, -⟩ := h.window hd hp c.w.value (hcsr _)
    obtain ⟨ho, hwo, -⟩ := SlidingWindow.byteAt_spec hd h2.win (le_refl c.p) (by omega)
    obtain ⟨hi, hwi, hend'⟩ := SlidingWindow.byteAt_spec hd hwo (Nat.le_add_right c.p sig.blockSize) (by omega)
    have hbase := hwi.base
    rw [scanLoopStreaming]
    dsimp only
    rw [h1, if_neg hr, if_neg hend, h2.same, if_neg hstop, ho, hi]
    exact ih (by dsimp only; omega) _ ⟨rfl,
      ⟨hwi.total, hwi.chunk, by dsimp only; omega, by dsimp only; omega, hwi.stream⟩, h2.sound, h2.captured⟩

/-- Lockstep of the two scans. -/
theorem scanStreaming_spec (hd : source.Delivers remaining) {s : σ} (hs : remaining s = old)
    (opt : StreamingPlanOptions) (hL : 0 < sig.blockSize) :
    SameScan strongHash sig old onCopy (scan strongHash sig old opt.build hL)
      (scanStreaming strongHash sig old.length source s opt onCopy hL) := by
  have hinit : Mirrors sig old (ScanLog.init sig.blockCount) [] := by
    simp [Mirrors, ScanLog.init, Array.getD]
  have hwin : (SlidingWindow.init old.length s opt.readAheadChunkBytes).Holds old remaining 0 := by
    refine ⟨le_rfl, ?_, le_refl _, Nat.zero_le _, ?_⟩
    · unfold SlidingWindow.init
      dsimp only
      split <;> omega
    · simpa [SlidingWindow.init] using hs
  unfold scan scanStreaming
  dsimp only
  by_cases h : old.length ≥ sig.blockSize
  · rw [if_pos h, if_pos h]
    obtain ⟨hv1, hv2, -⟩ := SlidingWindow.window_spec hd hwin (le_refl 0)
      (show 0 + sig.blockSize ≤ old.length by omega)
    rw [hv1]
    exact scanLoopStreaming_spec hd (fun _ e he => mem_candidates sig he) _ _ (by dsimp only; omega) _
      ⟨rfl, hv2, Sound.init, fun _ => hinit⟩
  · rw [if_neg h, if_neg h]
    exact ⟨rfl, rfl, fun _ => hinit⟩

end Lockstep

/-- The call of `onCopy` a copy stands for. -/
def CopyOp.capture (old : Bytes) (c : CopyOp) : Captured :=
  ⟨c.srcOffsetOld, c.destOffsetNew, c.len, slice old c.srcOffsetOld c.len⟩

/-- **The streaming planner equals the in-memory planner**, and without an early stop the
calls of `onCopy` are those of the plan's copies, each exactly once. -/
theorem buildPlanStreaming_eq (strongHash : Bytes → Strong) (sig : SignatureSet) (old : Bytes)
    (source : ByteSource σ) (remaining : σ → Bytes) (hd : source.Delivers remaining) (s : σ)
    (hs : remaining s = old) (opt : StreamingPlanOptions) (onCopy : Bool) :
    (buildPlanStreaming strongHash sig old.length source s opt onCopy).1 =
      buildPlan strongHash sig old opt.build ∧
    (onCopy = true → (buildPlan strongHash sig old opt.build).stats.earlyStopped = false →
      (buildPlanStreaming strongHash sig old.length source s opt onCopy).2.Perm
        ((buildPlan strongHash sig old opt.build).copies.map (CopyOp.capture old))) := by
  unfold buildPlanStreaming buildPlan
  by_cases h : sig.blockCount = 0 ∨ sig.blockSize = 0
  · rw [dif_pos h, dif_pos h]
    exact ⟨rfl, fun _ _ => List.Perm.refl _⟩
  · rw [dif_neg h, dif_neg h]
    have hL : 0 < sig.blockSize := by omega
    have hscan := @scanStreaming_spec σ source remaining old strongHash sig onCopy hd s hs opt hL
    refine ⟨by dsimp only; rw [hscan.log, hscan.rest], fun hcb hstop => ?_⟩
    rw [planOfScan_earlyStopped] at hstop
    have hsound := @scan_sound strongHash sig old opt.build hL
    rw [planOfScan, if_neg (by rw [hstop]; simp), emitPlan_copies, List.nil_append, List.map_map]
    refine (hscan.captured hcb).trans (List.Perm.of_eq (List.map_congr_left fun i hi => ?_))
    -- a matched block is full, so its copy has the block size
    have hfull := (hsound.found i (List.mem_filter.1 hi).2).2.1
    simp only [captureAt, CopyOp.capture, Function.comp_apply, copyOf, hfull]

/-- A memory span that delivers at most three bytes a read. -/
def spanSource : ByteSource Bytes where
  read s n := (s.take (min n 3), s.drop (min n 3))
  read_le s n := by simp only [List.length_take]; omega

theorem spanSource_delivers : spanSource.Delivers id := by
  intro s n
  refine ⟨(List.take_append_drop _ s).symm, fun hn hs h => ?_⟩
  rcases List.take_eq_nil_iff.1 h with h | h
  · omega
  · exact hs h

/-- Two blocks of two bytes against an old file of five, read with a chunk of 0. -/
theorem buildPlanStreaming_eq_span :
    let sig : SignatureSet := {
      fileSize := 4, blockSize := 2, blockCount := 2, strongLen := 8
      blocks := #[⟨(weakInit [1, 2]).value, Vector.replicate 16 0⟩,
        ⟨(weakInit [3, 4]).value, Vector.replicate 16 0⟩] }
    (buildPlanStreaming (fun _ => Vector.replicate 16 0) sig [9, 3, 4, 1, 2].length spanSource
        [9, 3, 4, 1, 2] { readAheadChunkBytes := 0 } true).1 =
      buildPlan (fun _ => Vector.replicate 16 0) sig [9, 3, 4, 1, 2] {} :=
  (buildPlanStreaming_eq _ _ [9, 3, 4, 1, 2] spanSource id spanSource_delivers _ rfl
    { readAheadChunkBytes := 0 } true).1

end FastClone.Delta
