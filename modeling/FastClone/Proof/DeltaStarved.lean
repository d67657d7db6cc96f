import FastClone.Proof.DeltaLoads

/-!
# A byte source that ends early

The scan loop takes its bounds from the declared length, the window takes its bytes from the
source. A short source leaves the window behind and nothing in the loop notices.

* `streaming_safe_iff`: every access is inside the loaded bytes exactly if the source serves the
  loads that block matching needs along what it delivers; then no copy reaches beyond the delivered
  bytes either. For a source that delivers a content and ends: exactly if these loads end inside
  the content.
-/

namespace FastClone.Delta

open Greedy ReadAhead

variable {σ : Type}

/-! ### What is observed of a run -/

/-- End of the bytes the window has loaded so far. -/
def SlidingWindow.loaded (w : SlidingWindow σ) : ℕ := w.physBase + w.buf.length

/-- Every window and byte access was inside the loaded bytes, and no copy refers to old bytes
that were not delivered. -/
structure StreamingSafe (strongHash : Bytes → Strong) (sig : SignatureSet) (oldLen : ℕ) (source : ByteSource σ) (s : σ)
    (opt : StreamingPlanOptions) (onCopy : Bool) : Prop where
  accesses : (streamingWindow strongHash sig oldLen source s opt onCopy).inBounds = true
  copies : ∀ c ∈ (buildPlanStreaming strongHash sig oldLen source s opt onCopy).1.copies,
    c.srcOffsetOld + c.len ≤ (streamingWindow strongHash sig oldLen source s opt onCopy).loaded

/-! ### The loaded bytes grow -/

/-- The loaded bytes grow, and what left them stays noted. -/
structure SlidingWindow.Grows (w w' : SlidingWindow σ) : Prop where
  back : w'.inBounds = true → w.inBounds = true
  loaded : w.loaded ≤ w'.loaded

theorem SlidingWindow.Grows.refl (w : SlidingWindow σ) : w.Grows w := ⟨id, le_rfl⟩

theorem SlidingWindow.Grows.trans {w w' w'' : SlidingWindow σ} (h : w.Grows w') (h' : w'.Grows w'') : w.Grows w'' :=
  ⟨fun hb => h.back (h'.back hb), le_trans h.loaded h'.loaded⟩

theorem SlidingWindow.advance_grows (w : SlidingWindow σ) (p : ℕ) : w.Grows (w.advance p) := by
  unfold SlidingWindow.advance
  split
  · dsimp only
    split
    · refine ⟨id, ?_⟩
      unfold SlidingWindow.loaded
      dsimp only
      rw [List.length_drop]
      omega
    · exact .refl w
  · exact .refl w

theorem SlidingWindow.loadLoop_grows (source : ByteSource σ) (last : ℕ) (w : SlidingWindow σ) :
    (w.loadLoop source last).inBounds = w.inBounds ∧ w.loaded ≤ (w.loadLoop source last).loaded := by
  unfold SlidingWindow.loaded
  fun_induction SlidingWindow.loadLoop source last w with
  | case1 w hlt hempty =>
    have hend := w.refill_end source last
    exact ⟨rfl, by omega⟩
  | case2 w hlt hne ih =>
    have hend := w.refill_end source last
    exact ⟨ih.1, by omega⟩
  | case3 w hge => exact ⟨rfl, le_rfl⟩

/-- A window stays inside the loaded bytes only if it is loaded. -/
theorem SlidingWindow.window_grows (source : ByteSource σ) (w : SlidingWindow σ) (p len : ℕ) :
    w.Grows (w.window source p len).2 ∧
      ((w.window source p len).2.inBounds = true → p + len ≤ (w.window source p len).2.loaded) := by
  obtain ⟨hin, hload⟩ := SlidingWindow.loadLoop_grows source (if p + len > w.total then w.total else p + len) w
  refine ⟨⟨fun h => ?_, hload⟩, fun h => ?_⟩
  · have hand := (Bool.and_eq_true _ _ ▸ h).1
    have hbefore := (Bool.and_eq_true _ _ ▸ hand).1
    exact hin ▸ hbefore
  · exact of_decide_eq_true (Bool.and_eq_true _ _ ▸ h).2

theorem SlidingWindow.byteAt_grows (source : ByteSource σ) (w : SlidingWindow σ) (off : ℕ) :
    w.Grows (w.byteAt source off).2 := by
  obtain ⟨hin, hload⟩ := SlidingWindow.loadLoop_grows source (if off + 1 > w.total then w.total else off + 1) w
  refine ⟨fun h => ?_, hload⟩
  have hand := (Bool.and_eq_true _ _ ▸ h).1
  have hbefore := (Bool.and_eq_true _ _ ▸ hand).1
  exact hin ▸ hbefore

section Copies

variable {source : ByteSource σ} {strongHash : Bytes → Strong} {sig : SignatureSet} {onCopy : Bool}

/-- As long as no access left the loaded bytes, every matched block was found inside them. -/
structure Tracked (sig : SignatureSet) (st : StreamState σ) : Prop where
  size : st.log.matched.size = sig.blockCount
  sizeSrc : st.log.matchedSrc.size = sig.blockCount
  found : ∀ i, st.log.matched.getD i false = true → sig.blockLen i = sig.blockSize ∧
    (st.win.inBounds = true → st.log.matchedSrc.getD i 0 + sig.blockSize ≤ st.win.loaded)

/-- The matches stay, the window grows. -/
theorem Tracked.of_grows {st st' : StreamState σ} (h : Tracked sig st) (hs : SameMatches st.log st'.log)
    (hg : st.win.Grows st'.win) : Tracked sig st' := by
  refine ⟨hs.1 ▸ h.size, hs.2 ▸ h.sizeSrc, fun i hi => ?_⟩
  obtain ⟨hfull, hsrc⟩ := h.found i (hs.1 ▸ hi)
  refine ⟨hfull, fun hin => ?_⟩
  have hend := hsrc (hg.back hin)
  have hgrown := hg.loaded
  rw [hs.2]
  omega

theorem lazyStrong_grows (p : ℕ) (strong : Option Strong) (st : StreamState σ) :
    st.win.Grows (lazyStrong strongHash sig source p strong st).2.win := by
  cases strong with
  | some h => exact .refl _
  | none => exact (SlidingWindow.window_grows source st.win p sig.blockSize).1

theorem lazyStrong_reach (p : ℕ) (strong : Option Strong) (st : StreamState σ)
    (hstrong : strong.isSome = true → st.win.inBounds = true → p + sig.blockSize ≤ st.win.loaded) :
    let r := lazyStrong strongHash sig source p strong st
    SameMatches st.log r.2.log ∧ (r.2.win.inBounds = true → p + sig.blockSize ≤ r.2.win.loaded) := by
  cases strong with
  | some h => exact ⟨⟨rfl, rfl⟩, hstrong rfl⟩
  | none => exact ⟨⟨rfl, rfl⟩, (SlidingWindow.window_grows source st.win p sig.blockSize).2⟩

theorem tryCandidatesStreaming_grows (p : ℕ) (weak32 : UInt32) (es : List Entry) (strong : Option Strong)
    (st : StreamState σ) :
    st.win.Grows (tryCandidatesStreaming strongHash sig source onCopy p weak32 es strong st).1.win := by
  induction es generalizing strong st with
  | nil => exact .refl _
  | cons e es ih =>
    simp only [tryCandidatesStreaming]
    split
    · exact ih strong st
    split
    · exact ih strong { st with log := { st.log with weakCandidateHits := st.log.weakCandidateHits + 1 } }
    have hgrow := @lazyStrong_grows σ source strongHash sig p strong
      { st with log := { st.log with weakCandidateHits := st.log.weakCandidateHits + 1 } }
    split
    · split
      · exact hgrow.trans (SlidingWindow.window_grows source _ p sig.blockSize).1
      · exact hgrow
    · exact hgrow.trans (ih _ _)

/-- **What left the loaded bytes stays noted** to the end of a scan. -/
theorem scanLoopStreaming_grows {csr : Csr} {oldLen : ℕ} {opt : BuildOptions} {hL : 0 < sig.blockSize} (c : Cursor)
    (st : StreamState σ) :
    st.win.Grows (scanLoopStreaming strongHash sig csr oldLen source opt onCopy hL c st).1.win := by
  have hlook : ∀ (c : Cursor) (st : StreamState σ), st.win.Grows (tryCandidatesStreaming strongHash sig source onCopy c.p
      c.w.value (csr.candidates c.w.value) none ⟨st.log, st.win.advance c.p, st.captured⟩).1.win :=
    fun c st => (SlidingWindow.advance_grows st.win c.p).trans
      (tryCandidatesStreaming_grows c.p c.w.value (csr.candidates c.w.value) none ⟨st.log, st.win.advance c.p, st.captured⟩)
  fun_induction scanLoopStreaming strongHash sig csr oldLen source opt onCopy hL c st with
  | case1 c st st1 weak32 r st2 hr st3 p hend => exact hlook c st
  | case2 c st st1 weak32 r st2 hr st3 p hend v st4 hstop =>
    exact (hlook c st).trans ((SlidingWindow.advance_grows r.1.win p).trans
      (SlidingWindow.window_grows source (r.1.win.advance p) p sig.blockSize).1)
  | case3 c st st1 weak32 r st2 hr st3 p hend v st4 hstop ih =>
    -- behind a match the window is loaded anew
    have hjump := (SlidingWindow.advance_grows r.1.win p).trans
      (SlidingWindow.window_grows source (r.1.win.advance p) p sig.blockSize).1
    exact (hlook c st).trans (hjump.trans ih)
  | case4 c st st1 weak32 r st2 hr hend => exact hlook c st
  | case5 c st st1 weak32 r st2 hr hend o i st3 p hstop =>
    exact (hlook c st).trans ((SlidingWindow.byteAt_grows source r.1.win c.p).trans
      (SlidingWindow.byteAt_grows source o.2 (c.p + sig.blockSize)))
  | case6 c st st1 weak32 r st2 hr hend o i st3 w p hstop ih =>
    -- a roll reads the byte that leaves and the one that comes in
    have hroll := (SlidingWindow.byteAt_grows source r.1.win c.p).trans
      (SlidingWindow.byteAt_grows source o.2 (c.p + sig.blockSize))
    exact (hlook c st).trans (hroll.trans ih)

theorem Tracked.tryCandidates (p : ℕ) (weak32 : UInt32) {es : List Entry} (hes : FullEntries sig es)
    (strong : Option Strong) {st : StreamState σ} (h : Tracked sig st)
    (hstrong : strong.isSome = true → st.win.inBounds = true → p + sig.blockSize ≤ st.win.loaded) :
    Tracked sig (tryCandidatesStreaming strongHash sig source onCopy p weak32 es strong st).1 := by
  induction es generalizing strong st with
  | nil => exact h
  | cons e es ih =>
    have hrest : FullEntries sig es := fun e' he' => hes e' (List.mem_cons_of_mem e he')
    simp only [tryCandidatesStreaming]
    by_cases hweak : e.weak ≠ weak32
    · rw [if_pos hweak]
      exact ih hrest strong h hstrong
    rw [if_neg hweak]
    generalize hst1 : ({ st with log := { st.log with weakCandidateHits := st.log.weakCandidateHits + 1 } } :
      StreamState σ) = st1
    -- the counter of the weak hits does not touch the window
    have hwin1 : st1.win = st.win := by
      rw [← hst1]
    have h1 : Tracked sig st1 := h.of_grows (by rw [← hst1]; exact ⟨rfl, rfl⟩) (hwin1 ▸ .refl _)
    by_cases hmatched : st.log.matched.getD e.blockIndex false = true
    · rw [if_pos hmatched]
      exact ih hrest strong h1 (hwin1 ▸ hstrong)
    rw [if_neg hmatched]
    obtain ⟨hsame, hreach⟩ := @lazyStrong_reach σ source strongHash sig p strong st1 (hwin1 ▸ hstrong)
    have h2 := h1.of_grows hsame (lazyStrong_grows p strong st1)
    generalize lazyStrong strongHash sig source p strong st1 = r at hsame hreach h2
    split
    · -- a match at `p`, whose window was loaded for the strong hash
      have hnew : Tracked sig { r.2 with log := { r.2.log with
          matched := r.2.log.matched.setIfInBounds e.blockIndex true
          matchedSrc := r.2.log.matchedSrc.setIfInBounds e.blockIndex p } } := by
        obtain ⟨hindex, hfull⟩ := hes e (List.mem_cons_self ..)
        refine ⟨by dsimp only; rw [Array.size_setIfInBounds, h2.size],
          by dsimp only; rw [Array.size_setIfInBounds, h2.sizeSrc], fun i hi => ?_⟩
        dsimp only at hi ⊢
        rw [getD_setIfInBounds _ _ _ _ _ (by rw [h2.size]; exact hindex)] at hi
        rw [getD_setIfInBounds _ _ _ _ _ (by rw [h2.sizeSrc]; exact hindex)]
        by_cases hie : i = e.blockIndex
        · rw [if_pos hie, hie]
          exact ⟨hfull, hreach⟩
        · rw [if_neg hie] at hi ⊢
          exact h2.found i hi
      split
      · exact hnew.of_grows ⟨rfl, rfl⟩ (SlidingWindow.window_grows source r.2.win p sig.blockSize).1
      · exact hnew
    -- no match: the strong hash is kept for the other candidates
    · exact ih hrest (some r.1) h2 (fun _ => hreach)

/-- **The matched blocks of a scan** that stayed inside the loaded bytes lie inside them. -/
theorem Tracked.scanLoop {csr : Csr} {oldLen : ℕ} {opt : BuildOptions} {hL : 0 < sig.blockSize}
    (hcsr : ∀ weak32, FullEntries sig (csr.candidates weak32)) (c : Cursor) (st : StreamState σ) (h : Tracked sig st) :
    Tracked sig (scanLoopStreaming strongHash sig csr oldLen source opt onCopy hL c st).1 := by
  have hlook : ∀ (c : Cursor) (st : StreamState σ), Tracked sig st →
      Tracked sig (tryCandidatesStreaming strongHash sig source onCopy c.p c.w.value (csr.candidates c.w.value) none
          ⟨st.log, st.win.advance c.p, st.captured⟩).1 := by
    intro c st h
    have hstart : Tracked sig (⟨st.log, st.win.advance c.p, st.captured⟩ : StreamState σ) :=
      h.of_grows ⟨rfl, rfl⟩ (SlidingWindow.advance_grows st.win c.p)
    exact hstart.tryCandidates c.p c.w.value (hcsr c.w.value) none (fun hs => by cases hs)
  fun_induction scanLoopStreaming strongHash sig csr oldLen source opt onCopy hL c st with
  | case1 c st st1 weak32 r st2 hr st3 p hend => exact (hlook c st h).of_grows ⟨rfl, rfl⟩ (.refl _)
  | case2 c st st1 weak32 r st2 hr st3 p hend v st4 hstop =>
    exact (hlook c st h).of_grows ⟨rfl, rfl⟩ ((SlidingWindow.advance_grows r.1.win p).trans
      (SlidingWindow.window_grows source (r.1.win.advance p) p sig.blockSize).1)
  | case3 c st st1 weak32 r st2 hr st3 p hend v st4 hstop ih =>
    exact ih ((hlook c st h).of_grows ⟨rfl, rfl⟩ ((SlidingWindow.advance_grows r.1.win p).trans
      (SlidingWindow.window_grows source (r.1.win.advance p) p sig.blockSize).1))
  | case4 c st st1 weak32 r st2 hr hend => exact hlook c st h
  | case5 c st st1 weak32 r st2 hr hend o i st3 p hstop =>
    exact (hlook c st h).of_grows ⟨rfl, rfl⟩ ((SlidingWindow.byteAt_grows source r.1.win c.p).trans
      (SlidingWindow.byteAt_grows source o.2 (c.p + sig.blockSize)))
  | case6 c st st1 weak32 r st2 hr hend o i st3 w p hstop ih =>
    exact ih ((hlook c st h).of_grows ⟨rfl, rfl⟩ ((SlidingWindow.byteAt_grows source r.1.win c.p).trans
      (SlidingWindow.byteAt_grows source o.2 (c.p + sig.blockSize))))

theorem Tracked.init (w : SlidingWindow σ) : Tracked sig { log := ScanLog.init sig.blockCount, win := w } :=
  ⟨by simp [ScanLog.init], by simp [ScanLog.init], fun i hi => by simp [ScanLog.init, Array.getD] at hi⟩

/-- **The copies follow the accesses**: a run inside the loaded bytes copies delivered bytes only. -/
theorem streamingSafe_iff_accesses {oldLen : ℕ} {s : σ} {opt : StreamingPlanOptions} :
    StreamingSafe strongHash sig oldLen source s opt onCopy ↔
      (streamingWindow strongHash sig oldLen source s opt onCopy).inBounds = true := by
  refine ⟨fun h => h.accesses, fun haccess => ⟨haccess, ?_⟩⟩
  unfold streamingWindow at haccess ⊢
  unfold buildPlanStreaming
  by_cases h : sig.blockCount = 0 ∨ sig.blockSize = 0
  · rw [dif_pos h]
    intro c hc
    cases hc
  rw [dif_neg h] at haccess ⊢
  rw [dif_neg h]
  have hL : 0 < sig.blockSize := by omega
  -- the scan is followed to its end, and the copies are its matched blocks
  have htracked : Tracked sig (scanStreaming strongHash sig oldLen source s opt onCopy hL).1 := by
    unfold scanStreaming
    dsimp only
    split
    · exact (Tracked.init _).scanLoop (fun _ e he => mem_candidates sig he) _ _
    · exact .init _
  intro c hc
  dsimp only at hc
  unfold planOfScan at hc
  split at hc
  · cases hc
  · rw [emitPlan_copies, List.nil_append, List.mem_map] at hc
    obtain ⟨i, hi, rfl⟩ := hc
    obtain ⟨hfull, hsrc⟩ := htracked.found i (List.mem_filter.1 hi).2
    show _ + sig.blockLen i ≤ _
    rw [hfull]
    exact hsrc haccess

end Copies

/-! ### What a run was delivered -/

section Delivered

variable {source : ByteSource σ} {strongHash : Bytes → Strong} {sig : SignatureSet} {onCopy : Bool} {csr : Csr}
  {oldLen chunk : ℕ} {g : Bytes}

/-- **A scan that stayed inside the loaded bytes** was served along what it was delivered, however that goes on. -/
theorem scanLoop_delivered (hcsr : Layout sig csr) {opt : BuildOptions} {hL : 0 < sig.blockSize} {c : Cursor}
    {st : StreamState σ} {taken : List (ℕ × ℕ)} (h : Stands sig g oldLen chunk c st taken)
    (hend : (scanLoopStreaming strongHash sig csr oldLen source opt onCopy hL c st).1.win.inBounds = true) :
    ∃ d, g <+: d ∧
      (∀ remaining : σ → Bytes, ReadAhead.Delivers source.read remaining →
        d ++ remaining (scanLoopStreaming strongHash sig csr oldLen source opt onCopy hL c st).1.win.src =
          g ++ remaining st.win.src) ∧
      ∀ f, d <+: f → ∀ x ∈ readsFrom strongHash sig source f g oldLen chunk opt hL c st taken,
        x.2.items ≠ [] ∧ x.2.items <+: f.drop x.2.loaded := by
  induction hn : oldLen - c.p using Nat.strong_induction_on generalizing c st taken g with
  | _ n ih =>
    obtain ⟨m, hm⟩ : ∃ m, nextMove strongHash sig g c.p taken = m := ⟨_, rfl⟩
    obtain ⟨hstart, hlt, hstop⟩ := h.goes hL strongHash
    rw [hm] at hstart hlt hstop
    have hreads : ∀ {f : Bytes}, g <+: f → _ := fun {f} hpre => h.forall_reads source opt hL hpre hm (fun x => x.2.items ≠ [] ∧ x.2.items <+: f.drop x.2.loaded)
    obtain ⟨hfollow, -, hsrc, -, -⟩ :=
      (hstart ▸ h.win : st.win.Serves g oldLen chunk m.1.start).follow (by omega) hstop
    obtain ⟨-, -, hsrc', hinside⟩ := hfollow.reach source (m.1.stop + sig.blockSize)
    rw [hsrc] at hsrc' hinside
    -- what the load brought is gone from what remains
    have hgone : ∀ remaining : σ → Bytes, ReadAhead.Delivers source.read remaining →
        loadedBy source g chunk st.win.src (m.1.stop + sig.blockSize) ++
          remaining ((st.win.follow m.1).reach source (m.1.stop + sig.blockSize)).src = g ++ remaining st.win.src := by
      intro remaining hd
      rw [hsrc', loadedBy, List.append_assoc, ← fill_remaining hd]
    rcases scanLoop_turn source onCopy opt hcsr hL h hm with
      ⟨hout, hwin⟩ | ⟨hfits, hk, hwin⟩ | ⟨hfits, k, st', weak, hk, hr, hwin, hstands⟩
    · refine ⟨g, List.prefix_refl g, fun remaining _ => ?_, fun f hpre => ?_⟩
      · rw [hwin, (h.win.advance le_rfl h.win.loaded).2.2.1]
      · rw [(hreads hpre).1 hout]
        exact fun x hx => absurd hx List.not_mem_nil
    · rw [hwin] at hend
      refine ⟨loadedBy source g chunk st.win.src (m.1.stop + sig.blockSize), List.prefix_append _ _,
        fun remaining hd => ?_, fun f hpre => ?_⟩
      · rw [hwin]
        exact hgone remaining hd
      · have hg := (List.prefix_append _ _).trans hpre
        exact ((hreads hg).2.1 hfits hk).2 ((fill_served hg rfl).2 ⟨(hinside.1 hend).2, hpre⟩)
    · rw [hr] at hend
      have hin := (scanLoopStreaming_grows _ _).back hend
      obtain ⟨d, hd, hgone', hserved⟩ := ih (oldLen - m.1.stop) (by omega) (hstands hin) hend rfl
      refine ⟨d, (List.prefix_append _ _).trans hd, fun remaining hdel => ?_, fun f hpre => ?_⟩
      · rw [hr, hgone' remaining hdel, hwin]
        exact hgone remaining hdel
      · have hload := hd.trans hpre
        have hg := (List.prefix_append _ _).trans hload
        exact ((hreads hg).2.2 hfits k st' weak hk hwin).2
          ⟨(fill_served hg rfl).2 ⟨(hinside.1 (hwin ▸ hin)).2, hload⟩, hserved f hpre⟩

/-- The whole run. -/
theorem streamingWindow_delivered {opt : StreamingPlanOptions} {s : σ}
    (hend : (streamingWindow strongHash sig oldLen source s opt onCopy).inBounds = true) :
    ∃ d, (∀ remaining : σ → Bytes, ReadAhead.Delivers source.read remaining → d <+: remaining s) ∧
      ∀ f, d <+: f → ∀ x ∈ fills source.read opt.chunk (neededLoads strongHash sig f oldLen opt) s 0,
        x.2.items ≠ [] ∧ x.2.items <+: f.drop x.2.loaded := by
  by_cases hnone : (sig.blockCount = 0 ∨ sig.blockSize = 0) ∨ oldLen < sig.blockSize
  · obtain ⟨-, hloads⟩ := @streamingWindow_none σ source strongHash sig onCopy oldLen opt s hnone
    refine ⟨[], fun remaining _ => List.nil_prefix, fun f _ => ?_⟩
    rw [hloads f]
    exact fun x hx => absurd hx List.not_mem_nil
  obtain ⟨h, hshort⟩ := not_or.1 hnone
  have hle : sig.blockSize ≤ oldLen := by omega
  rw [streamingWindow_scan h hle] at hend
  have hin := (scanLoopStreaming_grows _ _).back hend
  obtain ⟨-, -, hsrc, hbounds⟩ := (SlidingWindow.serves_init oldLen s opt).reach source sig.blockSize
  obtain ⟨d, hd, hgone, hserved⟩ := scanLoop_delivered (candidates_eq sig) (stands_first hle hin _) hend
  refine ⟨d, fun remaining hdel => ?_, fun f hpre => ?_⟩
  · refine ⟨_, (hgone remaining hdel).trans ?_⟩
    show loadedBy source [] opt.chunk s sig.blockSize ++ remaining (SlidingWindow.reach source _ _).src = _
    rw [hsrc, loadedBy, List.nil_append]
    exact (fill_remaining hdel).symm
  · exact (forall_neededLoads h hle f _).2
      ⟨(fill_served List.nil_prefix rfl).2 ⟨(hbounds.1 hin).2, hd.trans hpre⟩, hserved f hpre⟩

/-- For every source: the loads that matching needs along some content are served with it. -/
theorem safe_iff_served {opt : StreamingPlanOptions} {s : σ} :
    StreamingSafe strongHash sig oldLen source s opt onCopy ↔
      ∃ f, ∀ x ∈ fills source.read opt.chunk (neededLoads strongHash sig f oldLen opt) s 0,
        x.2.items ≠ [] ∧ x.2.items <+: f.drop x.2.loaded := by
  rw [streamingSafe_iff_accesses]
  constructor
  · intro hin
    obtain ⟨d, -, hserved⟩ := streamingWindow_delivered hin
    exact ⟨d, hserved d (List.prefix_refl d)⟩
  · rintro ⟨f, hs⟩
    exact (streamingWindow_served hs).1

/-- For a source that delivers a content and ends: the loads that matching needs along a file that begins with
it end inside it. -/
theorem safe_iff_loads {opt : StreamingPlanOptions} {s : σ} {remaining : σ → Bytes} {old : Bytes}
    (hd : source.Delivers remaining) (hpre : remaining s <+: old) :
    StreamingSafe strongHash sig old.length source s opt onCopy ↔
      ∀ load ∈ neededLoads strongHash sig old old.length opt, load.2 ≤ (remaining s).length := by
  rw [streamingSafe_iff_accesses]
  constructor
  · intro hin
    obtain ⟨d, hdel, hserved⟩ := streamingWindow_delivered hin
    have hs := hserved old ((hdel remaining hd).trans hpre)
    exact fills_le (g := []) hd rfl (fun x hx => (hs x hx).1)
  · intro hle
    exact (streamingWindow_served (fills_served (g := []) hd hpre rfl hle)).1

end Delivered

/-- **When the streaming scan is safe on a source that ends early.** For every source: exactly if there is a
content such that each read of the loads that block matching needs along it brings something, as it stands in the
content. For a source that delivers a content and ends: exactly if the loads that block matching needs along a file
of the declared length that begins with the content end inside it. -/
theorem streaming_safe_iff (strongHash : Bytes → Strong) (sig : SignatureSet) (source : ByteSource σ) (s : σ)
    (opt : StreamingPlanOptions) (onCopy : Bool) :
    (∀ oldLen, StreamingSafe strongHash sig oldLen source s opt onCopy ↔
      ∃ f, ∀ x ∈ fills source.read opt.chunk (neededLoads strongHash sig f oldLen opt) s 0,
        x.2.items ≠ [] ∧ x.2.items <+: f.drop x.2.loaded) ∧
    ∀ (remaining : σ → Bytes) (old : Bytes), source.Delivers remaining → remaining s <+: old →
      (StreamingSafe strongHash sig old.length source s opt onCopy ↔
        ∀ load ∈ neededLoads strongHash sig old old.length opt, load.2 ≤ (remaining s).length) :=
  ⟨fun _ => safe_iff_served, fun _ _ hd hpre => safe_iff_loads hd hpre⟩

/-- One block of two bytes. -/
def pairSignature : SignatureSet :=
  { fileSize := 2, blockSize := 2, blockCount := 1, strongLen := 8, blocks := #[⟨0, Vector.replicate 16 0⟩],
    blockSize_lt := SignatureSet.two_lt, blockCount_lt := SignatureSet.one_lt }

/-- Of three declared bytes the source delivers two and ends. They are the block, and the byte behind it is not
looked at. -/
theorem streaming_safe_short :
    StreamingSafe (fun _ => Vector.replicate 16 0) pairSignature [0, 0, 5].length spanSource [0, 0] {} true := by
  have hmove : nextMove (fun _ => Vector.replicate 16 0) pairSignature [0, 0, 5] 0 [] = (⟨0, 2, true⟩, [(0, 0)]) := by
    decide
  have hloads : neededLoads (fun _ => Vector.replicate 16 0) pairSignature [0, 0, 5] 3 {} = [(0, 2)] := by
    unfold neededLoads
    rw [dif_neg (by decide), if_neg (by decide), movesAlong_end hmove (by decide)]
    rfl
  refine ((streaming_safe_iff (fun _ => Vector.replicate 16 0) pairSignature spanSource [0, 0] {} true).2 id [0, 0, 5]
    spanSource_delivers ⟨[5], rfl⟩).2 ?_
  rw [show ([0, 0, 5] : Bytes).length = 3 from rfl, hloads]
  decide

/-- Two declared bytes of which the source delivers none: already the first window reads beyond the
loaded bytes. -/
theorem streaming_unsafe_empty :
    ¬ StreamingSafe (fun _ => Vector.replicate 16 0) pairSignature 2 spanSource [] {} true := by
  intro h
  have hiff : StreamingSafe (fun _ => Vector.replicate 16 0) pairSignature ([7, 8] : Bytes).length spanSource [] {} true ↔
      ∀ load ∈ neededLoads (fun _ => Vector.replicate 16 0) pairSignature [7, 8] ([7, 8] : Bytes).length {},
        load.2 ≤ (id [] : Bytes).length :=
    safe_iff_loads spanSource_delivers List.nil_prefix
  have hloads := hiff.1 h (0, 2)
  unfold neededLoads at hloads
  rw [dif_neg (by decide), if_neg (by decide)] at hloads
  exact absurd (hloads List.mem_cons_self) (by decide)

end FastClone.Delta
