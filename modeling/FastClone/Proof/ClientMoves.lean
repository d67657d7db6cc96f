import FastClone.Proof.ClientLife

/-!
# The client moves files as `FileLife` says: every event

`exec_moves`: an event that tears down no batch stream before its reply moves every file as
`FileLife.Move` allows. `KeepsBatches` and `CleanStep` are the conditions on a step, in
terms of the state before it.
-/

set_option linter.unusedSectionVars false

namespace FastClone.Client

open FileLife

variable {P H : Type} [DecidableEq P]

namespace State

variable {clean : Bool}

theorem life_compare {s : State P H} {c : CompareStage P} (f : P)
    (h : c.held f = s.compare.held f) : { s with compare := c }.life f = s.life f :=
  Life.ext h rfl rfl rfl rfl rfl rfl

theorem life_io {s : State P H} {io : IoPool P} (f : P) (h : io.held f = s.io.held f) :
    { s with io := io }.life f = s.life f :=
  Life.ext rfl rfl (congrArg (s.xfer.held f + s.streams.held f + ·) h) rfl rfl rfl rfl

/-! ### Transfers -/

theorem life_setQueue (s : State P H) (l : List P) (q : Transfers.Queue) (f : P) {n : ℕ}
    (h : (s.xfer.queue q).count f = l.count f + n) :
    s.life f = ({ s with xfer := s.xfer.setQueue l q }.life f).addOut n := by
  have hq := s.xfer.held_setQueue l q f
  apply Life.ext
  · rfl
  · rfl
  · simp only [life, Life.addOut]
    omega
  · rfl
  · simp only [life, Life.addOut, Transfers.scheduled_setQueue]
  · rfl
  · exact (Transfers.strays_setQueue _ _ _).symm

theorem life_openNext (s : State P H) (lane : ℕ) (st : Stream P) (pool : Pool) (f : P) :
    { s with
      streams := s.streams.openNext lane st
      pool := pool }.life f = (s.life f).addOut (st.held f) :=
  s.life_streams _ pool f (m := 0) (n := st.held f) (Streams.held_openNext _ _ _ _)

theorem life_startBatch (cfg : Config) (s : State P H) (q : Transfers.Queue) (lane : ℕ)
    (sendOk : Bool) (f : P) : (s.startBatch cfg q lane sendOk).life f = s.life f := by
  unfold startBatch
  split
  · generalize Transfers.batchTake s.size s.xfer.smallBatchMaxFiles s.xfer.smallBatchMaxBytes
      (s.xfer.queue q) 0 0 = n
    have hq : (s.xfer.queue q).count f =
        ((s.xfer.queue q).drop n).count f + ((s.xfer.queue q).take n).count f := by
      rw [Nat.add_comm]
      exact (CompareStage.count_take_drop _ n f).symm
    rw [s.life_setQueue _ q f hq]
    dsimp only
    split
    · rename_i hnil
      rw [hnil]
      rfl
    · split
      · exact life_openNext { s with xfer := s.xfer.setQueue ((s.xfer.queue q).drop n) q } lane
          (.batch ((s.xfer.queue q).take n) {}) _ f
      · exact life_retryAll _ _ f
  · rfl

theorem life_startDownload (cfg : Config) (s : State P H) (q : Transfers.Queue)
    (globalSlotCap lane : ℕ) (openOk sendOk : Bool) (f : P) :
    (s.startDownload cfg q globalSlotCap lane openOk sendOk).life f = s.life f := by
  unfold startDownload
  extract_lets reservedBatchSlots
  split
  · rfl
  · split
    · rfl
    · rename_i rel rest hq
      dsimp only
      split
      · have hl := s.life_setQueue rest q f (n := if rel = f then 1 else 0)
          (by rw [hq, List.count_cons]; simp only [beq_iff_eq])
        rw [hl]
        split
        · exact life_retryOrFail _ rel f
        · exact life_openNext { s with xfer := s.xfer.setQueue rest q } lane (.download rel) _ f
      · rfl

theorem life_tryStartTransfer (cfg : Config) (s : State P H) (lane healthyAtStart : ℕ)
    (openOk sendOk : Bool) (f : P) :
    (s.tryStartTransfer cfg lane healthyAtStart openOk sendOk).life f = s.life f := by
  simp only [tryStartTransfer]
  split
  · rfl
  · split
    · rfl
    · split
      · rfl
      · exact life_startBatch cfg s _ lane sendOk f
      · exact life_startBatch cfg s _ lane sendOk f
      · exact life_startDownload cfg s _ _ lane openOk sendOk f
      · exact life_startDownload cfg s _ _ lane openOk sendOk f

theorem life_drainIo (s : State P H) (f : P) : s.drainIo.life f = s.life f := by
  unfold drainIo
  split
  · rfl
  · rename_i r io h
    have hl : s.life f = ({ s with io := io }.life f).addOut (if r.1 = f then 1 else 0) := by
      have := IoPool.held_drainOne h f
      apply Life.ext
      · rfl
      · rfl
      · simp only [life, Life.addOut, this]
        omega
      · rfl
      · rfl
      · rfl
      · rfl
    rw [hl]
    split
    · exact life_countTransferred _ r.1 f
    · exact life_retryOrFail _ r.1 f

/-! ### Ranges -/

theorem life_deltaBook {s : State P H} {d : DeltaStage P} (f : P) {n : ℕ}
    (h : s.delta.book.held f = d.book.held f + n) :
    s.life f = ({ s with delta := d }.life f).addHeld n := by
  apply Life.ext
  · rfl
  · simp only [life, Life.addHeld, h]
    omega
  · rfl
  · rfl
  · rfl
  · rfl
  · rfl

theorem life_rangeBook {s : State P H} {r : FileRangeStage P} (f : P) {n : ℕ}
    (h : s.range.book.held f = r.book.held f + n) :
    s.life f = ({ s with range := r }.life f).addHeld n := by
  apply Life.ext
  · rfl
  · simp only [life, Life.addHeld, h]
    omega
  · rfl
  · rfl
  · rfl
  · rfl
  · rfl

theorem life_delta_same {s : State P H} {d : DeltaStage P} (f : P)
    (h : d.book.held f = s.delta.book.held f) : { s with delta := d }.life f = s.life f :=
  (life_deltaBook (n := 0) f h.symm).symm

theorem life_range_same {s : State P H} {r : FileRangeStage P} (f : P)
    (h : r.book.held f = s.range.book.held f) : { s with range := r }.life f = s.life f :=
  (life_rangeBook (n := 0) f h.symm).symm

theorem mem_of_lookup {α : Type} [DecidableEq α] {β : Type} {m : AList fun _ : α => β} {a : α}
    {b : β} (h : m.lookup a = some b) : a ∈ m := by
  rw [← AList.lookup_isSome, h]
  rfl

theorem moves_finalizeDelta (cfg : Config) (s : State P H) (rel : P) (fin : TempFinalizeResult)
    (f : P) : Moves clean (s.life f) ((s.finalizeDelta cfg rel fin).life f) := by
  unfold finalizeDelta
  split
  · exact .refl
  · rename_i st hst
    have hm := mem_of_lookup hst
    dsimp only
    split
    · exact moves_released (puts_of_addOut fun g => life_countTransferred _ rel g)
        (fun g => life_deltaBook g
          (RangeBook.held_forget (b := s.delta.book.noteFinalized rel st) hm g)) f
    · exact moves_released (puts_enterFileRangeOrSchedule cfg _ rel)
        (fun g => life_deltaBook g
          (RangeBook.held_abandon (b := s.delta.book.noteFinalized rel st) hm g)) f

theorem moves_finalizeFileRange (s : State P H) (rel : P) (fin : TempFinalizeResult) (f : P) :
    Moves clean (s.life f) ((s.finalizeFileRange rel fin).life f) := by
  unfold finalizeFileRange
  split
  · exact .refl
  · rename_i st hst
    have hm := mem_of_lookup hst
    dsimp only
    split
    · exact moves_released (puts_of_addOut fun g => life_countTransferred _ rel g)
        (fun g => life_rangeBook g
          (RangeBook.held_forget (b := s.range.book.noteFinalized rel st) hm g)) f
    · exact moves_released (puts_scheduleTransfer _ rel)
        (fun g => life_rangeBook g
          (RangeBook.held_abandon (b := s.range.book.noteFinalized rel st) hm g)) f

/-- The plan result that is taken is the first, and only the plans change. -/
theorem drainPlan_eq_some {d d' : DeltaStage P} {r : PlanResult P} (h : d.drainPlan = some (r, d')) :
    d.planResults = r :: d'.planResults ∧ d'.book = d.book ∧ d'.deltaSigRequested = d.deltaSigRequested ∧
      d'.sigJobs = d.sigJobs ∧ d'.deltaSigInFlight = d.deltaSigInFlight ∧
        d'.planTasks = d.planTasks ∧ d'.planning = d.planning := by
  unfold DeltaStage.drainPlan at h
  split at h
  · cases h
  · rename_i r' rest hresults
    obtain ⟨rfl, rfl⟩ := Prod.mk.inj (Option.some.inj h)
    exact ⟨hresults, rfl, rfl, rfl, rfl, rfl, rfl⟩

theorem moves_applyDeltaPlanResult (cfg : Config) (s : State P H) (fin : TempFinalizeResult)
    (f : P) : Moves clean (s.life f) ((s.applyDeltaPlanResult cfg fin).life f) := by
  unfold applyDeltaPlanResult
  split
  · exact .refl
  · rename_i r d hd
    obtain ⟨-, hb, -⟩ := drainPlan_eq_some hd
    split
    · exact moves_of_eq (life_delta_same f (by rw [hb]))
    · rename_i st hst
      have hm := mem_of_lookup hst
      split
      · refine moves_released (puts_enterFileRangeOrSchedule cfg _ r.rel)
          (fun g => life_deltaBook g ?_) f
        rw [← hb]
        exact RangeBook.held_abandon hm g
      · rename_i ranges _
        have hs : { s with delta := { d with book := d.book.adopt r.rel st ranges } }.life f =
            s.life f := life_delta_same f (by rw [RangeBook.held_adopt, hb])
        dsimp only
        rw [← hs]
        split
        · exact moves_finalizeDelta cfg _ r.rel fin f
        · exact .refl

/-- Signatures are asked for delta files only. -/
theorem mem_sigBatch {managed : P → Bool} {room : Option ℕ} {queue : List P} {g : P}
    (hg : g ∈ (sigBatch managed room queue).1) : managed g = true := by
  fun_induction sigBatch managed room queue with
  | case1 => cases hg
  | case2 => cases hg
  | case3 room rel queue hm r ih =>
    rcases List.mem_cons.1 hg with rfl | hg
    · exact hm
    · exact ih hg
  | case4 room rel queue hm ih => exact ih hg
  | case5 rel queue hm r ih =>
    rcases List.mem_cons.1 hg with rfl | hg
    · exact hm
    · exact ih hg
  | case6 rel queue hm ih => exact ih hg

theorem life_pumpDeltaSignatures (cfg : Config) (s : State P H) (lane : ℕ) (sendOk : Bool)
    (reached : ℕ) (f : P) : (s.pumpDeltaSignatures cfg lane sendOk reached).life f = s.life f := by
  unfold pumpDeltaSignatures
  extract_lets room r
  split
  · rfl
  · split <;> rfl

theorem life_tryStartDeltaRange (cfg : Config) (s : State P H) (lane : ℕ) (sendOk : Bool) (f : P) :
    (s.tryStartDeltaRange cfg lane sendOk).life f = s.life f := by
  unfold tryStartDeltaRange
  split
  · rfl
  · rename_i t rest _
    dsimp only
    split
    · rfl
    · split
      · split
        · exact life_openNext
            { s with delta := { s.delta with book := s.delta.book.setPending rest } } lane _ _ f
        · rfl
      · rfl

theorem life_tryStartFileRange (cfg : Config) (s : State P H) (lane : ℕ) (sendOk : Bool) (f : P) :
    (s.tryStartFileRange cfg lane sendOk).life f = s.life f := by
  unfold tryStartFileRange
  split
  · rfl
  · rename_i t rest _
    dsimp only
    split
    · rfl
    · split
      · split
        · exact life_openNext
            { s with range := { s.range with book := s.range.book.setPending rest } } lane _ _ f
        · rfl
      · rfl

theorem moves_beginFileRangePlan (cfg : Config) (s : State P H) (openOk : Bool)
    (fin : TempFinalizeResult) (f : P) :
    Moves clean (s.life f) ((s.beginFileRangePlan cfg openOk fin).life f) := by
  unfold beginFileRangePlan
  split
  · exact .refl
  · rename_i rel rest _
    dsimp only
    split
    · exact .refl
    · rename_i st hst
      have hm : rel ∈ s.range.book.states := mem_of_lookup hst
      split
      · exact .refl
      · split
        · exact moves_released (puts_scheduleTransfer _ rel)
            (fun g => life_rangeBook g (RangeBook.held_abandon hm g)) f
        · have hs : { s with range :=
              { book := s.range.book.adopt rel st (fileRangePlan cfg.largeFileBlockBytes st.bytes)
                pendingFileRangePlans := rest } }.life f = s.life f :=
            life_range_same f (RangeBook.held_adopt _ _ _ _ _)
          rw [← hs]
          split
          · exact moves_finalizeFileRange _ rel fin f
          · exact .refl

/-! ### Frames -/

theorem life_fileBatchOpen (s : State P H) (k : Key) (records : List (BatchFileRecord P))
    (hc : ∀ requested b, s.streams.find k = some (.batch requested b) →
      b.headerReady = false ∧ records.map BatchFileRecord.relativePath = requested) (f : P) :
    (s.fileBatchOpen k records).life f = s.life f := by
  unfold fileBatchOpen
  split
  · rename_i requested b hk
    obtain ⟨hr, hp⟩ := hc requested b hk
    have hu := life_update hk (.batch requested (BatchDownloadState.open records).1) f
    have hh := batchOpen_held records f
    have hst : (Stream.batch requested (BatchDownloadState.open records).1).held f =
        entriesHeld (BatchDownloadState.open records).1.entries f := rfl
    have hreq : (Stream.batch requested b).held f =
        entriesHeld (BatchDownloadState.open records).1.entries f +
          outsHeld (BatchDownloadState.open records).2 f := by
      simp only [Stream.held, hr, Bool.false_eq_true, if_false]
      rw [hh, hp]
    dsimp only
    rw [life_applyOuts]
    rw [hreq, hst, Nat.add_comm, ← Life.addOut_addOut] at hu
    exact Life.addOut_inj hu
  · exact life_unknownStream _ _ _ f

theorem life_fileBatchChunk (s : State P H) (k : Key) (payload : List UInt8) (f : P) :
    (s.fileBatchChunk k payload).life f = s.life f := by
  unfold fileBatchChunk
  split
  · rename_i requested b hk
    split
    · rename_i hr
      have hu := life_update hk (.batch requested (b.chunk payload).1) f
      have hh := batchChunk_held b payload f
      have hst : (Stream.batch requested (b.chunk payload).1).held f =
          entriesHeld (b.chunk payload).1.entries f := by
        have hr' : (b.chunk payload).1.headerReady = true := hr
        simp only [Stream.held, hr', if_true]
      have hold : (Stream.batch requested b).held f =
          entriesHeld (b.chunk payload).1.entries f + outsHeld (b.chunk payload).2 f := by
        simp only [Stream.held, hr, if_true]
        exact hh
      dsimp only
      rw [life_applyOuts]
      rw [hold, hst, Nat.add_comm, ← Life.addOut_addOut] at hu
      exact Life.addOut_inj hu
    · rfl
  · exact life_unknownStream _ _ _ f

/-- Closing a batch that has its reply gives back the files of its unfinished entries. -/
theorem life_closeBatch {s : State P H} {k : Key} {requested : List P} {b : BatchDownloadState P}
    (hk : s.streams.find k = some (.batch requested b)) (hr : b.headerReady = true) (pool : Pool)
    (g : BatchDownloadEntry P → List (BatchOut P)) (hg : ∀ e f, outsHeld (g e) f = e.held f)
    (f : P) :
    ({ s with
      streams := s.streams.close k
      pool := pool }.applyOuts (b.entries.flatMap g)).life f = s.life f := by
  rw [life_applyOuts, outsHeld_entries g f (fun e => hg e f)]
  have h := life_close hk pool f
  simp only [Stream.held, hr, if_true] at h
  exact h.symm

theorem life_fileBatchEnd (s : State P H) (k : Key)
    (hb : ∀ requested b, s.streams.find k = some (.batch requested b) → b.headerReady = true)
    (f : P) : (s.fileBatchEnd k).life f = s.life f := by
  unfold fileBatchEnd
  split
  · rename_i requested b hk
    exact life_closeBatch hk (hb requested b hk) _ endBatchEntry endBatchEntry_held f
  · exact life_unknownStream _ _ _ f

theorem life_fileChunk (s : State P H) (k : Key) (f : P) : (s.fileChunk k).life f = s.life f := by
  unfold fileChunk
  split
  · rfl
  · exact life_unknownStream _ _ _ f

theorem life_fileEnd (s : State P H) (k : Key) (ok : Bool) (f : P) :
    (s.fileEnd k ok).life f = s.life f := by
  unfold fileEnd
  split
  · rename_i rel hk
    have h := life_closeStream hk f
    simp only [Stream.held] at h
    split
    · rw [life_countTransferred, h]
    · rw [life_retryOrFail, h]
  · exact life_unknownStream _ _ _ f

theorem moves_fileError (s : State P H) (k : Key)
    (hb : ∀ requested b, s.streams.find k = some (.batch requested b) → b.headerReady = true)
    (hc : clean = true → (s.streams.find k).any (fun st => st.isDownload || st.isBatch) = true)
    (f : P) : Moves clean (s.life f) ((s.fileError k).life f) := by
  unfold fileError
  split
  · rename_i requested b hk
    exact moves_of_eq
      (life_closeBatch hk (hb requested b hk) _ errorBatchEntry errorBatchEntry_held f)
  · rename_i rel hk
    have h := life_closeStream hk f
    simp only [Stream.held] at h
    rw [life_retryOrFail, h]
  · rename_i hnb hnd
    have hcl : clean = false := by
      cases hclean : clean with
      | false => rfl
      | true =>
        have h := hc hclean
        cases hf : s.streams.find k with
        | none => rw [hf] at h; cases h
        | some st =>
          rw [hf] at h
          cases st with
          | download rel => exact absurd hf (hnd rel)
          | batch requested b => exact absurd hf (hnb requested b)
          | deltaRange r => cases h
          | fileRange r => cases h
    rw [life_count_none]
    exact .single (.stray _ hcl)

theorem life_blockSigResponse (s : State P H) (conn : ℕ) (rel f : P) :
    (s.blockSigResponse conn rel).life f = s.life f := by
  simp only [blockSigResponse]
  split
  · rfl
  · split
    · rfl
    · exact life_delta_same f (RangeBook.held_update _ _ _ _)

theorem life_deltaRangeChunk (s : State P H) (k : Key) (len : ℕ) (f : P) :
    (s.deltaRangeChunk k len).life f = s.life f := by
  unfold deltaRangeChunk
  split
  · rename_i r hk
    exact life_update_same hk f rfl
  · exact life_unknownStream _ _ _ f

theorem life_fileRangeData (s : State P H) (k : Key) (len : ℕ) (f : P) :
    (s.fileRangeData k len).life f = s.life f := by
  unfold fileRangeData
  split
  · rename_i r hk
    exact life_update_same hk f rfl
  · exact life_unknownStream _ _ _ f

theorem moves_deltaRangeEnd (cfg : Config) (s : State P H) (k : Key) (fin : TempFinalizeResult)
    (f : P) : Moves clean (s.life f) ((s.deltaRangeEnd cfg k fin).life f) := by
  unfold deltaRangeEnd
  split
  · rename_i r hk
    have h : s.life f = (s.closeStream k).life f := life_closeStream hk f
    rw [h]
    dsimp only
    split
    · exact .refl
    · rename_i st _
      have hs : { s.closeStream k with delta := { (s.closeStream k).delta with
          book := (s.closeStream k).delta.book.endRange r.rel st r.span } }.life f =
          (s.closeStream k).life f := life_delta_same f (RangeBook.held_endRange _ _ _ _ _)
      rw [← hs]
      split
      · exact moves_finalizeDelta cfg _ r.rel fin f
      · exact .refl
  · exact moves_of_eq (life_unknownStream _ _ _ f)

theorem moves_fileRangeEnd (s : State P H) (k : Key) (fin : TempFinalizeResult)
    (f : P) : Moves clean (s.life f) ((s.fileRangeEnd k fin).life f) := by
  unfold fileRangeEnd
  split
  · rename_i r hk
    have h : s.life f = (s.closeStream k).life f := life_closeStream hk f
    rw [h]
    dsimp only
    split
    · exact .refl
    · rename_i st _
      have hs : { s.closeStream k with range := { (s.closeStream k).range with
          book := (s.closeStream k).range.book.endRange r.rel st r.span } }.life f =
          (s.closeStream k).life f := life_range_same f (RangeBook.held_endRange _ _ _ _ _)
      rw [← hs]
      split
      · exact moves_finalizeFileRange _ r.rel fin f
      · exact .refl
  · exact moves_of_eq (life_unknownStream _ _ _ f)

/-- Scheduling a file that was not taken from anywhere. -/
theorem moves_spurious (s : State P H) (rel : P) (hc : clean = false) (f : P) :
    Moves clean (s.life f) ((s.scheduleTransfer rel).life f) := by
  rw [life_scheduleTransfer]
  split
  · exact .single (.spurious _ hc)
  · exact .refl

theorem moves_deltaErrorFor (s : State P H) (tagged : Bool) (rel : P)
    (hc : clean = true → rel ∈ s.delta.book.states ∨ rel ∈ s.delta.book.abandoned ∨
      rel ∉ s.delta.deltaSigRequested) (f : P) :
    Moves clean (s.life f) ((s.deltaErrorFor tagged rel).life f) := by
  simp only [deltaErrorFor]
  split
  · rename_i hcond
    simp only [Bool.and_eq_true, Bool.or_eq_true, decide_eq_true_eq] at hcond
    by_cases hm : rel ∈ s.delta.book.states
    · exact moves_released (puts_scheduleTransfer _ rel)
        (fun g => life_deltaBook g (RangeBook.held_abandon hm g)) f
    · -- an answer to an old request: the file is not a delta file any more
      rw [AList.lookup_isSome] at hcond
      have hcl : clean = false := by
        cases hclean : clean with
        | false => rfl
        | true =>
          rcases hc hclean with h | h | h
          · exact absurd h hm
          · exact absurd h hcond.2
          · rcases hcond.1 with h' | h'
            · exact absurd h' hm
            · exact absurd h' h
      refine .trans (moves_of_eq ?_) (moves_spurious _ rel hcl f)
      exact life_delta_same f (RangeBook.held_abandon_absent hm f)
  · rename_i hcond
    apply moves_of_eq
    have hm : rel ∉ s.delta.book.states := by
      intro hm
      apply hcond
      simp only [Bool.and_eq_true, Bool.or_eq_true, decide_eq_true_eq]
      exact ⟨.inl (AList.lookup_isSome.2 hm), s.delta.book.disjoint rel hm⟩
    exact life_delta_same f (RangeBook.held_forget_absent hm f)

theorem moves_fileRangeErrorFor (s : State P H) (rel : P)
    (hc : clean = true → rel ∈ s.range.book.states ∨ rel ∈ s.range.book.abandoned) (f : P) :
    Moves clean (s.life f) ((s.fileRangeErrorFor rel).life f) := by
  unfold fileRangeErrorFor
  split
  · rename_i ha
    have hm : rel ∉ s.range.book.states := fun hm => s.range.book.disjoint rel hm ha
    exact moves_of_eq (life_range_same f (RangeBook.held_forget_absent hm f))
  · rename_i ha
    by_cases hm : rel ∈ s.range.book.states
    · exact moves_released (puts_scheduleTransfer _ rel)
        (fun g => life_rangeBook g (RangeBook.held_abandon hm g)) f
    · have hcl : clean = false := by
        cases hclean : clean with
        | false => rfl
        | true =>
          rcases hc hclean with h | h
          · exact absurd h hm
          · exact absurd h ha
      refine .trans (moves_of_eq ?_) (moves_spurious _ rel hcl f)
      exact life_range_same f (RangeBook.held_abandon_absent hm f)

/-! ### Failover -/

/-- The stream at `k` is not a batch that waits for its `FileBatchOpen` reply. -/
def batchAnswered (s : State P H) (k : Key) : Bool :=
  match s.streams.find k with
  | some (.batch _ b) => b.headerReady
  | _ => true

theorem batchAnswered_iff {s : State P H} {k : Key} : s.batchAnswered k = true ↔
    ∀ requested b, s.streams.find k = some (.batch requested b) → b.headerReady = true := by
  unfold batchAnswered
  constructor
  · intro h requested b hk
    rw [hk] at h
    exact h
  · intro h
    split
    · rename_i requested b hk
      exact h requested b hk
    · rfl

theorem streams_applyOuts (s : State P H) (outs : List (BatchOut P)) :
    (s.applyOuts outs).streams = s.streams ∧ (s.applyOuts outs).pool = s.pool := by
  unfold applyOuts
  induction outs generalizing s with
  | nil => exact ⟨rfl, rfl⟩
  | cons o outs ih =>
    obtain ⟨h1, h2⟩ := ih (s.applyOut o)
    have h3 : (s.applyOut o).streams = s.streams ∧ (s.applyOut o).pool = s.pool := by
      cases o <;> exact ⟨rfl, rfl⟩
    exact ⟨h1.trans h3.1, h2.trans h3.2⟩

/-- Draining a stream closes it and leaves the lanes and the other streams alone. -/
theorem drainStream_frame (s : State P H) (k : Key) :
    (s.drainStream k).pool = s.pool ∧ (s.drainStream k).streams = s.streams.close k := by
  unfold drainStream
  split
  · rename_i hk
    exact ⟨rfl, (Streams.close_absent hk).symm⟩
  · exact ⟨rfl, rfl⟩
  · exact (streams_applyOuts _ _).symm
  · exact ⟨rfl, rfl⟩
  · exact ⟨rfl, rfl⟩

theorem life_drainStream (s : State P H) (k : Key) (hb : s.batchAnswered k = true) (f : P) :
    (s.drainStream k).life f = s.life f := by
  unfold drainStream
  split
  · rfl
  · rename_i rel hk
    have h := life_close hk s.pool f
    simp only [Stream.held] at h
    rw [life_retryOrFail, h]
  · rename_i requested b hk
    exact life_closeBatch hk (batchAnswered_iff.1 hb requested b hk) s.pool failoverBatchEntry
      failoverBatchEntry_held f
  · rename_i r hk
    have h : s.life f = { s with streams := s.streams.close k }.life f := life_close hk s.pool f
    rw [h]
    exact life_delta_same (s := { s with streams := s.streams.close k }) f
      (RangeBook.held_requeue _ _ _)
  · rename_i r hk
    have h : s.life f = { s with streams := s.streams.close k }.life f := life_close hk s.pool f
    rw [h]
    exact life_range_same (s := { s with streams := s.streams.close k }) f
      (RangeBook.held_requeue _ _ _)

theorem batchAnswered_drainStream {s : State P H} {j : Key} (k : Key)
    (hb : s.batchAnswered j = true) : (s.drainStream k).batchAnswered j = true := by
  have hs := (s.drainStream_frame k).2
  unfold batchAnswered
  rw [hs]
  by_cases hj : j = k
  · subst hj
    have : (s.streams.close j).find j = none := AList.lookup_erase _ _
    rw [this]
  · rw [Streams.find_close_ne hj]
    exact hb

/-- The batches on dead lanes all have their replies. -/
def DeadAnswered (s : State P H) : Prop :=
  ∀ k, s.pool.healthy k.1 = false → s.batchAnswered k = true

theorem drainKeys_keeps (keys : List Key) (s : State P H) (hs : s.DeadAnswered)
    (hk : ∀ k ∈ keys, s.pool.healthy k.1 = false) (f : P) :
    (keys.foldl drainStream s).life f = s.life f ∧
      (keys.foldl drainStream s).DeadAnswered ∧ (keys.foldl drainStream s).pool = s.pool := by
  induction keys generalizing s with
  | nil => exact ⟨rfl, hs, rfl⟩
  | cons k keys ih =>
    have hp := (s.drainStream_frame k).1
    have hs' : (s.drainStream k).DeadAnswered := by
      intro j hj
      rw [hp] at hj
      exact batchAnswered_drainStream k (hs j hj)
    obtain ⟨h1, h2, h3⟩ := ih (s.drainStream k) hs'
      (fun j hj => by rw [hp]; exact hk j (List.mem_cons_of_mem _ hj))
    refine ⟨?_, h2, h3.trans hp⟩
    rw [List.foldl_cons, h1]
    exact life_drainStream s k (hs k (hk k List.mem_cons_self)) f

theorem healthy_modify (pool : Pool) (lane i : ℕ) (g : Lane → Lane)
    (hg : ∀ l, (g l).healthy = l.healthy) :
    Pool.healthy (pool.modify lane g) i = pool.healthy i := by
  unfold Pool.healthy
  rw [List.getElem?_modify]
  cases pool[i]? with
  | none => rfl
  | some l =>
    simp only [Option.map_eq_map, Option.map_some, Option.any_some]
    split
    · exact hg l
    · rfl

theorem laneKeys_lane {s : State P H} {order : List Key} {lane : ℕ} {k : Key}
    (h : k ∈ s.laneKeys order lane) : k.1 = lane := by
  unfold laneKeys at h
  obtain ⟨kind, -, hk⟩ := List.mem_flatMap.1 h
  have := (List.mem_filter.1 hk).2
  simp only [Bool.and_eq_true, beq_iff_eq] at this
  exact this.1

theorem drainLane_keeps (order : List Key) (s : State P H) (lane : ℕ) (hs : s.DeadAnswered) (f : P) :
    (s.drainLane order lane).life f = s.life f ∧ (s.drainLane order lane).DeadAnswered := by
  unfold drainLane
  split
  · rename_i hdead
    have hl : s.pool.healthy lane = false := by
      unfold Pool.healthy
      cases hp : s.pool[lane]? with
      | none => rfl
      | some l =>
        rw [hp] at hdead
        simp only [Option.any_some, Bool.and_eq_true, Bool.not_eq_true'] at hdead
        simpa using hdead.1
    obtain ⟨h1, h2, h3⟩ := drainKeys_keeps (s.laneKeys order lane) s hs
      (fun k hk => by rw [laneKeys_lane hk]; exact hl) f
    refine ⟨h1, fun j hj => h2 j ?_⟩
    have hm := healthy_modify ((s.laneKeys order lane).foldl drainStream s).pool lane j.1
      (fun l => { l with
        inFlight := 0
        drained := true }) fun l => rfl
    exact hm.symm.trans hj
  · exact ⟨rfl, hs⟩

theorem drainLanes_keeps (order : List Key) (lanes : List ℕ) (s : State P H) (hs : s.DeadAnswered)
    (f : P) : (lanes.foldl (drainLane order) s).life f = s.life f := by
  induction lanes generalizing s with
  | nil => rfl
  | cons lane lanes ih =>
    obtain ⟨h1, h2⟩ := drainLane_keeps order s lane hs f
    rw [List.foldl_cons, ih _ h2, h1]

theorem life_requeueSignature (s : State P H) (rel f : P) :
    (s.requeueSignature rel).life f = s.life f := by
  unfold requeueSignature
  split
  · rfl
  · split <;> rfl

theorem life_requeueSignatures (l : List P) (s : State P H) (f : P) :
    (l.foldl requeueSignature s).life f = s.life f := by
  induction l generalizing s with
  | nil => rfl
  | cons rel l ih => rw [List.foldl_cons, ih, life_requeueSignature]

theorem life_failoverScan (s : State P H) (order : List Key) (sigOrder : List P)
    (lost lost' : List ℕ) (hs : s.DeadAnswered) (f : P) :
    (s.failoverScan order sigOrder lost lost').life f = s.life f := by
  have h := drainLanes_keeps order (List.range s.pool.length) s hs f
  unfold failoverScan
  extract_lets newlyDown s₁ s₂ s₃ s₄
  have h3 : s₃.life f = s₂.life f := by
    simp only [s₃]
    split
    · exact life_requeueSignatures sigOrder s₂ f
    · rfl
  have h4 : s₄.life f = s.life f := h3.trans h
  split
  · exact h4
  · exact h4

theorem life_loopTest (cfg : Config) (s : State P H) (f : P) :
    (s.loopTest cfg).life f = s.life f := by
  have h : { s with compare := (s.compare.refill cfg.maxInFlightCompareTasks).flush }.life f =
      s.life f :=
    life_compare f ((CompareStage.held_flush _ f).trans (CompareStage.held_refill _ _ f))
  unfold loopTest
  dsimp only
  split
  · exact h
  · exact h

/-- The range a `FileRangeError` is tagged with. -/
def fileRangeTag (s : State P H) (k : Key) : Option (ActiveRange P) :=
  match s.streams.find k with
  | some (.fileRange r) => some r
  | _ => none

end State

open State

/-- The step closes no batch stream that still waits for its `FileBatchOpen` reply. -/
def KeepsBatches (s : State P H) : Event P H → Prop
  | .fileBatchEnd k => s.batchAnswered k = true
  | .fileError k => s.batchAnswered k = true
  | .failoverScan _ _ _ _ =>
    ∀ k ∈ s.streams.table.keys, s.pool.healthy k.1 = true ∨ s.batchAnswered k = true
  | _ => True

/-- The step lists no path twice; a `FileError` is for an open transfer stream; a `DeltaError` or
`FileRangeError` is about a file that is managed, or abandoned before, or (for a delta file) was
never asked for. -/
def CleanStep (s : State P H) : Event P H → Prop
  | .manifestEntry rel _ => rel ∉ s.remoteFiles
  | .fileError k => (s.streams.find k).any (fun st => st.isDownload || st.isBatch) = true
  | .deltaError k rel =>
    let rel := ((s.deltaTag k).map ActiveRange.rel).getD rel
    rel ∈ s.delta.book.states ∨ rel ∈ s.delta.book.abandoned ∨ rel ∉ s.delta.deltaSigRequested
  | .fileRangeError k rel =>
    let rel := ((s.fileRangeTag k).map ActiveRange.rel).getD rel
    rel ∈ s.range.book.states ∨ rel ∈ s.range.book.abandoned
  | _ => True

instance (s : State P H) (e : Event P H) : Decidable (KeepsBatches s e) := by
  apply Event.casesOn (motive := fun e => Decidable (KeepsBatches s e)) e <;> intros <;>
    dsimp only [KeepsBatches] <;> infer_instance

instance (s : State P H) (e : Event P H) : Decidable (CleanStep s e) := by
  apply Event.casesOn (motive := fun e => Decidable (CleanStep s e)) e <;> intros <;>
    dsimp only [CleanStep] <;> infer_instance

variable [DecidableEq H] {clean : Bool}

theorem moves_deltaError (s : State P H) (k : Key) (rel : P)
    (hc : clean = true → CleanStep s (.deltaError k rel : Event P H)) (f : P) :
    Moves clean (s.life f) ((s.deltaError k rel).life f) := by
  unfold deltaError
  split
  · rename_i r hr
    have hk : s.streams.find k = some (.deltaRange r) := by
      unfold deltaTag at hr
      split at hr
      · rename_i r' hk
        rw [hk, Option.some.inj hr]
      · cases hr
    have h : s.life f = (s.closeStream k).life f := life_closeStream hk f
    rw [h]
    refine moves_deltaErrorFor (s.closeStream k) true r.rel (fun hcl => ?_) f
    have := hc hcl
    simp only [CleanStep, hr] at this
    exact this
  · rename_i hr
    refine moves_deltaErrorFor { s with delta := { s.delta with
        sigJobs := if k.2 = 0 then s.delta.sigJobs.erase (k.1, rel)
          else s.delta.sigJobs } } false rel (fun hcl => ?_) f
    have := hc hcl
    simp only [CleanStep, hr] at this
    exact this

theorem moves_fileRangeError (s : State P H) (k : Key) (rel : P)
    (hc : clean = true → CleanStep s (.fileRangeError k rel : Event P H)) (f : P) :
    Moves clean (s.life f) ((s.fileRangeError k rel).life f) := by
  unfold fileRangeError
  split
  · rename_i r hk
    have h : s.life f = (s.closeStream k).life f := life_closeStream hk f
    rw [h]
    refine moves_fileRangeErrorFor (s.closeStream k) r.rel (fun hcl => ?_) f
    have := hc hcl
    simp only [CleanStep, fileRangeTag, hk] at this
    exact this
  · rename_i hk
    refine moves_fileRangeErrorFor s rel (fun hcl => ?_) f
    have ht : s.fileRangeTag k = none := by
      unfold fileRangeTag
      split
      · rename_i r hr
        exact absurd hr (hk r)
      · rfl
    have := hc hcl
    simp only [CleanStep, ht] at this
    exact this

/-- **Every step of the client is a sequence of moves of every file.** -/
theorem exec_moves (cfg : Config) (s : State P H) (e : Event P H) (hcan : Can s e)
    (hk : KeepsBatches s e) (hc : clean = true → CleanStep s e) (f : P) :
    Moves clean (s.life f) ((exec cfg s e).life f) := by
  cases e with
  | manifestEntry rel e => exact moves_manifestEntry cfg s rel e hc f
  | manifestDir rel => exact .refl
  | manifestEnd => exact .refl
  | compareFlush => exact moves_of_eq (life_compare f (CompareStage.held_flush _ _))
  | compareTake => exact moves_of_eq (life_compare f (CompareStage.held_workerTake _ _))
  | comparePublish i act =>
    exact moves_of_eq (life_compare f (CompareStage.held_workerPublish _ _ _ _))
  | drainCompare old => exact moves_drainCompare cfg s old f
  | dispatchHashRequests lane ok reached =>
    exact moves_of_eq (life_dispatchHashRequests cfg s lane reached ok f)
  | hashPop => exact moves_of_eq (life_hash (HashStage.same_workerPop _) f)
  | hashCount i => exact moves_of_eq (life_hash (HashStage.same_workerCount _ i) f)
  | hashRecord i r => exact moves_of_eq (life_hash (HashStage.same_workerRecord _ i r) f)
  | hashLeave i => exact moves_of_eq (life_hash (HashStage.same_workerLeave _ i) f)
  | hashReady i => exact moves_of_eq (life_hash (HashStage.same_workerReady _ i) f)
  | hashResponse conn rel v =>
    exact moves_of_eq (life_hash (HashStage.same_response _ conn rel v _) f)
  | resolveFallback old => exact moves_resolveFallback cfg s old f
  | sweep unresolved old =>
    refine moves_sweep cfg s unresolved old (fun rel hrel => ?_) f
    have hm : rel ∈ unresolved.toFinset := List.mem_toFinset.2 hrel
    rw [hcan.2, Finset.mem_sdiff] at hm
    exact hm.1
  | refreshTuning =>
    exact moves_of_eq (s.life_xfer _ f (n := 0) (Transfers.scheduled_refresh _ _)
      (Transfers.held_refresh _ _ _) (Transfers.strays_refresh _ _))
  | rebalance =>
    exact moves_of_eq (s.life_xfer _ f (n := 0) (Transfers.scheduled_rebalance _ _)
      (Transfers.held_rebalance _ _ _) (Transfers.strays_rebalance _ _))
  | startTransfer lane n openOk sendOk =>
    exact moves_of_eq (life_tryStartTransfer cfg s lane n openOk sendOk f)
  | backoff =>
    apply moves_of_eq
    simp only [exec]
    split <;> rfl
  | ioTake => exact moves_of_eq (life_io f (IoPool.held_workerTake _ _))
  | ioWrite i ok => exact moves_of_eq (life_io f (IoPool.held_workerWrite _ _ _ _))
  | ioPublish i => exact moves_of_eq (life_io f (IoPool.held_workerPublish _ _ _))
  | drainIo => exact moves_of_eq (life_drainIo s f)
  | pumpSignatures lane ok reached =>
    exact moves_of_eq (life_pumpDeltaSignatures cfg s lane ok reached f)
  | planTake =>
    refine moves_of_eq (life_delta_same f ?_)
    unfold DeltaStage.planTake
    split <;> rfl
  | planPublish i misses =>
    refine moves_of_eq (life_delta_same f ?_)
    unfold DeltaStage.planPublish
    split <;> rfl
  | applyPlan fin => exact moves_applyDeltaPlanResult cfg s fin f
  | startDeltaRange lane ok => exact moves_of_eq (life_tryStartDeltaRange cfg s lane ok f)
  | beginFileRangePlan ok fin => exact moves_beginFileRangePlan cfg s ok fin f
  | startFileRange lane ok => exact moves_of_eq (life_tryStartFileRange cfg s lane ok f)
  | fileBatchOpen k records =>
    refine moves_of_eq (life_fileBatchOpen s k records (fun requested b hb => ?_) f)
    simp only [Can, hb] at hcan
    exact hcan
  | fileBatchChunk k payload => exact moves_of_eq (life_fileBatchChunk s k payload f)
  | fileBatchEnd k => exact moves_of_eq (life_fileBatchEnd s k (batchAnswered_iff.1 hk) f)
  | fileChunk k => exact moves_of_eq (life_fileChunk s k f)
  | fileEnd k ok => exact moves_of_eq (life_fileEnd s k ok f)
  | fileError k => exact moves_fileError s k (batchAnswered_iff.1 hk) hc f
  | blockSigResponse conn rel => exact moves_of_eq (life_blockSigResponse s conn rel f)
  | deltaRangeChunk k len => exact moves_of_eq (life_deltaRangeChunk s k len f)
  | deltaRangeEnd k fin => exact moves_deltaRangeEnd cfg s k fin f
  | deltaError k rel => exact moves_deltaError s k rel hc f
  | fileRangeData k len => exact moves_of_eq (life_fileRangeData s k len f)
  | fileRangeEnd k fin => exact moves_fileRangeEnd s k fin f
  | fileRangeError k rel => exact moves_fileRangeError s k rel hc f
  | laneDown lane => exact moves_of_eq (life_lanesDown s [lane] f)
  | failoverScan order sigOrder lost lost' =>
    refine moves_of_eq (life_failoverScan s order sigOrder lost lost' (fun k hdead => ?_) f)
    -- an absent key carries no batch
    by_cases hm : k ∈ s.streams.table.keys
    · rcases hk k hm with h | h
      · rw [hdead] at h
        cases h
      · exact h
    · have hn : s.streams.find k = none := AList.lookup_eq_none.2 hm
      simp only [batchAnswered, hn]
  | loopTest => exact moves_of_eq (life_loopTest cfg s f)
  | recvDrainedAndClosed =>
    apply moves_of_eq
    simp only [exec]
    split <;> rfl

end FastClone.Client
