import FastClone.Proof.ClientMoves

/-!
# No file is lost, and every file is counted once

`no_file_lost`: as long as no batch stream is torn down before its `FileBatchOpen` reply,
every manifest file stays in a place from which it goes on, and all are counted when the
main loop leaves by its completion test. `counted_once`: if besides no error frame comes for
a stream or file that is over, every file is counted exactly once.

Both conditions are needed: `lost_with_its_batch` loses a file, `counted_twice` counts one
file twice.
-/

set_option linter.unusedSectionVars false

namespace FastClone.Client

open FileLife State Runs

variable {P H : Type} [DecidableEq P] [DecidableEq H]

/-! ### Places -/

/-- Both the failover of its lane and a `FileError` take the file from the stream at `k` and
requeue it (or count it failed once its retries are used up). -/
def Requeues (s : State P H) (k : Key) (f : P) : Prop :=
  s.xfer.held f < (s.drainStream k).xfer.held f ∧ s.xfer.held f < (s.fileError k).xfer.held f

/-- A file is queued, on a stream that gives it back, in the write pool, a delta or block-mode
file, or counted. -/
inductive Placed (s : State P H) (f : P) : Prop where
  | queued : 0 < s.xfer.queued f → Placed s f
  | onStream (k : Key) : Requeues s k f → Placed s f
  | written : 0 < s.io.held f → Placed s f
  | delta : f ∈ s.delta.book.states → Placed s f
  | range : f ∈ s.range.book.states → Placed s f
  | counted : 0 < s.xfer.counted f → Placed s f

/-- A file that only a batch stream without a reply has asked for. -/
def AwaitsReply (s : State P H) (f : P) : Prop :=
  ∃ k requested b, s.streams.find k = some (.batch requested b) ∧ b.headerReady = false ∧
    f ∈ requested

/-- A file in the compare stage or waiting for its hashes. -/
def InStages (s : State P H) (f : P) : Prop := 0 < s.compare.held f ∨ 0 < s.hash.held f

/-- The request is not a pool write. -/
def BatchOut.isWrite : BatchOut P → Bool
  | .write _ => true
  | _ => false

theorem xfer_applyOuts (s : State P H) (outs : List (BatchOut P)) (f : P)
    (h : ∀ o ∈ outs, o.isWrite = false) :
    (s.applyOuts outs).xfer.held f = s.xfer.held f + outsHeld outs f := by
  unfold applyOuts
  induction outs generalizing s with
  | nil => rfl
  | cons o outs ih =>
    have ho : (s.applyOut o).xfer.held f = s.xfer.held f + if o.rel = f then 1 else 0 := by
      cases o with
      | write task => exact absurd (h _ List.mem_cons_self) (by simp [BatchOut.isWrite])
      | fail rel => exact Transfers.held_count s.xfer rel .failed f
      | retry rel => exact Transfers.held_retryOrFail _ _ _ _
    rw [List.foldl_cons, ih _ fun o' h' => h o' (List.mem_cons_of_mem _ h'), ho]
    simp only [outsHeld, List.map_cons, List.count_cons, beq_iff_eq]
    omega

theorem failoverBatchEntry_retries (e : BatchDownloadEntry P) :
    ∀ o ∈ failoverBatchEntry e, o.isWrite = false := by
  unfold failoverBatchEntry
  split <;> simp [BatchOut.isWrite]

theorem errorBatchEntry_retries (e : BatchDownloadEntry P) :
    ∀ o ∈ errorBatchEntry e, o.isWrite = false := by
  unfold errorBatchEntry
  split
  · simp
  · rename_i hf
    cases e.serverOk <;> simp [finalizeBatchEntry, hf, BatchOut.isWrite]

/-- A download gives its file back. -/
theorem requeues_download {s : State P H} {k : Key} {f : P}
    (hk : s.streams.find k = some (.download f)) : Requeues s k f := by
  have h1 : (s.drainStream k).xfer.held f = s.xfer.held f + 1 := by
    unfold drainStream
    rw [hk]
    have h := Transfers.held_retryOrFail s.size s.xfer f f
    rw [if_pos rfl] at h
    exact h
  have h2 : (s.fileError k).xfer.held f = s.xfer.held f + 1 := by
    unfold fileError
    rw [hk]
    have h := Transfers.held_retryOrFail s.size s.xfer f f
    rw [if_pos rfl] at h
    exact h
  exact ⟨by omega, by omega⟩

/-- An answered batch gives the files of its unfinished entries back. -/
theorem requeues_batch {s : State P H} {k : Key} {requested : List P} {b : BatchDownloadState P}
    {f : P} (hk : s.streams.find k = some (.batch requested b)) (hf : 0 < entriesHeld b.entries f) :
    Requeues s k f := by
  have h1 : (s.drainStream k).xfer.held f = s.xfer.held f + entriesHeld b.entries f := by
    unfold drainStream
    rw [hk]
    dsimp only
    rw [xfer_applyOuts, outsHeld_entries _ f (fun e => failoverBatchEntry_held e f)]
    intro o ho
    obtain ⟨e, -, he⟩ := List.mem_flatMap.1 ho
    exact failoverBatchEntry_retries e o he
  have h2 : (s.fileError k).xfer.held f = s.xfer.held f + entriesHeld b.entries f := by
    unfold fileError
    rw [hk]
    dsimp only
    rw [xfer_applyOuts, outsHeld_entries _ f (fun e => errorBatchEntry_held e f)]
    · rfl
    · intro o ho
      obtain ⟨e, -, he⟩ := List.mem_flatMap.1 ho
      exact errorBatchEntry_retries e o he
  exact ⟨by omega, by omega⟩

/-- A file that is out is placed, unless only an unanswered batch has it. -/
theorem placed_of_out {s : State P H} {f : P} (h : 0 < (s.life f).out) :
    Placed s f ∨ AwaitsReply s f := by
  have hout : 0 < s.xfer.queued f + s.xfer.counted f + s.streams.held f + s.io.held f := h
  by_cases h1 : 0 < s.xfer.queued f
  · exact .inl (.queued h1)
  by_cases h2 : 0 < s.xfer.counted f
  · exact .inl (.counted h2)
  by_cases h3 : 0 < s.io.held f
  · exact .inl (.written h3)
  obtain ⟨k, st, hk, hst⟩ := Table.exists_of_total_pos
    (show 0 < Table.total (fun _ st => Stream.held st f) s.streams.table from by
      unfold Streams.held at hout
      omega)
  cases st with
  | download rel =>
    simp only [Stream.held] at hst
    have hrel : rel = f := by
      by_contra hne
      simp [hne] at hst
    subst hrel
    exact .inl (.onStream k (requeues_download hk))
  | batch requested b =>
    simp only [Stream.held] at hst
    cases hr : b.headerReady with
    | true =>
      rw [hr, if_pos rfl] at hst
      exact .inl (.onStream k (requeues_batch hk hst))
    | false =>
      simp only [hr, Bool.false_eq_true, if_false] at hst
      exact .inr ⟨k, requested, b, hk, hr, List.count_pos_iff.1 hst⟩
  | deltaRange r => simp [Stream.held] at hst
  | fileRange r => simp [Stream.held] at hst

/-- A file that is somewhere is in a stage or placed, unless only an unanswered batch has it. -/
theorem placed_of_life {s : State P H} {f : P}
    (h : 1 ≤ (s.life f).comparing + (s.life f).held + (s.life f).out) :
    InStages s f ∨ Placed s f ∨ AwaitsReply s f := by
  have h' : 1 ≤ s.compare.held f + (s.hash.held f + s.delta.book.held f + s.range.book.held f) +
      (s.life f).out := h
  by_cases h1 : 0 < s.compare.held f
  · exact .inl (.inl h1)
  by_cases h2 : 0 < s.hash.held f
  · exact .inl (.inr h2)
  by_cases h3 : f ∈ s.delta.book.states
  · exact .inr (.inl (.delta h3))
  by_cases h4 : f ∈ s.range.book.states
  · exact .inr (.inl (.range h4))
  have h5 : s.delta.book.held f = 0 := by simp [RangeBook.held, h3]
  have h6 : s.range.book.held f = 0 := by simp [RangeBook.held, h4]
  exact .inr (placed_of_out (by omega))

/-! ### The completion test -/

theorem notMem_of_empty {b : RangeBook P} (h : b.states.entries.length = 0) (f : P) :
    f ∉ b.states := by
  have : b.states.keys = [] := by
    simp only [AList.keys, List.keys, List.eq_nil_of_length_eq_zero h, List.map_nil]
  intro hm
  rw [AList.mem_keys, this] at hm
  cases hm

/-- **When the loop leaves by its completion test, every file is only counted.** -/
theorem life_of_complete (cfg : Config) {s : State P H} (hrun : s.mode = .running)
    (h : (s.loopTest cfg).mode = .completed) (f : P) :
    (s.life f).comparing = 0 ∧ (s.life f).held = 0 ∧ (s.life f).out = s.xfer.counted f := by
  rw [← life_loopTest cfg s f]
  have hx : (s.loopTest cfg).xfer = s.xfer := by
    unfold loopTest
    dsimp only
    split <;> rfl
  have hc : ({ s with compare := (s.compare.refill cfg.maxInFlightCompareTasks).flush } :
      State P H).complete = true ∧ (s.loopTest cfg).life f = State.life
        { s with compare := (s.compare.refill cfg.maxInFlightCompareTasks).flush } f := by
    unfold loopTest at h ⊢
    dsimp only at h ⊢
    split at h
    · rename_i hc
      exact ⟨hc, by rw [if_pos hc]; rfl⟩
    · rw [hrun] at h
      cases h
  rw [hc.2]
  have hcomp := hc.1
  simp only [complete, deltaIdle, fileRangeIdle, Bool.and_eq_true, beq_iff_eq,
    List.isEmpty_iff, decide_eq_true_eq] at hcomp
  obtain ⟨⟨⟨⟨⟨⟨⟨⟨⟨⟨⟨-, hcmp⟩, hq1⟩, hq2⟩, hq3⟩, hq4⟩, hdl⟩, hbt⟩, hhash⟩, hio⟩, hdelta⟩, hrange⟩ :=
    hcomp
  -- the refill that runs just before the test leaves nothing delayed in an idle pipeline
  have hdelayed : (s.compare.refill cfg.maxInFlightCompareTasks).delayedCompareEntries = [] := by
    rcases s.compare.refill_delayed (n := cfg.maxInFlightCompareTasks) with hd | hd
    · exact hd
    · have h0 : (s.compare.refill cfg.maxInFlightCompareTasks).inFlight = 0 := hcmp
      have := cfg.compare_pos
      omega
  refine ⟨CompareStage.held_of_idle hcmp hdelayed f, ?_, ?_⟩
  · have h1 : s.hash.held f = 0 := HashStage.held_of_all_resolved hhash f
    have h2 : s.delta.book.held f = 0 := by
      simp [RangeBook.held, notMem_of_empty hdelta.1.1.1.1 f]
    have h3 : s.range.book.held f = 0 := by
      simp [RangeBook.held, notMem_of_empty hrange.1.1.1 f]
    show s.hash.held f + s.delta.book.held f + s.range.book.held f = 0
    omega
  · have h1 : s.streams.held f = 0 := Streams.held_of_no_transfers hdl hbt f
    have h2 : s.io.held f = 0 := IoPool.held_of_idle hio f
    have h3 : s.xfer.queued f = 0 := by
      simp [Transfers.queued, hq1, hq2, hq3, hq4]
    show s.xfer.queued f + s.xfer.counted f + s.streams.held f + s.io.held f = s.xfer.counted f
    omega

/-! ### Runs that keep their batches -/

theorem reach_notLost (cfg : Config) {s : State P H}
    (h : (machine P H cfg).Reach KeepsBatches s) (f : P) : NotLost (s.life f) := by
  refine h.invariant (I := fun s => NotLost (s.life f)) ?_ ?_
  · constructor <;> intro h <;> cases h
  · intro s e hs hcan hok
    have hm : Moves false (s.life f) ((exec cfg s e).life f) :=
      exec_moves cfg s e hcan.2 hok (fun h => by cases h) f
    exact hm.notLost hs

/-- **No file is lost in a run that closes no batch stream before its reply.** In every state
reached every scheduled file is placed or is waited for by a batch that is still to be
answered, and every manifest file is so or has not left the compare and hash stages; once no
batch waits for its reply every one of them is placed; and when the main loop leaves by its
completion test every manifest file has been counted. -/
theorem no_file_lost (cfg : Config) {s : State P H}
    (h : (machine P H cfg).Reach KeepsBatches s) :
    (∀ f ∈ s.xfer.scheduledTransfers, Placed s f ∨ AwaitsReply s f) ∧
      (∀ f ∈ s.remoteFiles, InStages s f ∨ Placed s f ∨ AwaitsReply s f) ∧
      ((∀ k, s.batchAnswered k = true) → (∀ f ∈ s.xfer.scheduledTransfers, Placed s f) ∧
        ∀ f ∈ s.remoteFiles, InStages s f ∨ Placed s f) ∧
      (s.mode = .running → (s.loopTest cfg).mode = .completed →
        ∀ f ∈ s.remoteFiles, 0 < s.xfer.counted f) := by
  have hsch : ∀ f ∈ s.xfer.scheduledTransfers, Placed s f ∨ AwaitsReply s f := by
    intro f hf
    exact placed_of_out ((reach_notLost cfg h f).scheduled (by simpa [life] using hf))
  have hman : ∀ f ∈ s.remoteFiles, InStages s f ∨ Placed s f ∨ AwaitsReply s f := by
    intro f hf
    exact placed_of_life ((reach_notLost cfg h f).known (by simpa [life] using hf))
  refine ⟨hsch, hman, fun hans => ?_, fun hrun hdone f hf => ?_⟩
  · have hno : ∀ f, ¬ AwaitsReply s f := by
      rintro f ⟨k, requested, b, hk, hr, -⟩
      rw [batchAnswered_iff.1 (hans k) requested b hk] at hr
      cases hr
    refine ⟨fun f hf => (hsch f hf).resolve_right (hno f), fun f hf => ?_⟩
    rcases hman f hf with h1 | h1 | h1
    · exact .inl h1
    · exact .inr h1
    · exact absurd h1 (hno f)
  · have hlife := (reach_notLost cfg h f).known (by simpa [life] using hf)
    obtain ⟨h1, h2, h3⟩ := life_of_complete cfg hrun hdone f
    omega

/-- Two lanes of 8 streams, no delta, blocks from 1 GiB on. -/
def twoLanes : Config where
  laneCount := 2
  streamLimit := 8
  wanStreamLimit := 8
  deltaEnabled := false
  largeFileThresholdBytes := 2 ^ 30
  largeFileBlockBytes := 2 ^ 25
  effectiveChunkSize := 2 ^ 20
  maxInFlightCompareTasks := 8192
  maxInFlightHashRequests := 8192
  ioInFlightLimitBytes := 2 ^ 30
  laneCount_pos := by decide
  streamLimit_pos := by decide
  streamLimit_le := Nat.le_refl 8
  block_pos := by decide
  chunk_pos := by decide
  compare_pos := by decide
  hash_pos := by decide

/-- The manifest lists one file of the given size, and the file has to be transferred. -/
def listAndSchedule (size : ℕ) : List (Event ℕ ℕ) :=
  [.manifestEntry 0 ⟨size, 0⟩, .manifestEnd, .compareFlush, .compareTake,
    .comparePublish 0 fun _ => .transferNow, .drainCompare false]

/-- A small file goes out in a batch on lane 1 and comes back in one chunk. -/
def batchRun : List (Event ℕ ℕ) :=
  listAndSchedule 2 ++
    [.startTransfer 1 2 true true, .fileBatchOpen (1, 1) [⟨0, 2, 0, true⟩],
      .fileBatchChunk (1, 1) [7, 9], .fileBatchEnd (1, 1), .ioTake, .ioWrite 0 true, .ioPublish 0,
      .drainIo]

/-- In `batchRun` the file of the answered batch is counted at completion. -/
theorem no_file_lost_batchRun :
    0 < ((machine ℕ ℕ twoLanes).run (State.start ℕ ℕ twoLanes) batchRun).xfer.counted 0 :=
  (no_file_lost twoLanes (Machine.reach_run (by decide))).2.2.2 (by decide) (by decide) 0
    (by decide)

/-- Lane 1 dies before the server has answered the batch it carries. -/
def lostBatch : List (Event ℕ ℕ) :=
  listAndSchedule 2 ++
    [.startTransfer 1 2 true true, .laneDown 1, .failoverScan [(1, 1)] [] [] []]

/-- **A file is lost with its batch.** The client does not record what an unanswered batch asks
for, so the failover of lane 1 requeues nothing; lane 0 is healthy, the completion test
holds, and the file that was scheduled has not been counted. -/
theorem lost_with_its_batch : ∃ s, (machine ℕ ℕ twoLanes).Reach (fun _ _ => True) s ∧
    s.pool.healthy 0 = true ∧ s.mode = .running ∧ (s.loopTest twoLanes).mode = .completed ∧
    0 ∈ s.remoteFiles ∧ 0 ∈ s.xfer.scheduledTransfers ∧ s.xfer.counted 0 = 0 ∧
    s.xfer.tally.compared = 0 :=
  ⟨(machine ℕ ℕ twoLanes).run (State.start ℕ ℕ twoLanes) lostBatch,
    Machine.reach_run (by decide), by decide, by decide, by decide, by decide, by decide, by decide,
    by decide⟩

/-! ### Runs without stale errors -/

theorem reach_once (cfg : Config) {s : State P H}
    (h : (machine P H cfg).Reach (fun s e => KeepsBatches s e ∧ CleanStep s e) s) (f : P) :
    Once (s.life f) := by
  refine h.invariant (I := fun s => Once (s.life f)) ?_ ?_
  · refine ⟨?_, rfl, rfl⟩
    constructor <;> intro h <;> cases h
  · intro s e hs hcan hok
    have hm : Moves true (s.life f) ((exec cfg s e).life f) :=
      exec_moves cfg s e hcan.2 hok.1 (fun _ => hok.2) f
    exact hm.once hs

/-- Every count is of one of the three kinds. -/
theorem compared_eq_sum (t : Tally P) : t.compared = t.unchanged + t.transferred + t.failed := by
  rw [t.compared_eq, t.unchanged_eq, t.transferred_eq, t.failed_eq]
  induction t.log with
  | nil => rfl
  | cons r log ih =>
    have hr : ∀ o : Outcome, (if o = .unchanged then 1 else 0) +
        (if o = .transferred then 1 else 0) + (if o = .failed then 1 else 0) = 1 := by
      intro o
      cases o <;> rfl
    have := hr r.2
    simp only [List.length_cons, List.countP_cons, decide_eq_true_eq]
    omega

/-- A log that names every key of the manifest once and nothing else is as long as the manifest. -/
theorem length_log {log : List (Option P × Outcome)} {m : AList fun _ : P => FileEntry}
    (hnone : (log.map Prod.fst).count none = 0)
    (hsome : ∀ f, (log.map Prod.fst).count (some f) = if f ∈ m then 1 else 0) :
    log.length = m.keys.length := by
  have hperm : (log.map Prod.fst).Perm (m.keys.map some) := by
    rw [List.perm_iff_count]
    intro o
    cases o with
    | none =>
      rw [hnone]
      symm
      rw [List.count_eq_zero]
      simp
    | some f =>
      rw [hsome, List.count_map_of_injective _ _ (Option.some_injective P)]
      split
      · rename_i hf
        exact (List.count_eq_one_of_mem m.keys_nodup hf).symm
      · rename_i hf
        exact (List.count_eq_zero.2 hf).symm
  have := hperm.length_eq
  simpa using this

/-- **Every file is counted once.** In every state reached by a run that closes no batch stream
before its reply and gets no error frame for a stream or file that is over, each manifest
file is in exactly one place and is counted at most once, nothing else is counted, and the
counters add up; when the main loop leaves by its completion test every manifest file has
been counted exactly once and `compared` is the number of manifest files. -/
theorem counted_once [Inhabited P] (cfg : Config) {s : State P H}
    (h : (machine P H cfg).Reach (fun s e => KeepsBatches s e ∧ CleanStep s e) s) :
    (∀ f, (s.life f).comparing + (s.life f).held + (s.life f).out =
        if f ∈ s.remoteFiles then 1 else 0) ∧
      (∀ f, s.xfer.counted f ≤ if f ∈ s.remoteFiles then 1 else 0) ∧
      s.xfer.strays = 0 ∧
      s.xfer.tally.compared =
        s.xfer.tally.unchanged + s.xfer.tally.transferred + s.xfer.tally.failed ∧
      (s.mode = .running → (s.loopTest cfg).mode = .completed →
        (∀ f ∈ s.remoteFiles, s.xfer.counted f = 1) ∧
          s.xfer.tally.compared = s.remoteFiles.keys.length) := by
  have htotal : ∀ f, (s.life f).comparing + (s.life f).held + (s.life f).out =
      if f ∈ s.remoteFiles then 1 else 0 := by
    intro f
    have ht := (reach_once cfg h f).total
    simpa [life] using ht
  have hcounted : ∀ f, s.xfer.counted f ≤ (s.life f).out := by
    intro f
    show _ ≤ s.xfer.queued f + s.xfer.counted f + s.streams.held f + s.io.held f
    omega
  have hstrays : s.xfer.strays = 0 := (reach_once cfg h default).strays
  refine ⟨htotal, fun f => ?_, hstrays, compared_eq_sum _, fun hrun hdone => ?_⟩
  · have h1 := htotal f
    have h2 := hcounted f
    omega
  · have hone : ∀ f, s.xfer.counted f = if f ∈ s.remoteFiles then 1 else 0 := by
      intro f
      obtain ⟨h1, h2, h3⟩ := life_of_complete cfg hrun hdone f
      have h4 := htotal f
      omega
    refine ⟨fun f hf => by rw [hone, if_pos hf], ?_⟩
    rw [s.xfer.tally.compared_eq]
    exact length_log hstrays hone

/-- In `batchRun` the counters agree with the manifest of one file. -/
theorem counted_once_batchRun :
    ((machine ℕ ℕ twoLanes).run (State.start ℕ ℕ twoLanes) batchRun).xfer.tally.compared = 1 :=
  ((counted_once twoLanes (Machine.reach_run (by decide))).2.2.2.2 (by decide) (by decide)).2

/-- A file too large for a batch is on lane 1 when that lane dies. The failover requeues it and it is
started on lane 0, and then the `FileError` lane 1 had received before is taken from the queue. -/
def staleError : List (Event ℕ ℕ) :=
  listAndSchedule (2 ^ 23) ++
    [.startTransfer 1 2 true true, .laneDown 1, .failoverScan [(1, 1)] [] [] [],
      .startTransfer 0 1 true true, .fileError (1, 1), .fileEnd (0, 1) true]

/-- **A stale `FileError` is counted.** At completion two files are counted, one as failed and one
as transferred, where the manifest has one. -/
theorem counted_twice : ∃ s, (machine ℕ ℕ twoLanes).Reach (fun _ _ => True) s ∧
    s.mode = .running ∧ (s.loopTest twoLanes).mode = .completed ∧ s.remoteFiles.keys.length = 1 ∧
    s.xfer.tally.compared = 2 ∧ s.xfer.tally.failed = 1 ∧ s.xfer.tally.transferred = 1 :=
  ⟨(machine ℕ ℕ twoLanes).run (State.start ℕ ℕ twoLanes) staleError,
    Machine.reach_run (by decide), by decide, by decide, by decide, by decide, by decide,
    by decide⟩

end FastClone.Client
