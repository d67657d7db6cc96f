import FastClone.Proof.ClientPlaces

/-!
# Where a file is: streams, batches and the write pool

A batch that has its reply holds the files of its unfinished entries; before the reply it
holds the files it asked for. Whatever a batch handler finishes turns up once in the
requests it returns.
-/

set_option linter.unusedSectionVars false

namespace FastClone.Client

open Table

variable {P H : Type} [DecidableEq P]

/-! ### Batches -/

/-- Whether an entry still holds `f`. -/
def BatchDownloadEntry.held (e : BatchDownloadEntry P) (f : P) : ℕ :=
  if e.finalized = false ∧ e.relPath = f then 1 else 0

/-- How many entries still hold `f`. -/
def entriesHeld (entries : List (BatchDownloadEntry P)) (f : P) : ℕ :=
  (entries.map fun e => e.held f).sum

/-- How many requests are about `f`. -/
def outsHeld (outs : List (BatchOut P)) (f : P) : ℕ := (outs.map BatchOut.rel).count f

theorem entriesHeld_cons (e : BatchDownloadEntry P) (l : List (BatchDownloadEntry P)) (f : P) :
    entriesHeld (e :: l) f = e.held f + entriesHeld l f := by
  simp [entriesHeld]

theorem entriesHeld_append (l l' : List (BatchDownloadEntry P)) (f : P) :
    entriesHeld (l ++ l') f = entriesHeld l f + entriesHeld l' f := by
  simp [entriesHeld]

theorem outsHeld_append (l l' : List (BatchOut P)) (f : P) :
    outsHeld (l ++ l') f = outsHeld l f + outsHeld l' f := by
  simp [outsHeld]

theorem outsHeld_flatMap {α : Type} (l : List α) (g : α → List (BatchOut P)) (f : P) :
    outsHeld (l.flatMap g) f = (l.map fun a => outsHeld (g a) f).sum := by
  induction l with
  | nil => rfl
  | cons a l ih => simp [outsHeld_append, ih]

theorem finalizeBatchEntry_held (e : BatchDownloadEntry P) (f : P) :
    e.held f = (finalizeBatchEntry e).1.held f + outsHeld (finalizeBatchEntry e).2 f := by
  unfold finalizeBatchEntry
  cases hf : e.finalized with
  | true => simp [outsHeld]
  | false =>
    cases e.serverOk <;>
      simp [BatchDownloadEntry.held, outsHeld, BatchOut.rel, hf, List.count_singleton]

theorem completeBatchEntry_held (e : BatchDownloadEntry P) (f : P) :
    e.held f = (completeBatchEntry e).1.held f + outsHeld (completeBatchEntry e).2 f := by
  unfold completeBatchEntry
  cases hf : e.finalized with
  | true => simp [outsHeld]
  | false =>
    cases hw : e.shouldWrite with
    | true =>
      simp [dispatchBatchWrite, BatchDownloadEntry.held, outsHeld, BatchOut.rel, hf,
        List.count_singleton]
    | false =>
      simp only [Bool.false_eq_true, if_false]
      exact finalizeBatchEntry_held e f

theorem openBatchEntry_held (r : BatchFileRecord P) (f : P) :
    (openBatchEntry r).1.held f + outsHeld (openBatchEntry r).2 f =
      if r.relativePath = f then 1 else 0 := by
  simp only [openBatchEntry]
  split
  · rw [← finalizeBatchEntry_held]
    simp [BatchDownloadEntry.held]
  · split
    · rw [← completeBatchEntry_held]
      simp [BatchDownloadEntry.held]
    · simp [BatchDownloadEntry.held, outsHeld]

/-- The reply hands every requested path to an entry or to a request. -/
theorem batchOpen_held (records : List (BatchFileRecord P)) (f : P) :
    entriesHeld (BatchDownloadState.open records).1.entries f +
      outsHeld (BatchDownloadState.open records).2 f =
      (records.map BatchFileRecord.relativePath).count f := by
  simp only [BatchDownloadState.open, outsHeld_flatMap]
  induction records with
  | nil => rfl
  | cons r records ih =>
    have h := openBatchEntry_held r f
    simp only [List.map_cons, entriesHeld_cons, List.sum_cons, List.count_cons, beq_iff_eq]
    omega

theorem feedBatch_held (entries : List (BatchDownloadEntry P)) (payload : List UInt8) (f : P) :
    entriesHeld entries f = entriesHeld (feedBatch entries payload).1 f +
      entriesHeld (feedBatch entries payload).2.1 f + outsHeld (feedBatch entries payload).2.2 f := by
  induction entries generalizing payload with
  | nil => simp [feedBatch, entriesHeld, outsHeld]
  | cons e entries ih =>
    cases payload with
    | nil => simp [feedBatch, entriesHeld, outsHeld]
    | cons b payload =>
      unfold feedBatch
      split
      · -- the entry is passed; it may be finished here
        have hd : e.held f = (if !e.finalized && decide (e.fileSize ≤ e.received)
            then completeBatchEntry e else (e, [])).1.held f +
            outsHeld (if !e.finalized && decide (e.fileSize ≤ e.received)
              then completeBatchEntry e else (e, [])).2 f := by
          split
          · exact completeBatchEntry_held e f
          · simp [outsHeld]
        have h := ih (b :: payload)
        simp only [entriesHeld_cons, outsHeld_append]
        omega
      · have he : (e.receive (b :: payload)).held f = e.held f := rfl
        dsimp only
        split
        · have hd := completeBatchEntry_held (e.receive (b :: payload)) f
          have h := ih ((b :: payload).drop (e.room (b :: payload)))
          simp only [entriesHeld_cons, outsHeld_append]
          omega
        · simp only [entriesHeld_cons, he]
          simp [entriesHeld, outsHeld]

/-- A chunk finishes entries into requests and leaves the rest. -/
theorem batchChunk_held (b : BatchDownloadState P) (payload : List UInt8) (f : P) :
    entriesHeld b.entries f = entriesHeld (b.chunk payload).1.entries f +
      outsHeld (b.chunk payload).2 f := by
  have h := feedBatch_held (b.entries.drop b.currentIndex) payload f
  have hs : entriesHeld b.entries f = entriesHeld (b.entries.take b.currentIndex) f +
      entriesHeld (b.entries.drop b.currentIndex) f := by
    rw [← entriesHeld_append, List.take_append_drop]
  simp only [BatchDownloadState.chunk, entriesHeld_append]
  omega

theorem outsHeld_entries (g : BatchDownloadEntry P → List (BatchOut P)) (f : P)
    (hg : ∀ e, outsHeld (g e) f = e.held f) (entries : List (BatchDownloadEntry P)) :
    outsHeld (entries.flatMap g) f = entriesHeld entries f := by
  rw [outsHeld_flatMap, entriesHeld]
  simp only [hg]

theorem endBatchEntry_held (e : BatchDownloadEntry P) (f : P) :
    outsHeld (endBatchEntry e) f = e.held f := by
  unfold endBatchEntry
  cases hf : e.finalized with
  | true => simp [outsHeld, BatchDownloadEntry.held, hf]
  | false =>
    cases hs : e.serverOk <;> cases hw : e.shouldWrite <;>
      by_cases hr : e.received < e.fileSize <;>
        simp [completeBatchEntry, finalizeBatchEntry, dispatchBatchWrite, outsHeld, BatchOut.rel,
          BatchDownloadEntry.held, hf, hs, hw, hr, List.count_singleton]

theorem errorBatchEntry_held (e : BatchDownloadEntry P) (f : P) :
    outsHeld (errorBatchEntry e) f = e.held f := by
  unfold errorBatchEntry
  cases hf : e.finalized with
  | true => simp [outsHeld, BatchDownloadEntry.held, hf]
  | false =>
    cases e.serverOk <;>
      simp [finalizeBatchEntry, outsHeld, BatchOut.rel, BatchDownloadEntry.held, hf,
        List.count_singleton]

theorem failoverBatchEntry_held (e : BatchDownloadEntry P) (f : P) :
    outsHeld (failoverBatchEntry e) f = e.held f := by
  unfold failoverBatchEntry
  cases hf : e.finalized <;>
    simp [outsHeld, BatchOut.rel, BatchDownloadEntry.held, hf, List.count_singleton]

/-! ### Streams -/

/-- How often a stream holds `f` in the transfer machinery. Ranges belong to their file's state. -/
def Stream.held : Stream P → P → ℕ
  | .download rel, f => if rel = f then 1 else 0
  | .batch requested b, f => if b.headerReady then entriesHeld b.entries f else requested.count f
  | .deltaRange _, _ => 0
  | .fileRange _, _ => 0

/-- How often the open streams hold `f`. -/
def Streams.held (s : Streams P) (f : P) : ℕ := total (fun _ st => st.held f) s.table

namespace Streams

theorem nextKey_free (s : Streams P) (conn : ℕ) : s.table.lookup (s.nextKey conn) = .none := by
  rw [AList.lookup_eq_none]
  intro hm
  have := s.below _ hm
  simp [nextKey] at this

section

variable (w : Stream P → ℕ) {s : Streams P} {k : Key} {st : Stream P}

theorem total_openNext (s : Streams P) (conn : ℕ) (st : Stream P) :
    total (fun _ st => w st) (s.openNext conn st).table =
      total (fun _ st => w st) s.table + w st := by
  have h := total_insert_new (w := fun _ st => w st) (s.nextKey_free conn) st
  simp only [openNext, h]
  omega

theorem total_close (h : s.find k = some st) :
    total (fun _ st => w st) s.table = total (fun _ st => w st) (s.close k).table + w st := by
  have h' := total_erase (w := fun _ st => w st) (show s.table.lookup k = some st from h)
  simp only [close, h']
  omega

theorem total_update (h : s.find k = some st) (st' : Stream P) :
    total (fun _ st => w st) (s.update k st').table + w st =
      total (fun _ st => w st) s.table + w st' := by
  have hl : s.table.lookup k = some st := h
  have hm : k ∈ s.table := by
    rw [← AList.lookup_isSome, hl]
    rfl
  have h' := total_erase (w := fun _ st => w st) hl
  simp only [update, hm, dite_true, total_insert, h']
  omega

end

theorem held_openNext (s : Streams P) (conn : ℕ) (st : Stream P) (f : P) :
    (s.openNext conn st).held f = s.held f + st.held f :=
  total_openNext (fun st => st.held f) s conn st

theorem held_close {s : Streams P} {k : Key} {st : Stream P} (h : s.find k = some st) (f : P) :
    s.held f = (s.close k).held f + st.held f :=
  total_close (fun st => st.held f) h

theorem held_update {s : Streams P} {k : Key} {st : Stream P} (h : s.find k = some st)
    (st' : Stream P) (f : P) : (s.update k st').held f + st.held f = s.held f + st'.held f :=
  total_update (fun st => st.held f) h st'

theorem close_absent {s : Streams P} {k : Key} (h : s.find k = .none) : s.close k = s := by
  obtain ⟨table, nextStreamId, below⟩ := s
  simp only [close, mk.injEq, and_true]
  exact erase_absent h

theorem find_close_ne {s : Streams P} {k j : Key} (h : j ≠ k) : (s.close k).find j = s.find j :=
  AList.lookup_erase_ne h

/-- No stream of a kind is open. -/
theorem countWhere_eq_zero {s : Streams P} {p : Stream P → Bool} (h : s.countWhere p = 0) {k : Key}
    {st : Stream P} (hk : s.find k = some st) : p st = false := by
  have hm : (⟨k, st⟩ : Sigma fun _ : Key => Stream P) ∈ s.table.entries := AList.mem_lookup_iff.1 hk
  have := List.countP_eq_zero.1 h _ hm
  simpa using this

/-- Without single and batch streams no stream holds a file. -/
theorem held_of_no_transfers {s : Streams P} (hd : s.countWhere Stream.isDownload = 0)
    (hb : s.countWhere Stream.isBatch = 0) (f : P) : s.held f = 0 := by
  by_contra hne
  obtain ⟨k, st, hk, hpos⟩ := exists_of_total_pos (Nat.pos_of_ne_zero hne)
  have h1 := countWhere_eq_zero hd hk
  have h2 := countWhere_eq_zero hb hk
  cases st <;> simp [Stream.isDownload, Stream.isBatch, Stream.held] at h1 h2 hpos

end Streams

/-! ### Write pool -/

/-- How often the batch of a worker holds `f`. -/
def IoBatch.held (b : IoBatch P) (f : P) : ℕ :=
  (b.todo.map IoWriteTask.relPath).count f + (b.done.map Prod.fst).count f

namespace IoPool

/-- How often the pool holds `f`. -/
def held (io : IoPool P) (f : P) : ℕ :=
  (io.ioTasks.map IoWriteTask.relPath).count f + (io.running.map fun b => b.held f).sum +
    (io.ioResults.map Prod.fst).count f

theorem held_dispatch (io : IoPool P) (t : IoWriteTask P) (f : P) :
    (io.dispatch t).held f = io.held f + if t.relPath = f then 1 else 0 := by
  simp only [held, dispatch, List.map_append, List.count_append, List.map_cons, List.map_nil,
    List.count_singleton, beq_iff_eq]
  omega

theorem held_workerTake (io : IoPool P) (f : P) : io.workerTake.held f = io.held f := by
  have h := CompareStage.count_take_drop (io.ioTasks.map IoWriteTask.relPath) kIoBatchPop f
  rw [← List.map_take, ← List.map_drop] at h
  simp only [held, workerTake, List.map_cons, List.sum_cons, IoBatch.held, List.map_nil,
    List.count_nil]
  omega

theorem held_writeNext (ok : Bool) (b : IoBatch P) (f : P) : (writeNext ok b).held f = b.held f := by
  unfold writeNext
  cases h : b.todo with
  | nil => rfl
  | cons t rest =>
    simp only [IoBatch.held, h, List.map_append, List.count_append, List.map_cons, List.map_nil,
      List.count_cons, List.count_nil]
    omega

theorem held_workerWrite (io : IoPool P) (i : ℕ) (ok : Bool) (f : P) :
    (io.workerWrite i ok).held f = io.held f := by
  have h := sum_modify (fun b : IoBatch P => b.held f) (writeNext ok)
    (fun b => held_writeNext ok b f) io.running i
  simp only [held, workerWrite, h]

theorem held_workerPublish (io : IoPool P) (i : ℕ) (f : P) :
    (io.workerPublish i).held f = io.held f := by
  unfold workerPublish
  split
  · rfl
  · rename_i b h
    split
    · rename_i ht
      have hs := sum_eraseIdx (fun b : IoBatch P => b.held f) io.running i b h
      have hb : b.held f = (b.done.map Prod.fst).count f := by simp [IoBatch.held, ht]
      simp only [held, List.map_append, List.count_append]
      omega
    · rfl

/-- A drained result leaves the pool. -/
theorem held_drainOne {io io' : IoPool P} {r : P × Bool} (h : io.drainOne = some (r, io')) (f : P) :
    io.held f = io'.held f + if r.1 = f then 1 else 0 := by
  unfold drainOne at h
  split at h
  · cases h
  · rename_i r' rest hr
    obtain ⟨rfl, rfl⟩ := Prod.mk.inj (Option.some.inj h)
    simp only [held, hr, List.map_cons, List.count_cons, beq_iff_eq]
    omega

/-- A pool with nothing outstanding holds no file. -/
theorem held_of_idle {io : IoPool P} (h : io.ioOutstanding = 0) (f : P) : io.held f = 0 := by
  have he := io.outstanding_eq
  have h1 : io.ioTasks = [] := List.eq_nil_of_length_eq_zero (by omega)
  have h2 : io.ioResults = [] := List.eq_nil_of_length_eq_zero (by omega)
  have h3 : ioRunning io.running = 0 := by omega
  have h4 : (io.running.map fun b => b.held f).sum = 0 := by
    apply List.sum_eq_zero
    intro n hn
    obtain ⟨b, hb, rfl⟩ := List.mem_map.1 hn
    have hz := List.sum_eq_zero_iff_forall_eq_nat.1 h3 _
      (List.mem_map_of_mem hb)
    have ht : b.todo = [] := List.eq_nil_of_length_eq_zero (by omega)
    have hd : b.done = [] := List.eq_nil_of_length_eq_zero (by omega)
    simp [IoBatch.held, ht, hd]
  simp [held, h1, h2, h4]

end IoPool

end FastClone.Client
