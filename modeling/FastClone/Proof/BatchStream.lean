import FastClone.Spec.BatchStream

/-!
# Batch stream round trip

* `entriesAfter records D`: the client's entries after the bytes `D` of the stream. Any
  chunk leads from there to the entries after more bytes (`feedBatch_entriesAfter`).
* `Sends files s D`: the server stream `s` has sent the bytes `D`. The burst loop keeps it
  (`sends_burst`).
* `batch_round_trip`: the two composed.
-/

namespace FastClone.Server

open FastClone.Client

variable {P : Type}

/-! ### The client after some bytes -/

/-- What follows the part of a record in the stream. -/
def after (r : BatchFileRecord P) (D : List UInt8) : List UInt8 := if r.ok then D.drop r.fileSize else D

/-- The entry of a record when `D` is the stream from its part on. -/
def entryAfter (r : BatchFileRecord P) (D : List UInt8) : BatchDownloadEntry P :=
  { relPath := r.relativePath
    fileSize := r.fileSize
    mtimeNs := r.mtimeNs
    serverOk := r.ok
    shouldWrite := r.ok
    finalized := !r.ok || decide (r.fileSize ≤ D.length)
    received := if r.ok then min r.fileSize D.length else 0
    buffer := if r.ok && decide (D.length < r.fileSize) then D else [] }

/-- All entries after the bytes `D` of the stream. -/
def entriesAfter : List (BatchFileRecord P) → List UInt8 → List (BatchDownloadEntry P)
  | [], _ => []
  | r :: rs, D => entryAfter r D :: entriesAfter rs (after r D)

/-- What a record has asked for after the bytes `D` from its part on. -/
def outOf (r : BatchFileRecord P) (D : List UInt8) : List (BatchOut P) :=
  if r.ok then
    if r.fileSize ≤ D.length then [.write ⟨r.relativePath, D.take r.fileSize, r.mtimeNs⟩] else []
  else [.fail r.relativePath]

/-- All requests after the bytes `D`. -/
def outsAfter : List (BatchFileRecord P) → List UInt8 → List (BatchOut P)
  | [], _ => []
  | r :: rs, D => outOf r D ++ outsAfter rs (after r D)

/-- The requests between `D` and the longer `D'`. -/
def outsBetween : List (BatchFileRecord P) → List UInt8 → List UInt8 → List (BatchOut P)
  | [], _, _ => []
  | r :: rs, D, D' =>
    (if r.ok && decide (D.length < r.fileSize) then outOf r D' else []) ++
      outsBetween rs (after r D) (after r D')

theorem openBatchEntry_eq (r : BatchFileRecord P) :
    (openBatchEntry r).1 = entryAfter r [] ∧ (openBatchEntry r).2 = outOf r [] := by
  unfold openBatchEntry entryAfter outOf
  cases hok : r.ok with
  | false => exact ⟨by simp [finalizeBatchEntry], by simp [finalizeBatchEntry]⟩
  | true =>
    by_cases hsize : r.fileSize = 0
    · simp [hsize, completeBatchEntry, dispatchBatchWrite]
    · simp [hsize, Nat.pos_of_ne_zero hsize]

theorem after_nil (r : BatchFileRecord P) : after r [] = [] := by
  unfold after
  split
  · exact List.drop_nil
  · rfl

theorem map_openBatchEntry (rs : List (BatchFileRecord P)) :
    rs.map (fun r => (openBatchEntry r).1) = entriesAfter rs [] := by
  induction rs with
  | nil => rfl
  | cons r rs ih => rw [List.map_cons, ih, (openBatchEntry_eq r).1, entriesAfter, after_nil]

theorem flatMap_openBatchEntry (rs : List (BatchFileRecord P)) :
    rs.flatMap (fun r => (openBatchEntry r).2) = outsAfter rs [] := by
  induction rs with
  | nil => rfl
  | cons r rs ih => rw [List.flatMap_cons, ih, (openBatchEntry_eq r).2, outsAfter, after_nil]

/-- A finished entry does not change with more bytes. -/
theorem entryAfter_append {r : BatchFileRecord P} {D : List UInt8}
    (h : (entryAfter r D).finalized = true) (p : List UInt8) :
    entryAfter r (D ++ p) = entryAfter r D ∧ after r (D ++ p) = after r D ++ p ∧
      (r.ok && decide (D.length < r.fileSize)) = false := by
  unfold entryAfter at h ⊢
  unfold after
  cases hok : r.ok with
  | false => simp
  | true =>
    have hle : r.fileSize ≤ D.length := by simpa [hok] using h
    refine ⟨?_, ?_, by simp; omega⟩
    · simp only [List.length_append]
      simp [hle, show r.fileSize ≤ D.length + p.length by omega, show ¬ D.length < r.fileSize by omega,
        show ¬ D.length + p.length < r.fileSize by omega]
    · simp only [if_true]
      rw [List.drop_append_of_le_length hle]

/-- An entry that is not finished waits for bytes. -/
theorem open_of_not_finalized {r : BatchFileRecord P} {D : List UInt8}
    (h : (entryAfter r D).finalized = false) : r.ok = true ∧ D.length < r.fileSize := by
  unfold entryAfter at h
  simp only [Bool.or_eq_false_iff, Bool.not_eq_false', decide_eq_false_iff_not] at h
  exact ⟨h.1, by omega⟩

/-- The handler's turn at an entry that waits for bytes. -/
theorem receive_entryAfter {r : BatchFileRecord P} {D p : List UInt8} (hok : r.ok = true)
    (hD : D.length < r.fileSize) :
    (entryAfter r D).room p = min (r.fileSize - D.length) p.length ∧
    ((entryAfter r D).receive p).received = min r.fileSize (D.length + p.length) ∧
    ((entryAfter r D).receive p).buffer = (D ++ p).take r.fileSize := by
  have hroom : (entryAfter r D).room p = min (r.fileSize - D.length) p.length := by
    simp only [BatchDownloadEntry.room, entryAfter, hok, if_true]
    rw [Nat.min_eq_right (Nat.le_of_lt hD)]
  refine ⟨hroom, ?_, ?_⟩
  · simp only [BatchDownloadEntry.receive, hroom]
    simp only [entryAfter, hok, if_true]
    omega
  · simp only [BatchDownloadEntry.receive, hroom]
    simp only [entryAfter, hok, hD, decide_true, Bool.and_true, if_true]
    rw [List.take_append, List.take_of_length_le (Nat.le_of_lt hD)]
    congr 1
    exact List.take_eq_take_iff.2 (by omega)

/-- The entry that took all of a payload and still waits. -/
theorem receive_open {r : BatchFileRecord P} {D p : List UInt8} (hok : r.ok = true)
    (hD : (D ++ p).length < r.fileSize) : (entryAfter r D).receive p = entryAfter r (D ++ p) := by
  rw [List.length_append] at hD
  obtain ⟨hroom, hrec, hbuf⟩ := receive_entryAfter (p := p) hok (show D.length < r.fileSize by omega)
  rw [List.take_of_length_le (by rw [List.length_append]; omega)] at hbuf
  have hfields : (entryAfter r D).receive p = { entryAfter r D with
      buffer := ((entryAfter r D).receive p).buffer
      received := ((entryAfter r D).receive p).received } := rfl
  rw [hfields, hrec, hbuf]
  simp only [entryAfter, hok, List.length_append]
  simp [hD, show ¬ r.fileSize ≤ D.length by omega, show ¬ r.fileSize ≤ D.length + p.length by omega]

/-- The entry that a payload completes. -/
theorem complete_receive {r : BatchFileRecord P} {D p : List UInt8} (hok : r.ok = true)
    (hD : D.length < r.fileSize) (hp : r.fileSize ≤ (D ++ p).length) :
    completeBatchEntry ((entryAfter r D).receive p) = (entryAfter r (D ++ p), outOf r (D ++ p)) := by
  obtain ⟨hroom, hrec, hbuf⟩ := receive_entryAfter (p := p) hok hD
  have hfields : (entryAfter r D).receive p = { entryAfter r D with
      buffer := ((entryAfter r D).receive p).buffer
      received := ((entryAfter r D).receive p).received } := rfl
  rw [hfields, hrec, hbuf]
  rw [List.length_append] at hp
  simp only [completeBatchEntry, dispatchBatchWrite, entryAfter, outOf, hok, List.length_append]
  simp [hp, show ¬ r.fileSize ≤ D.length by omega, show ¬ D.length + p.length < r.fileSize by omega]

theorem outsBetween_self (rs : List (BatchFileRecord P)) (D : List UInt8) : outsBetween rs D D = [] := by
  induction rs generalizing D with
  | nil => rfl
  | cons r rs ih =>
    rw [outsBetween, ih, List.append_nil]
    split
    · rename_i h
      simp only [Bool.and_eq_true, decide_eq_true_eq] at h
      unfold outOf
      rw [if_pos h.1, if_neg (by omega)]
    · rfl

/-- **One payload**: the entries move on to those after more bytes, those passed are
finished, and the requests are those in between. -/
theorem feedBatch_entriesAfter (rs : List (BatchFileRecord P)) (D p : List UInt8) :
    let q := feedBatch (entriesAfter rs D) p
    q.1 ++ q.2.1 = entriesAfter rs (D ++ p) ∧ (∀ e ∈ q.1, e.finalized = true) ∧
      q.2.2 = outsBetween rs D (D ++ p) := by
  induction rs generalizing D p with
  | nil => cases p <;> exact ⟨rfl, by simp [feedBatch, entriesAfter], rfl⟩
  | cons r rs ih =>
    cases p with
    | nil =>
      rw [List.append_nil]
      exact ⟨rfl, by simp [feedBatch, entriesAfter], (outsBetween_self _ _).symm⟩
    | cons b p =>
      rw [entriesAfter]
      by_cases hfin : (entryAfter r D).finalized = true
      · obtain ⟨hentry, hafter, hbetween⟩ := entryAfter_append hfin (b :: p)
        have hq := ih (after r D) (b :: p)
        rw [feedBatch, if_pos (by simp [hfin])]
        simp only [hfin, Bool.not_true, Bool.false_and, Bool.false_eq_true, if_false]
        refine ⟨?_, ?_, ?_⟩
        · rw [entriesAfter, hentry, hafter, ← hq.1]
          rfl
        · intro e he
          rcases List.mem_cons.1 he with rfl | he
          · exact hfin
          · exact hq.2.1 e he
        · rw [outsBetween, hbetween, hafter, ← hq.2.2]
          rfl
      · obtain ⟨hok, hD⟩ := open_of_not_finalized (by simpa using hfin)
        have hdrop : after r D = [] := by
          unfold after
          rw [if_pos hok, List.drop_of_length_le (Nat.le_of_lt hD)]
        obtain ⟨hroom, hrec, -⟩ := receive_entryAfter (p := b :: p) hok hD
        have hsize : ((entryAfter r D).receive (b :: p)).fileSize = r.fileSize := rfl
        have hguard : ((entryAfter r D).finalized || (entryAfter r D).fileSize == 0 ||
            decide ((entryAfter r D).fileSize ≤ (entryAfter r D).received)) = false := by
          simp only [entryAfter, hok]
          simp
          omega
        rw [feedBatch, if_neg (by rw [hguard]; simp)]
        dsimp only
        rw [hsize, hrec]
        by_cases hp : r.fileSize ≤ (D ++ b :: p).length
        · rw [List.length_append] at hp
          -- the payload completes this entry; the rest of it goes on
          have hrest : after r (D ++ b :: p) = [] ++ (b :: p).drop (r.fileSize - D.length) := by
            unfold after
            rw [if_pos hok, List.drop_append, List.drop_of_length_le (Nat.le_of_lt hD)]
          have hdrop' : (b :: p).drop (min (r.fileSize - D.length) (b :: p).length) =
              (b :: p).drop (r.fileSize - D.length) := by
            rw [Nat.min_eq_left (by omega)]
          have hcomp := complete_receive (p := b :: p) hok hD (by rw [List.length_append]; exact hp)
          have hq := ih [] ((b :: p).drop (r.fileSize - D.length))
          rw [if_pos (by omega), hcomp, hroom, hdrop', hdrop]
          refine ⟨?_, ?_, ?_⟩
          · rw [entriesAfter, hrest, ← hq.1]
            rfl
          · intro e he
            rcases List.mem_cons.1 he with rfl | he
            · show (!r.ok || decide (r.fileSize ≤ (D ++ b :: p).length)) = true
              rw [List.length_append, decide_eq_true hp, Bool.or_true]
            · exact hq.2.1 e he
          · rw [outsBetween, hrest, hdrop, ← hq.2.2, if_pos (by simp [hok, hD])]
        · rw [List.length_append] at hp
          have hopen := receive_open (p := b :: p) hok (show (D ++ b :: p).length < r.fileSize by
            rw [List.length_append]; omega)
          have hrest : after r (D ++ b :: p) = [] := by
            unfold after
            rw [if_pos hok, List.drop_of_length_le]
            rw [List.length_append]
            omega
          rw [if_neg (by omega), hopen]
          refine ⟨?_, by simp, ?_⟩
          · rw [entriesAfter, hrest, hdrop]
            rfl
          · have hout : outOf r (D ++ b :: p) = [] := by
              unfold outOf
              rw [if_pos hok, if_neg (by rw [List.length_append]; omega)]
            rw [outsBetween, hrest, hdrop, outsBetween_self, List.append_nil, hout, ite_self]

/-- Finished entries at the front are passed without a request. -/
theorem feedBatch_skip {l : List (BatchDownloadEntry P)} (hl : ∀ e ∈ l, e.finalized = true)
    (l' : List (BatchDownloadEntry P)) {p : List UInt8} (hp : p ≠ []) :
    feedBatch (l ++ l') p =
      (l ++ (feedBatch l' p).1, (feedBatch l' p).2.1, (feedBatch l' p).2.2) := by
  induction l with
  | nil => rfl
  | cons e l ih =>
    have he := hl e (List.mem_cons_self ..)
    have hih := ih fun x hx => hl x (List.mem_cons_of_mem _ hx)
    obtain ⟨b, q, rfl⟩ := List.exists_cons_of_ne_nil hp
    rw [List.cons_append, feedBatch, if_pos (by simp [he]), hih]
    simp [he]

/-- The client has received the bytes `D` of the batch with these records. -/
structure Reached (batch : BatchDownloadState P) (rs : List (BatchFileRecord P)) (D : List UInt8) : Prop where
  ready : batch.headerReady = true
  entries : batch.entries = entriesAfter rs D
  index_le : batch.currentIndex ≤ batch.entries.length
  passed : ∀ e ∈ batch.entries.take batch.currentIndex, e.finalized = true

theorem reached_open (rs : List (BatchFileRecord P)) :
    Reached (BatchDownloadState.open rs).1 rs [] ∧ (BatchDownloadState.open rs).2 = outsAfter rs [] := by
  refine ⟨⟨rfl, map_openBatchEntry rs, ?_, ?_⟩, flatMap_openBatchEntry rs⟩
  · exact (List.takeWhile_sublist _).length_le
  · intro e he
    have htake : (BatchDownloadState.open rs).1.entries.take (BatchDownloadState.open rs).1.currentIndex =
        (BatchDownloadState.open rs).1.entries.takeWhile fun e => e.finalized || e.fileSize == 0 :=
      (List.prefix_iff_eq_take.1 (List.takeWhile_prefix _)).symm
    rw [htake] at he
    have hguard := List.all_eq_true.1 List.all_takeWhile e he
    have hmem : e ∈ entriesAfter rs [] := by
      rw [← map_openBatchEntry rs]
      exact (List.takeWhile_sublist _).subset he
    -- an empty file is finished when the header is read
    have hempty : ∀ (rs : List (BatchFileRecord P)), ∀ e ∈ entriesAfter rs [], e.fileSize = 0 →
        e.finalized = true := by
      intro rs
      induction rs with
      | nil => intro e he; cases he
      | cons r rs ih =>
        intro e he h0
        rw [entriesAfter, after_nil] at he
        rcases List.mem_cons.1 he with rfl | he
        · have h0' : r.fileSize = 0 := h0
          simp [entryAfter, h0']
        · exact ih e he h0
    simp only [Bool.or_eq_true, beq_iff_eq] at hguard
    rcases hguard with h | h
    · exact h
    · exact hempty rs e hmem h

/-- **One chunk at the client.** -/
theorem reached_chunk {batch : BatchDownloadState P} {rs : List (BatchFileRecord P)} {D : List UInt8}
    (h : Reached batch rs D) (p : List UInt8) :
    Reached (batch.chunk p).1 rs (D ++ p) ∧ (batch.chunk p).2 = outsBetween rs D (D ++ p) := by
  have hsplit : batch.entries.take batch.currentIndex ++ batch.entries.drop batch.currentIndex =
      entriesAfter rs D := by
    rw [List.take_append_drop, h.entries]
  by_cases hp : p = []
  · subst hp
    have hfeed : feedBatch (batch.entries.drop batch.currentIndex) [] =
        ([], batch.entries.drop batch.currentIndex, []) := by
      cases batch.entries.drop batch.currentIndex <;> rfl
    have hbatch : batch.chunk [] = (batch, []) := by
      unfold BatchDownloadState.chunk
      dsimp only
      rw [hfeed, List.append_nil, List.take_append_drop]
      rfl
    rw [hbatch, List.append_nil]
    exact ⟨h, (outsBetween_self rs D).symm⟩
  · have hskip := feedBatch_skip h.passed (batch.entries.drop batch.currentIndex) hp
    have hfeed := feedBatch_entriesAfter rs D p
    rw [hsplit] at hskip
    dsimp only at hfeed
    rw [hskip] at hfeed
    obtain ⟨hentries, hpassed, houts⟩ := hfeed
    have hlen : (batch.entries.take batch.currentIndex).length = batch.currentIndex := by
      rw [List.length_take]
      exact Nat.min_eq_left h.index_le
    refine ⟨⟨h.ready, hentries, ?_, ?_⟩, houts⟩
    · show batch.currentIndex + _ ≤ (_ ++ _ ++ _ : List (BatchDownloadEntry P)).length
      rw [List.length_append, List.length_append, hlen]
      omega
    · show ∀ e ∈ (_ ++ _ ++ _ : List (BatchDownloadEntry P)).take (batch.currentIndex + _), _
      rw [List.take_left' (by rw [List.length_append, hlen])]
      exact hpassed

theorem append_interleave {α : Type} (a A b B : List α) :
    ((a ++ A) ++ (b ++ B)).Perm ((a ++ b) ++ (A ++ B)) := by
  rw [List.append_assoc, List.append_assoc]
  refine List.Perm.append_left _ ?_
  rw [← List.append_assoc, ← List.append_assoc]
  exact List.Perm.append_right _ List.perm_append_comm

theorem after_append (r : BatchFileRecord P) (D p : List UInt8) :
    ∃ p', after r (D ++ p) = after r D ++ p' := by
  unfold after
  split
  · exact ⟨_, List.drop_append⟩
  · exact ⟨p, rfl⟩

/-- What one record asks for, now or when the bytes have come. -/
theorem outOf_between (r : BatchFileRecord P) (D p : List UInt8) :
    outOf r D ++ (if r.ok && decide (D.length < r.fileSize) then outOf r (D ++ p) else []) =
      outOf r (D ++ p) := by
  unfold outOf
  cases hok : r.ok with
  | false => simp
  | true =>
    by_cases hD : D.length < r.fileSize
    · simp [hD, show ¬ r.fileSize ≤ D.length by omega]
    · have hle : r.fileSize ≤ D.length := by omega
      simp only [hD, hle, List.length_append, decide_false, Bool.and_false, Bool.false_eq_true, if_true,
        if_false, List.append_nil, show r.fileSize ≤ D.length + p.length by omega]
      rw [List.take_append_of_le_length hle]

/-- The requests so far and those in between are the requests after more bytes. -/
theorem outsAfter_between (rs : List (BatchFileRecord P)) (D p : List UInt8) :
    (outsAfter rs D ++ outsBetween rs D (D ++ p)).Perm (outsAfter rs (D ++ p)) := by
  induction rs generalizing D p with
  | nil => exact List.Perm.refl _
  | cons r rs ih =>
    obtain ⟨p', hp'⟩ := after_append r D p
    have hrest := ih (after r D) p'
    rw [← hp'] at hrest
    have hhead := outOf_between r D p
    rw [outsAfter, outsBetween, outsAfter]
    refine (append_interleave ..).trans ?_
    rw [hhead]
    exact List.Perm.append_left _ hrest

/-- A whole run of chunks. -/
theorem reached_chunks (chunks : List (List UInt8)) {batch : BatchDownloadState P}
    {rs : List (BatchFileRecord P)} {D : List UInt8} (h : Reached batch rs D) :
    ∃ batch' outs, receive batch (chunks.map .fileBatchChunk) = .ok (batch', outs) ∧
      Reached batch' rs (D ++ chunks.flatten) ∧
      (outsAfter rs D ++ outs).Perm (outsAfter rs (D ++ chunks.flatten)) := by
  induction chunks generalizing batch D with
  | nil => exact ⟨batch, [], rfl, by simpa using h, by simp⟩
  | cons p chunks ih =>
    obtain ⟨hstep, houts⟩ := reached_chunk h p
    obtain ⟨batch', outs, hrun, hreach, hperm⟩ := ih hstep
    refine ⟨batch', (batch.chunk p).2 ++ outs, ?_, ?_, ?_⟩
    · rw [List.map_cons, receive, receiveFrame, if_pos h.ready]
      show (receive (batch.chunk p).1 _ >>= _) = _
      rw [hrun]
      rfl
    · rw [List.flatten_cons, ← List.append_assoc]
      exact hreach
    · rw [List.flatten_cons, ← List.append_assoc, ← List.append_assoc]
      refine (List.Perm.append_right _ ?_).trans hperm
      rw [houts]
      exact outsAfter_between rs D p

/-- **The header and any chunks at the client.** -/
theorem reached_stream (rs : List (BatchFileRecord P)) (chunks : List (List UInt8)) :
    ∃ batch outs, receive {} (.fileBatchOpen rs :: chunks.map .fileBatchChunk) = .ok (batch, outs) ∧
      Reached batch rs chunks.flatten ∧ outs.Perm (outsAfter rs chunks.flatten) := by
  obtain ⟨hopen, houts⟩ := reached_open rs
  obtain ⟨batch, outs, hrun, hreach, hperm⟩ := reached_chunks chunks hopen
  rw [List.nil_append] at hreach hperm
  refine ⟨batch, outsAfter rs [] ++ outs, ?_, hreach, hperm⟩
  rw [receive, receiveFrame]
  show (receive (BatchDownloadState.open rs).1 _ >>= _) = _
  rw [hrun, ← houts]
  rfl

/-- What the records ask for when the stream breaks after the bytes `D`. -/
def brokenAfter : List (BatchFileRecord P) → List UInt8 → List (BatchOut P)
  | [], _ => []
  | r :: rs, D =>
    (if (entryAfter r D).finalized then outOf r D else [.retry r.relativePath]) ++
      brokenAfter rs (after r D)

theorem errorBatchEntry_entryAfter (r : BatchFileRecord P) (D : List UInt8) :
    errorBatchEntry (entryAfter r D) =
      if (entryAfter r D).finalized then [] else [.retry r.relativePath] := by
  unfold errorBatchEntry
  by_cases hfin : (entryAfter r D).finalized = true
  · rw [if_pos hfin, if_pos hfin]
  · obtain ⟨hok, -⟩ := open_of_not_finalized (by simpa using hfin)
    rw [if_neg hfin, if_neg hfin]
    unfold finalizeBatchEntry
    rw [if_neg hfin]
    simp [entryAfter, hok]

theorem outOf_open {r : BatchFileRecord P} {D : List UInt8} (h : ¬ (entryAfter r D).finalized = true) :
    outOf r D = [] := by
  obtain ⟨hok, hD⟩ := open_of_not_finalized (by simpa using h)
  unfold outOf
  rw [if_pos hok, if_neg (by omega)]

/-- The requests so far and those of `FileError`. -/
theorem outsAfter_error (rs : List (BatchFileRecord P)) (D : List UInt8) :
    (outsAfter rs D ++ (entriesAfter rs D).flatMap errorBatchEntry).Perm (brokenAfter rs D) := by
  induction rs generalizing D with
  | nil => exact List.Perm.refl _
  | cons r rs ih =>
    have hhead : outOf r D ++ errorBatchEntry (entryAfter r D) =
        if (entryAfter r D).finalized then outOf r D else [.retry r.relativePath] := by
      rw [errorBatchEntry_entryAfter]
      split
      · rw [List.append_nil]
      · rename_i hopen
        rw [outOf_open hopen, List.nil_append]
    rw [outsAfter, entriesAfter, List.flatMap_cons, brokenAfter]
    refine (append_interleave ..).trans ?_
    rw [hhead]
    exact List.Perm.append_left _ (ih (after r D))

/-! ### The bytes of the files -/

/-- The part of a file in the stream. -/
def own (f : BatchFile P) : List UInt8 := if f.1.ok then f.2.take f.1.fileSize else []

/-- The file has the bytes its record announces. -/
def Whole (f : BatchFile P) : Prop := f.1.ok = true → f.1.fileSize ≤ f.2.length

theorem after_own {f : BatchFile P} (hf : Whole f) (D : List UInt8) : after f.1 (own f ++ D) = D := by
  unfold after own
  split
  · rename_i hok
    exact List.drop_left' (by rw [List.length_take]; exact Nat.min_eq_left (hf hok))
  · rfl

theorem entryAfter_own {f : BatchFile P} (hf : Whole f) (D : List UInt8) :
    (entryAfter f.1 (own f ++ D)).finalized = true ∧ outOf f.1 (own f ++ D) = [delivered f] := by
  unfold entryAfter outOf own delivered
  by_cases hok : f.1.ok = true
  · have hlen : (f.2.take f.1.fileSize).length = f.1.fileSize := by
      rw [List.length_take]
      exact Nat.min_eq_left (hf hok)
    have hle : f.1.fileSize ≤ (f.2.take f.1.fileSize ++ D).length := by
      rw [List.length_append, hlen]
      omega
    simp only [hok, if_true]
    rw [if_pos hle, List.take_left' hlen]
    exact ⟨by simp only [decide_eq_true hle, Bool.or_true], rfl⟩
  · rw [if_neg hok, if_neg hok, if_neg hok]
    simp [hok]

/-- **All bytes**: every file is delivered and every entry is finished. -/
theorem whole_stream (files : List (BatchFile P)) (h : ∀ f ∈ files, Whole f) :
    outsAfter (files.map Prod.fst) (files.flatMap own) = files.map delivered ∧
      ∀ e ∈ entriesAfter (files.map Prod.fst) (files.flatMap own), e.finalized = true := by
  induction files with
  | nil => exact ⟨rfl, by intro e he; cases he⟩
  | cons f files ih =>
    have hf := h f (List.mem_cons_self ..)
    obtain ⟨houts, hfin⟩ := ih fun g hg => h g (List.mem_cons_of_mem _ hg)
    obtain ⟨hfin', hout⟩ := entryAfter_own hf (files.flatMap own)
    rw [List.map_cons, List.flatMap_cons, outsAfter, entriesAfter, after_own hf, houts, hout]
    refine ⟨rfl, ?_⟩
    intro e he
    rcases List.mem_cons.1 he with rfl | he
    · exact hfin'
    · exact hfin e he

/-- Nothing has arrived: what needs bytes is retried. -/
theorem brokenAfter_nil (files : List (BatchFile P)) :
    brokenAfter (files.map Prod.fst) [] = outcome files 0 := by
  induction files with
  | nil => rfl
  | cons f files ih =>
    rw [List.map_cons, brokenAfter, after_nil, ih, outcome]
    unfold entryAfter outOf delivered
    cases hok : f.1.ok with
    | false => simp
    | true =>
      by_cases h0 : f.1.fileSize = 0
      · simp [h0]
      · simp [h0]

/-- The bytes of whole files, then a proper part of the next one. -/
structure Carries (files : List (BatchFile P)) (D : List UInt8) : Prop where
  split : ∃ l r part, files = l ++ r ∧ (∀ f ∈ l, Whole f) ∧ D = l.flatMap own ++ part ∧
    (part = [] ∨ ∃ f fs, r = f :: fs ∧ f.1.ok = true ∧ part <+: f.2 ∧ part.length < f.1.fileSize)

/-- **A part of the stream**: each file is delivered or retried. -/
theorem brokenAfter_carries {files : List (BatchFile P)} {D : List UInt8} (h : Carries files D) :
    brokenAfter (files.map Prod.fst) D = outcome files D.length := by
  obtain ⟨l, r, part, rfl, hl, rfl, hpart⟩ := h.split
  induction l with
  | nil =>
    rw [List.flatMap_nil, List.nil_append, List.nil_append]
    rcases hpart with rfl | ⟨f, fs, rfl, hok, -, hlt⟩
    · exact brokenAfter_nil r
    · have hafter : after f.1 part = [] := by
        unfold after
        rw [if_pos hok, List.drop_of_length_le (Nat.le_of_lt hlt)]
      have hopen : ¬ (entryAfter f.1 part).finalized = true := by
        simp only [entryAfter, hok]
        simp
        omega
      rw [List.map_cons, brokenAfter, hafter, if_neg hopen, brokenAfter_nil, outcome, if_pos hok,
        if_neg (by omega), Nat.sub_eq_zero_of_le (Nat.le_of_lt hlt)]
      rfl
  | cons f l ih =>
    have hf := hl f (List.mem_cons_self ..)
    have hrest := ih (fun g hg => hl g (List.mem_cons_of_mem _ hg))
      ⟨l, r, part, rfl, fun g hg => hl g (List.mem_cons_of_mem _ hg), rfl, hpart⟩
    obtain ⟨hfin, hout⟩ := entryAfter_own hf (l.flatMap own ++ part)
    rw [List.flatMap_cons, List.cons_append, List.map_cons, List.append_assoc, brokenAfter, after_own hf,
      if_pos hfin, hout, hrest, outcome]
    by_cases hok : f.1.ok = true
    · have hlen : (own f).length = f.1.fileSize := by
        unfold own
        rw [if_pos hok, List.length_take]
        exact Nat.min_eq_left (hf hok)
      have hsum : (own f ++ (l.flatMap own ++ part)).length =
          f.1.fileSize + (l.flatMap own ++ part).length := by
        rw [List.length_append, hlen]
      rw [if_pos hok, hsum, if_pos (by omega), Nat.add_sub_cancel_left]
      rfl
    · have hnil : own f = [] := by
        unfold own
        rw [if_neg hok]
      rw [if_neg hok, hnil, List.nil_append]
      rfl

/-! ### The server -/

/-- The stream `s` has sent the bytes `D` of the files. -/
structure Sends (files : List (BatchFile P)) (s : ServerBatchStream P) (D : List UInt8) : Prop where
  records : s.files = files.map Prod.fst
  index_le : s.index ≤ files.length
  whole : ∀ f ∈ files.take s.index, Whole f
  closed : s.fileOpen = false → D = (files.take s.index).flatMap own
  opened : s.fileOpen = true → ∃ f, files[s.index]? = some f ∧ f.1.ok = true ∧
    s.nextReadOffset + s.remainingBytes = f.1.fileSize ∧ 0 < s.remainingBytes ∧
    s.nextReadOffset ≤ f.2.length ∧
    D = (files.take s.index).flatMap own ++ f.2.take s.nextReadOffset

theorem Sends.carries {files : List (BatchFile P)} {s : ServerBatchStream P} {D : List UInt8}
    (h : Sends files s D) : Carries files D := by
  cases hopen : s.fileOpen with
  | false =>
    exact ⟨_, _, [], (List.take_append_drop s.index files).symm, h.whole,
      by rw [List.append_nil]; exact h.closed hopen, .inl rfl⟩
  | true =>
    obtain ⟨f, hf, hok, hsize, hpos, hlen, hD⟩ := h.opened hopen
    refine ⟨_, _, _, (List.take_append_drop s.index files).symm, h.whole, hD, .inr
      ⟨f, files.drop (s.index + 1), ?_, hok, List.take_prefix _ _, ?_⟩⟩
    · obtain ⟨hlt, heq⟩ := List.getElem?_eq_some_iff.1 hf
      rw [List.drop_eq_getElem_cons hlt, heq]
    · rw [List.length_take]
      omega

section Server

variable {files : List (BatchFile P)} {s : ServerBatchStream P} {D : List UInt8} {disk : Disk}
  {v : Visit} {f : BatchFile P}

theorem not_takeWhile {α : Type} (p : α → Bool) (l : List α) {a : α}
    (h : l[(l.takeWhile p).length]? = some a) : p a = false := by
  induction l with
  | nil => cases h
  | cons x l ih =>
    rw [List.takeWhile_cons] at h
    cases hx : p x with
    | false =>
      rw [hx] at h
      cases h
      exact hx
    | true =>
      rw [hx] at h
      exact ih h

/-- The file after the records that are not ok. -/
theorem skipFailed_ok (h : Sends files s D) {r : BatchFileRecord P}
    (hr : s.skipFailed.files[s.skipFailed.index]? = some r) :
    ∃ f, files[s.skipFailed.index]? = some f ∧ f.1 = r ∧ r.ok = true := by
  have hok : (!r.ok) = false := by
    refine not_takeWhile (fun r : BatchFileRecord P => !r.ok) (s.files.drop s.index) ?_
    rw [List.getElem?_drop]
    exact hr
  have hmap : (files.map Prod.fst)[s.skipFailed.index]? = some r := by
    rw [← h.records]
    exact hr
  rw [List.getElem?_map, Option.map_eq_some_iff] at hmap
  obtain ⟨f, hf, rfl⟩ := hmap
  exact ⟨f, hf, rfl, by simpa using hok⟩

/-- Passing records that are not ok sends nothing. -/
theorem sends_skipFailed (h : Sends files s D) : Sends files s.skipFailed D := by
  cases hopen : s.fileOpen with
  | true =>
    -- the current file is ok, so nothing is passed
    obtain ⟨f, hf, hok, -⟩ := h.opened hopen
    have hnone : (s.files.drop s.index).takeWhile (fun r => !r.ok) = [] := by
      obtain ⟨hlt, heq⟩ := List.getElem?_eq_some_iff.1 hf
      rw [h.records, ← List.map_drop, List.drop_eq_getElem_cons hlt, heq, List.map_cons,
        List.takeWhile_cons]
      simp [hok]
    have hsame : s.skipFailed = s := by
      unfold ServerBatchStream.skipFailed
      rw [hnone]
      rfl
    rw [hsame]
    exact h
  | false =>
    have htw : (s.files.drop s.index).takeWhile (fun r => !r.ok) =
        ((files.drop s.index).takeWhile fun f => !f.1.ok).map Prod.fst := by
      rw [h.records, ← List.map_drop, List.takeWhile_map]
      rfl
    have hindex : s.skipFailed.index =
        s.index + ((files.drop s.index).takeWhile fun f => !f.1.ok).length := by
      unfold ServerBatchStream.skipFailed
      rw [htw, List.length_map]
    have htake : files.take s.skipFailed.index =
        files.take s.index ++ (files.drop s.index).takeWhile fun f => !f.1.ok := by
      rw [hindex, List.take_add]
      congr 1
      exact (List.prefix_iff_eq_take.1 (List.takeWhile_prefix _)).symm
    have hbad : ∀ f ∈ (files.drop s.index).takeWhile (fun f => !f.1.ok), f.1.ok = false := by
      intro f hf
      simpa using List.all_eq_true.1 List.all_takeWhile f hf
    have hown : ((files.drop s.index).takeWhile fun f => !f.1.ok).flatMap own = [] := by
      refine List.flatMap_eq_nil_iff.2 fun f hf => ?_
      unfold own
      rw [if_neg (by rw [hbad f hf]; simp)]
    refine ⟨h.records, ?_, ?_, fun _ => ?_, fun ho => ?_⟩
    · rw [hindex]
      have hle := (List.takeWhile_sublist (fun f : BatchFile P => !f.1.ok) (l := files.drop s.index)).length_le
      have hidx := h.index_le
      rw [List.length_drop] at hle
      omega
    · intro f hf
      rw [htake] at hf
      rcases List.mem_append.1 hf with hf | hf
      · exact h.whole f hf
      · intro hok
        rw [hbad f hf] at hok
        cases hok
    · rw [htake, List.flatMap_append, hown, List.append_nil]
      exact h.closed hopen
    · have ho' : s.fileOpen = true := ho
      rw [hopen] at ho'
      cases ho'

theorem take_next (hf : files[s.index]? = some f) :
    files.take (s.index + 1) = files.take s.index ++ [f] := by
  rw [List.take_add_one, hf]
  rfl

/-- An empty file takes no bytes. -/
theorem sends_passEmpty (h : Sends files s D) (hf : files[s.index]? = some f)
    (hopen : s.fileOpen = false) (h0 : f.1.fileSize = 0) : Sends files s.passEmpty D := by
  have hown : own f = [] := by
    unfold own
    rw [h0, List.take_zero, ite_self]
  have htake : files.take s.passEmpty.index = files.take s.index ++ [f] := take_next hf
  refine ⟨h.records, ?_, ?_, fun _ => ?_, fun ho => ?_⟩
  · exact (List.getElem?_eq_some_iff.1 hf).1
  · intro g hg
    rw [htake] at hg
    rcases List.mem_append.1 hg with hg | hg
    · exact h.whole g hg
    · rw [List.mem_singleton.1 hg]
      intro _
      omega
  · rw [htake, List.flatMap_append, List.flatMap_singleton, hown, List.append_nil]
    exact h.closed hopen
  · have ho' : s.fileOpen = true := ho
    rw [hopen] at ho'
    cases ho'

/-- Opening the current file sends nothing. -/
theorem sends_openCurrent (h : Sends files s D) (hf : files[s.index]? = some f) (hok : f.1.ok = true)
    (hsize : s.fileOpen = false → f.1.fileSize ≠ 0) : Sends files (s.openCurrent disk f.1) D := by
  unfold ServerBatchStream.openCurrent
  split
  · exact h
  · rename_i hclosed
    have hopen : s.fileOpen = false := by simpa using hclosed
    have hD := h.closed hopen
    refine ⟨h.records, h.index_le, h.whole, fun _ => hD, fun _ => ⟨f, hf, hok, Nat.zero_add _, ?_, Nat.zero_le _, ?_⟩⟩
    · exact Nat.pos_of_ne_zero (hsize hopen)
    · rw [hD]
      simp

/-- The next bytes of the current file. -/
theorem sends_advance (h : Sends files s D) (hopen : s.fileOpen = true) {bytes : List UInt8}
    (hf : files[s.index]? = some f) (hpre : bytes <+: f.2.drop s.nextReadOffset)
    (hlen : bytes.length ≤ s.remainingBytes) : Sends files (s.advance bytes.length) (D ++ bytes) := by
  obtain ⟨g, hg, hok, hsize, hpos, hoff, hD⟩ := h.opened hopen
  rw [hf] at hg
  cases hg
  -- the bytes follow those sent of this file
  have hbytes : f.2.take (s.nextReadOffset + bytes.length) = f.2.take s.nextReadOffset ++ bytes := by
    rw [List.take_add, ← List.prefix_iff_eq_take.1 hpre]
  have hin : s.nextReadOffset + bytes.length ≤ f.2.length := by
    have := hpre.length_le
    rw [List.length_drop] at this
    omega
  unfold ServerBatchStream.advance
  dsimp only
  split
  · rename_i hdone
    have htake := take_next hf
    refine ⟨h.records, (List.getElem?_eq_some_iff.1 hf).1, ?_, fun _ => ?_, fun ho => by cases ho⟩
    · intro g hg
      rw [htake] at hg
      rcases List.mem_append.1 hg with hg | hg
      · exact h.whole g hg
      · rw [List.mem_singleton.1 hg]
        intro _
        omega
    · have hown : own f = f.2.take (s.nextReadOffset + bytes.length) := by
        unfold own
        rw [if_pos hok]
        congr 1
        omega
      rw [htake, List.flatMap_append, List.flatMap_singleton, hown, hbytes, hD, List.append_assoc]
  · rename_i hmore
    refine ⟨h.records, h.index_le, h.whole, fun ho => ?_, fun _ => ⟨f, hf, hok, ?_, ?_, hin, ?_⟩⟩
    · have ho' : s.fileOpen = false := ho
      rw [hopen] at ho'
      cases ho'
    · show s.nextReadOffset + bytes.length + (s.remainingBytes - bytes.length) = f.1.fileSize
      omega
    · exact Nat.pos_of_ne_zero hmore
    · show D ++ bytes = (files.take s.index).flatMap own ++ f.2.take (s.nextReadOffset + bytes.length)
      rw [hbytes, hD, List.append_assoc]

/-- What a burst did: the bytes of its chunks follow `D`; unless it was aborted, it used up
the budget or passed the last file. -/
structure Burst (files : List (BatchFile P)) (disk : Disk) (v : Visit) (burstBytes : ℕ) (D : List UInt8)
    (r : ServerBatchStream P × List (BatchFrame P) × Bool) (chunks : List (List UInt8)) : Prop where
  frames : r.2.1 = chunks.map .fileBatchChunk ++ if r.2.2 then [.fileError] else []
  sends : Sends files r.1 (D ++ chunks.flatten)
  budget : r.2.2 = false →
    v.perStreamBurstBytes ≤ burstBytes + chunks.flatten.length ∨ r.1.index = files.length
  reliable : disk.Reliable files → 0 < v.effectiveChunkSize → r.2.2 = false

/-- The current file, after the records that are not ok, opened or not. -/
theorem sends_current (disk : Disk) (h : Sends files s D) {file : BatchFileRecord P}
    (hfile : s.skipFailed.files[s.skipFailed.index]? = some file)
    (hsize : ¬ (!s.skipFailed.fileOpen && file.fileSize == 0) = true) :
    Sends files (s.skipFailed.openCurrent disk file) D ∧
      ∃ f, files[(s.skipFailed.openCurrent disk file).index]? = some f ∧ f.1 = file ∧ file.ok = true := by
  obtain ⟨f, hf, rfl, hok⟩ := skipFailed_ok h hfile
  refine ⟨sends_openCurrent (sends_skipFailed h) hf hok ?_, f, ?_, rfl, hok⟩
  · intro ho h0
    exact hsize (by simp [ho, h0])
  · rw [(ServerBatchStream.openCurrent_index disk s.skipFailed f.1).1]
    exact hf

/-- A reliable disk answers a read of an open file with some bytes. -/
theorem reliable_read (h : Sends files s D) (hopen : s.fileOpen = true) (hrel : disk.Reliable files)
    (hchunk : 0 < v.effectiveChunkSize) :
    ∃ b bytes, disk.read s.index s.nextReadOffset (min s.remainingBytes v.effectiveChunkSize) =
      some (b :: bytes) := by
  obtain ⟨f, hf, hok, hsize, hpos, -⟩ := h.opened hopen
  exact (hrel s.index f hf hok).2 _ _ (by omega) (by omega)

/-- **The burst loop**, whatever the disk answers. -/
theorem sends_burst (hdisk : disk.Serves files) (s : ServerBatchStream P) (burstBytes : ℕ) :
    ∀ D, Sends files s D → ∃ chunks, Burst files disk v burstBytes D (s.burst disk v burstBytes) chunks := by
  fun_induction ServerBatchStream.burst disk v s burstBytes with
  | case1 s burstBytes hlt hnone =>
    -- no file is left
    intro D h
    have hskip := sends_skipFailed h
    refine ⟨[], rfl, by simpa using hskip, fun _ => .inr ?_, fun _ _ => rfl⟩
    have hge := List.getElem?_eq_none_iff.1 hnone
    rw [hskip.records, List.length_map] at hge
    exact Nat.le_antisymm hskip.index_le hge
  | case2 s burstBytes hlt file hfile hempty ih =>
    -- an empty file is passed
    intro D h
    obtain ⟨f, hf, rfl, -⟩ := skipFailed_ok h hfile
    simp only [Bool.and_eq_true, Bool.not_eq_true', beq_iff_eq] at hempty
    exact ih D (sends_passEmpty (sends_skipFailed h) hf hempty.1 hempty.2)
  | case3 s burstBytes hlt file hfile hempty t hclosed =>
    -- the file cannot be opened
    intro D h
    obtain ⟨hsend, f, hf, rfl, hok⟩ := sends_current disk h hfile hempty
    refine ⟨[], rfl, by simpa using hsend, (by rintro ⟨⟩), fun hrel _ => ?_⟩
    have hopen : t.fileOpen = true := by
      have hrel' := (hrel _ f hf hok).1
      rw [(ServerBatchStream.openCurrent_index disk s.skipFailed f.1).1] at hrel'
      unfold t ServerBatchStream.openCurrent
      split
      · assumption
      · exact hrel'
    rw [hopen] at hclosed
    cases hclosed
  | case4 s burstBytes hlt file hfile hempty t hopen hread =>
    intro D h
    obtain ⟨hsend, -⟩ := sends_current disk h hfile hempty
    refine ⟨[], rfl, by simpa using hsend, (by rintro ⟨⟩), fun hrel hchunk => ?_⟩
    obtain ⟨b, bytes, hb⟩ := reliable_read (v := v) hsend (by simpa using hopen) hrel hchunk
    rw [hread] at hb
    cases hb
  | case5 s burstBytes hlt file hfile hempty t hopen hread =>
    intro D h
    obtain ⟨hsend, -⟩ := sends_current disk h hfile hempty
    refine ⟨[], rfl, by simpa using hsend, (by rintro ⟨⟩), fun hrel hchunk => ?_⟩
    obtain ⟨b, bytes, hb⟩ := reliable_read (v := v) hsend (by simpa using hopen) hrel hchunk
    rw [hread] at hb
    cases hb
  | case6 s burstBytes hlt file hfile hempty t hopen b chunk hread r ih =>
    -- a chunk is sent
    intro D h
    obtain ⟨hsend, f, hf, rfl, hok⟩ := sends_current disk h hfile hempty
    obtain ⟨hlen, hpre⟩ := hdisk _ f hf _ _ _ hread
    have hadv := sends_advance hsend (by simpa using hopen) hf hpre
      (Nat.le_trans hlen (Nat.min_le_left _ _))
    obtain ⟨chunks, hframes, hsends, hbudget, hrel⟩ := ih _ hadv
    refine ⟨(b :: chunk) :: chunks, ?_, ?_, ?_, hrel⟩
    · show _ :: r.2.1 = _
      rw [List.map_cons, hframes]
      rfl
    · rw [List.flatten_cons, ← List.append_assoc]
      exact hsends
    · intro hno
      rcases hbudget hno with hb | hb
      · refine .inl ?_
        rw [List.flatten_cons, List.length_append, List.length_cons]
        omega
      · exact .inr hb
  | case7 s burstBytes hlt =>
    intro D h
    exact ⟨[], rfl, by simpa using h, fun _ => .inl (by simp; omega), fun _ _ => rfl⟩

/-! ### Visits -/

theorem burst_headerSent (disk : Disk) (v : Visit) (s : ServerBatchStream P) (burstBytes : ℕ) :
    (s.burst disk v burstBytes).1.headerSent = s.headerSent := by
  have hopen : ∀ (s : ServerBatchStream P) (file : BatchFileRecord P),
      (s.openCurrent disk file).headerSent = s.headerSent := by
    intro s file
    unfold ServerBatchStream.openCurrent
    split <;> rfl
  have hadv : ∀ (s : ServerBatchStream P) (n : ℕ), (s.advance n).headerSent = s.headerSent := by
    intro s n
    unfold ServerBatchStream.advance
    dsimp only
    split <;> rfl
  fun_induction ServerBatchStream.burst disk v s burstBytes with
  | case1 => rfl
  | case2 s burstBytes hlt file hfile hempty ih => exact ih
  | case3 s => exact hopen _ _
  | case4 s => exact hopen _ _
  | case5 s => exact hopen _ _
  | case6 s burstBytes hlt file hfile hempty t ho b chunk hread r ih =>
    exact ih.trans ((hadv _ _).trans (hopen _ _))
  | case7 => rfl

/-- What follows the bytes `D`: chunks, and the frame that closes the stream, if it is
closed. Under `good`, it is not closed by an error. -/
structure Visited (files : List (BatchFile P)) (good : Prop) (D : List UInt8)
    (r : Option (ServerBatchStream P)) (frames : List (BatchFrame P)) : Prop where
  going : ∀ s', r = some s' → s'.headerSent = true ∧ ∃ chunks : List (List UInt8),
    frames = chunks.map .fileBatchChunk ∧ Sends files s' (D ++ chunks.flatten)
  closed : r = none → ∃ chunks : List (List UInt8),
    (frames = chunks.map .fileBatchChunk ++ [.fileError] ∧ Carries files (D ++ chunks.flatten) ∧ ¬ good) ∨
    (frames = chunks.map .fileBatchChunk ++ [.fileBatchEnd] ∧ (∀ f ∈ files, Whole f) ∧
      D ++ chunks.flatten = files.flatMap own)

theorem payloadBytes_chunks (chunks : List (List UInt8)) :
    payloadBytes (chunks.map BatchFrame.fileBatchChunk : List (BatchFrame P)) = chunks.flatten.length := by
  induction chunks with
  | nil => rfl
  | cons c chunks ih => rw [List.map_cons, payloadBytes, ih, List.flatten_cons, List.length_append]

theorem payloadBytes_append (l l' : List (BatchFrame P)) :
    payloadBytes (l ++ l') = payloadBytes l + payloadBytes l' := by
  induction l with
  | nil => rw [List.nil_append, payloadBytes, Nat.zero_add]
  | cons x l ih =>
    cases x with
    | fileBatchChunk p => rw [List.cons_append, payloadBytes, payloadBytes, ih, Nat.add_assoc]
    | fileBatchOpen | fileBatchEnd | fileError => rw [List.cons_append, payloadBytes, payloadBytes, ih] <;> simp

/-- The header a visit sends. -/
def header (s : ServerBatchStream P) : List (BatchFrame P) :=
  if s.headerSent then [] else [.fileBatchOpen s.files]

/-- When no ok file is left, all bytes have been sent. -/
theorem sends_all (h : Sends files s D) (hopen : s.fileOpen = false)
    (hrest : ∀ r ∈ s.files.drop s.index, r.ok = false) :
    (∀ f ∈ files, Whole f) ∧ D = files.flatMap own := by
  have hbad : ∀ f ∈ files.drop s.index, f.1.ok = false := by
    intro f hf
    refine hrest f.1 ?_
    rw [h.records, ← List.map_drop]
    exact List.mem_map_of_mem hf
  constructor
  · intro f hf
    rw [← List.take_append_drop s.index files] at hf
    rcases List.mem_append.1 hf with hf | hf
    · exact h.whole f hf
    · intro hok
      rw [hbad f hf] at hok
      cases hok
  · have hnil : (files.drop s.index).flatMap own = [] := by
      refine List.flatMap_eq_nil_iff.2 fun f hf => ?_
      unfold own
      rw [if_neg (by rw [hbad f hf]; simp)]
    conv_rhs => rw [← List.take_append_drop s.index files]
    rw [List.flatMap_append, hnil, List.append_nil]
    exact h.closed hopen

/-- **One visit.** A visit that leaves the stream open has used up its budget. -/
theorem sends_visit (hdisk : disk.Serves files) (h : Sends files s D) (v : Visit) :
    ∃ body, (s.visit disk v).2 = header s ++ body ∧
      Visited files (disk.Reliable files ∧ 0 < v.effectiveChunkSize) D (s.visit disk v).1 body ∧
      ((s.visit disk v).1 ≠ none → v.perStreamBurstBytes ≤ payloadBytes body) := by
  let t : ServerBatchStream P := { s with headerSent := true }
  have ht : Sends files t D := ⟨h.records, h.index_le, h.whole, h.closed, h.opened⟩
  obtain ⟨chunks, hframes, hsends, hbudget, hrel⟩ := sends_burst (v := v) hdisk t 0 D ht
  have hheader : (t.burst disk v 0).1.headerSent = true := burst_headerSent disk v t 0
  obtain ⟨r, hr⟩ : ∃ r, t.burst disk v 0 = r := ⟨_, rfl⟩
  have hvisit : s.visit disk v =
      if r.2.2 then (none, header s ++ r.2.1)
      else if (r.1.files.drop r.1.index).all (fun f => !f.ok) && !r.1.fileOpen then
        (none, header s ++ r.2.1 ++ [.fileBatchEnd])
      else (some r.1, header s ++ r.2.1) := by
    rw [← hr]
    rfl
  rw [hr] at hframes hsends hbudget hrel hheader
  rw [hvisit]
  by_cases habort : r.2.2 = true
  · -- a read failed: the burst ends with the error, and the stream with it
    rw [if_pos habort] at hframes
    rw [if_pos habort]
    refine ⟨_, rfl, ⟨(by rintro s' ⟨⟩), fun _ => ⟨chunks, .inl ⟨hframes, hsends.carries, ?_⟩⟩⟩,
      fun hne => absurd rfl hne⟩
    rintro ⟨hr, hc⟩
    rw [hrel hr hc] at habort
    cases habort
  · rw [if_neg habort, List.append_nil] at hframes
    rw [if_neg habort]
    by_cases hdone : ((r.1.files.drop r.1.index).all (fun f => !f.ok) && !r.1.fileOpen) = true
    · -- the last file is out
      rw [if_pos hdone]
      simp only [Bool.and_eq_true, Bool.not_eq_true', List.all_eq_true] at hdone
      obtain ⟨hwhole, hall⟩ := sends_all hsends hdone.2 hdone.1
      refine ⟨_, List.append_assoc .., ⟨(by rintro s' ⟨⟩), fun _ => ⟨chunks, .inr ⟨?_, hwhole, hall⟩⟩⟩,
        fun hne => absurd rfl hne⟩
      rw [hframes]
    · rw [if_neg hdone]
      refine ⟨_, rfl, ⟨?_, (by rintro ⟨⟩)⟩, fun _ => ?_⟩
      · rintro s' ⟨⟩
        exact ⟨hheader, chunks, hframes, hsends⟩
      · rw [hframes, payloadBytes_chunks]
        rcases hbudget (by simpa using habort) with hb | hb
        · omega
        · -- past the last file the stream would have been closed
          exfalso
          apply hdone
          have hopen : r.1.fileOpen = false := by
            by_contra ho
            obtain ⟨f, hf, -⟩ := hsends.opened (by simpa using ho)
            have hlt := (List.getElem?_eq_some_iff.1 hf).1
            omega
          have hnil : r.1.files.drop r.1.index = [] := by
            rw [List.drop_eq_nil_iff, hsends.records, List.length_map]
            omega
          rw [hnil, hopen]
          rfl

/-- **Any sequence of visits** after the header. While the stream is open, every visit with
a positive budget has sent a byte. -/
theorem sends_serve (hdisk : disk.Serves files) (visits : List Visit) :
    ∀ (s : ServerBatchStream P) (D : List UInt8), s.headerSent = true → Sends files s D →
      Visited files (disk.Reliable files ∧ ∀ v ∈ visits, 0 < v.effectiveChunkSize) D
        (s.serve disk visits).1 (s.serve disk visits).2 ∧
      ((∀ v ∈ visits, 0 < v.perStreamBurstBytes) → (s.serve disk visits).1 ≠ none →
        visits.length ≤ payloadBytes (s.serve disk visits).2) := by
  induction visits with
  | nil =>
    intro s D hheader h
    refine ⟨⟨?_, (by rintro ⟨⟩)⟩, fun _ _ => Nat.zero_le _⟩
    rintro s' ⟨⟩
    exact ⟨hheader, [], rfl, by simpa using h⟩
  | cons v vs ih =>
    intro s D hheader h
    obtain ⟨body, hbody, hvisited, hbudget⟩ := sends_visit hdisk h v
    have hnone : header s = [] := by
      unfold header
      rw [if_pos hheader]
    rw [hnone, List.nil_append] at hbody
    rw [ServerBatchStream.serve]
    rcases hv : s.visit disk v with ⟨r, frames⟩
    rw [hv] at hbody hvisited hbudget
    dsimp only at hbody hvisited hbudget
    subst hbody
    cases r with
    | none =>
      -- this visit closed the stream, and the others send nothing
      refine ⟨⟨(by rintro s' ⟨⟩), fun _ => ?_⟩, fun _ hne => absurd rfl hne⟩
      obtain ⟨chunks, ⟨hf, hc, hng⟩ | hend⟩ := hvisited.closed rfl
      · exact ⟨chunks, .inl ⟨hf, hc, fun hgood => hng ⟨hgood.1, hgood.2 v (List.mem_cons_self ..)⟩⟩⟩
      · exact ⟨chunks, .inr hend⟩
    | some s' =>
      obtain ⟨hheader', chunks, rfl, hsends⟩ := hvisited.going s' rfl
      obtain ⟨hrest, hbudget'⟩ := ih s' _ hheader' hsends
      dsimp only
      refine ⟨⟨?_, ?_⟩, ?_⟩
      · intro s'' hs''
        obtain ⟨hh, chunks', hf, hs⟩ := hrest.going s'' hs''
        refine ⟨hh, chunks ++ chunks', by rw [hf, List.map_append], ?_⟩
        rw [List.flatten_append, ← List.append_assoc]
        exact hs
      · intro hcl
        obtain ⟨chunks', ⟨hf, hc, hng⟩ | ⟨hf, hw, hall⟩⟩ := hrest.closed hcl
        · refine ⟨chunks ++ chunks', .inl ⟨by rw [hf, List.map_append, List.append_assoc], ?_, ?_⟩⟩
          · rw [List.flatten_append, ← List.append_assoc]
            exact hc
          · exact fun hgood => hng ⟨hgood.1, fun w hw => hgood.2 w (List.mem_cons_of_mem _ hw)⟩
        · refine ⟨chunks ++ chunks', .inr ⟨by rw [hf, List.map_append, List.append_assoc], hw, ?_⟩⟩
          rw [List.flatten_append, ← List.append_assoc]
          exact hall
      · -- this visit has sent a byte, and each of the others one
        intro hpos hne
        have h1 := hbudget (by simp)
        have h2 := hbudget' (fun w hw => hpos w (List.mem_cons_of_mem _ hw)) hne
        have hv := hpos v (List.mem_cons_self ..)
        rw [payloadBytes_append, List.length_cons]
        omega

/-- The bytes that the records announce. -/
def announced (files : List (BatchFile P)) : ℕ := (files.map fun f => f.1.fileSize).sum

theorem length_own_le (l : List (BatchFile P)) : (l.flatMap own).length ≤ announced l := by
  induction l with
  | nil => exact Nat.le_refl _
  | cons f l ih =>
    have hf : (own f).length ≤ f.1.fileSize := by
      unfold own
      split
      · rw [List.length_take]
        omega
      · exact Nat.zero_le _
    unfold announced at ih ⊢
    rw [List.flatMap_cons, List.length_append, List.map_cons, List.sum_cons]
    omega

/-- No more is sent than was announced. -/
theorem Carries.length_le (h : Carries files D) : D.length ≤ announced files := by
  obtain ⟨l, r, part, rfl, -, rfl, hpart⟩ := h.split
  have hl := length_own_le l
  unfold announced at hl ⊢
  rw [List.length_append, List.map_append, List.sum_append]
  rcases hpart with rfl | ⟨f, fs, rfl, -, -, hlt⟩
  · rw [List.length_nil]
    omega
  · rw [List.map_cons, List.sum_cons]
    omega

/-- A shorter prefix is a prefix. -/
theorem Carries.of_prefix (h : Carries files D) {D' : List UInt8} (hD : D' <+: D) : Carries files D' := by
  obtain ⟨l, r, part, rfl, hl, rfl, hpart⟩ := h.split
  clear h
  induction l generalizing D' with
  | nil =>
    rw [List.flatMap_nil, List.nil_append] at hD
    refine ⟨[], r, D', rfl, by simp, rfl, ?_⟩
    rcases hpart with rfl | ⟨f, fs, rfl, hok, hpre, hlt⟩
    · exact .inl (List.prefix_nil.1 hD)
    · exact .inr ⟨f, fs, rfl, hok, hD.trans hpre, Nat.lt_of_le_of_lt hD.length_le hlt⟩
  | cons f l ih =>
    rw [List.flatMap_cons, List.append_assoc] at hD
    by_cases hshort : D'.length < (own f).length
    · -- the cut lies inside this file
      have hpre : D' <+: own f := List.prefix_of_prefix_length_le hD (List.prefix_append _ _)
        (Nat.le_of_lt hshort)
      have hok : f.1.ok = true := by
        by_contra hno
        unfold own at hshort
        rw [if_neg hno] at hshort
        cases hshort
      unfold own at hpre hshort
      rw [if_pos hok] at hpre hshort
      rw [List.length_take] at hshort
      exact ⟨[], f :: (l ++ r), D', rfl, by simp, rfl,
        .inr ⟨f, l ++ r, rfl, hok, hpre.trans (List.take_prefix _ _), by omega⟩⟩
    · obtain ⟨D'', rfl⟩ : own f <+: D' := List.prefix_of_prefix_length_le (List.prefix_append _ _) hD
        (by omega)
      have hD'' : D'' <+: l.flatMap own ++ part := (List.prefix_append_right_inj (own f)).1 hD
      obtain ⟨l', r', part', hsplit, hl', rfl, hpart'⟩ :=
        (ih (fun g hg => hl g (List.mem_cons_of_mem _ hg)) hD'').split
      refine ⟨f :: l', r', part', by rw [List.cons_append, hsplit, List.cons_append], ?_,
        by rw [List.flatMap_cons, List.append_assoc], hpart'⟩
      intro g hg
      rcases List.mem_cons.1 hg with rfl | hg
      · exact hl _ (List.mem_cons_self ..)
      · exact hl' g hg

/-- All bytes of whole files. -/
theorem carries_all (h : ∀ f ∈ files, Whole f) : Carries files (files.flatMap own) :=
  ⟨files, [], [], by simp, h, by simp, .inl rfl⟩

/-- **The frames of a stream**, from its first visit on: the header, chunks that carry a
part of the files, and the frame that closes it. -/
theorem serve_frames (hdisk : disk.Serves files) (v : Visit) (vs : List Visit) :
    ∃ (chunks : List (List UInt8)) (last : List (BatchFrame P)), (({ files := files.map Prod.fst } : ServerBatchStream P).serve disk (v :: vs)).2 =
        .fileBatchOpen (files.map Prod.fst) :: (chunks.map .fileBatchChunk ++ last) ∧
      Carries files chunks.flatten ∧
      (last = [] ∨ last = [.fileError] ∨
        last = [.fileBatchEnd] ∧ (∀ f ∈ files, Whole f) ∧ chunks.flatten = files.flatMap own) ∧
      ((∀ w ∈ v :: vs, 0 < w.perStreamBurstBytes) → announced files < (v :: vs).length → last ≠ []) ∧
      ((disk.Reliable files ∧ ∀ w ∈ v :: vs, 0 < w.effectiveChunkSize) → last ≠ [.fileError]) := by
  let s₀ : ServerBatchStream P := { files := files.map Prod.fst }
  let s₁ : ServerBatchStream P := { files := files.map Prod.fst, headerSent := true }
  have h₁ : Sends files s₁ [] :=
    ⟨rfl, Nat.zero_le _, by simp [s₁], fun _ => by simp [s₁], (by rintro ⟨⟩)⟩
  -- the header apart, the first visit is like the others
  have hvisit : s₀.visit disk v =
      ((s₁.visit disk v).1, .fileBatchOpen (files.map Prod.fst) :: (s₁.visit disk v).2) := by
    unfold ServerBatchStream.visit
    dsimp only [s₀, s₁]
    split
    · rfl
    · split <;> rfl
  have hserve : (s₀.serve disk (v :: vs)).2 =
      .fileBatchOpen (files.map Prod.fst) :: (s₁.serve disk (v :: vs)).2 := by
    rw [ServerBatchStream.serve, hvisit, ServerBatchStream.serve]
    rcases s₁.visit disk v with ⟨_ | s', frames⟩ <;> rfl
  obtain ⟨hvisited, hbudget⟩ := sends_serve hdisk (v :: vs) s₁ [] rfl h₁
  rw [hserve]
  generalize s₁.serve disk (v :: vs) = run at *
  obtain ⟨r, frames⟩ := run
  dsimp only at hvisited hbudget ⊢
  cases r with
  | some s' =>
    obtain ⟨-, chunks, rfl, hsends⟩ := hvisited.going s' rfl
    rw [List.nil_append] at hsends
    refine ⟨chunks, [], by rw [List.append_nil], hsends.carries, .inl rfl, fun hpos hlt => ?_,
      fun _ => by simp⟩
    have hle := hbudget hpos (by simp)
    have hmax := hsends.carries.length_le
    rw [payloadBytes_chunks] at hle
    omega
  | none =>
    obtain ⟨chunks, ⟨rfl, hc, hng⟩ | ⟨rfl, hw, hall⟩⟩ := hvisited.closed rfl
    · rw [List.nil_append] at hc
      exact ⟨chunks, _, rfl, hc, .inr (.inl rfl), fun _ _ => by simp, fun hgood => absurd hgood hng⟩
    · rw [List.nil_append] at hall
      exact ⟨chunks, _, rfl, by rw [hall]; exact carries_all hw, .inr (.inr ⟨rfl, hw, hall⟩),
        fun _ _ => by simp, fun _ => by simp⟩

/-- What `FileError` asks for: a retry of each unfinished entry. -/
theorem flatMap_error (rs : List (BatchFileRecord P)) (D : List UInt8) :
    (entriesAfter rs D).flatMap errorBatchEntry =
      ((entriesAfter rs D).filter fun e => !e.finalized).map fun e => .retry e.relPath := by
  induction rs generalizing D with
  | nil => rfl
  | cons r rs ih =>
    rw [entriesAfter, List.flatMap_cons, ih, errorBatchEntry_entryAfter, List.filter_cons]
    by_cases hfin : (entryAfter r D).finalized = true
    · rw [if_pos hfin, if_neg (by simp [hfin])]
      rfl
    · rw [if_neg hfin, if_pos (by simp [hfin])]
      rfl

theorem flatMap_end {entries : List (BatchDownloadEntry P)} (h : ∀ e ∈ entries, e.finalized = true) :
    entries.flatMap endBatchEntry = [] := by
  refine List.flatMap_eq_nil_iff.2 fun e he => ?_
  unfold endBatchEntry
  rw [if_pos (h e he)]

/-- Frames of the stream that contain no closing frame are the header and some chunks. -/
theorem open_prefix {rs : List (BatchFileRecord P)} {chunks : List (List UInt8)}
    {last body rest : List (BatchFrame P)}
    (h : body ++ rest = .fileBatchOpen rs :: (chunks.map .fileBatchChunk ++ last))
    (hlast : last = [] ∨ last = [.fileError] ∨ last = [.fileBatchEnd]) (hne : body ≠ [])
    (hend : .fileBatchEnd ∉ body) (herr : .fileError ∉ body) :
    ∃ k, body = .fileBatchOpen rs :: (chunks.take k).map .fileBatchChunk := by
  obtain ⟨x, body, rfl⟩ := List.exists_cons_of_ne_nil hne
  rw [List.cons_append] at h
  obtain ⟨rfl, htail⟩ := List.cons.inj h
  have hpre : body <+: chunks.map .fileBatchChunk ++ last := ⟨rest, htail⟩
  have hbody : body <+: (chunks.map .fileBatchChunk : List (BatchFrame P)) := by
    rcases hlast with rfl | rfl | rfl
    · rwa [List.append_nil] at hpre
    · rcases List.prefix_concat_iff.1 hpre with rfl | hp
      · exact absurd (by simp) herr
      · exact hp
    · rcases List.prefix_concat_iff.1 hpre with rfl | hp
      · exact absurd (by simp) hend
      · exact hp
  obtain ⟨k, hk⟩ : ∃ k, body = (chunks.map .fileBatchChunk).take k := ⟨_, List.prefix_iff_eq_take.1 hbody⟩
  exact ⟨k, by rw [hk, List.map_take]⟩

end Server

/-- **Batch stream round trip.** For every batch, every disk that serves its contents and
every sequence of visits (their budgets, chunk sizes and short reads cut the bytes in any
way):

* when the stream is ended by `FileBatchEnd`, every entry was finished before, each file
  has asked exactly for what it should with its own bytes, and the end adds nothing;
* when `FileError` comes after any part of the stream, each unfinished entry is retried
  once, no finished one is, and together each file has asked exactly once;
* the stream is closed after at most as many visits as bytes were announced, and by
  `FileBatchEnd` when no read fails. -/
theorem batch_round_trip (files : List (BatchFile P)) (disk : Disk) (hdisk : disk.Serves files)
    (visits : List Visit) :
    let run := ({ files := files.map Prod.fst } : ServerBatchStream P).serve disk visits
    (∀ body, run.2 = body ++ [.fileBatchEnd] → ∃ batch outs, receive {} body = .ok (batch, outs) ∧
      outs.Perm (files.map delivered) ∧ (∀ e ∈ batch.entries, e.finalized = true) ∧
      receiveFrame batch .fileBatchEnd = .ok (batch, [])) ∧
    (∀ body rest, run.2 = body ++ rest → body ≠ [] → .fileBatchEnd ∉ body → .fileError ∉ body →
      ∃ batch outs errs, receive {} body = .ok (batch, outs) ∧
        receiveFrame batch .fileError = .ok (batch, errs) ∧
        errs = (batch.entries.filter fun e => !e.finalized).map (fun e => .retry e.relPath) ∧
        (outs ++ errs).Perm (outcome files (payloadBytes body))) ∧
    ((∀ v ∈ visits, 0 < v.perStreamBurstBytes) → announced files < visits.length →
      ∃ body, run.2 = body ++ [.fileBatchEnd] ∨ run.2 = body ++ [.fileError]) ∧
    (disk.Reliable files → (∀ v ∈ visits, 0 < v.perStreamBurstBytes ∧ 0 < v.effectiveChunkSize) →
      announced files < visits.length → ∃ body, run.2 = body ++ [.fileBatchEnd]) := by
  intro run
  cases visits with
  | nil =>
    refine ⟨fun body h => ?_, fun body rest h hne => ?_, fun _ h => by simp at h, fun _ _ h => by simp at h⟩
    · have hlen := congrArg List.length h
      simp [run, ServerBatchStream.serve] at hlen
    · have hnil := List.append_eq_nil_iff.1 h.symm
      exact absurd hnil.1 hne
  | cons v vs =>
    obtain ⟨chunks, last, hframes, hcarry, hlast, hclosed, hgood⟩ := serve_frames hdisk v vs
    have hcases : last = [] ∨ last = [.fileError] ∨ last = [.fileBatchEnd] := by
      rcases hlast with h | h | h
      · exact .inl h
      · exact .inr (.inl h)
      · exact .inr (.inr h.1)
    have hrun : run.2 = .fileBatchOpen (files.map Prod.fst) :: chunks.map .fileBatchChunk ++ last := hframes
    refine ⟨fun body h => ?_, fun body rest h hne hend herr => ?_, fun hpos hlt => ?_, fun hrel hpos hlt => ?_⟩
    · -- the stream ended: all bytes were sent
      rw [hrun] at h
      rcases hlast with rfl | rfl | ⟨rfl, hwhole, hall⟩
      · have hmem : (.fileBatchEnd : BatchFrame P) ∈ body ++ [.fileBatchEnd] := by simp
        rw [← h] at hmem
        simp at hmem
      · have hx := (List.append_inj' h rfl).2
        cases hx
      · obtain ⟨rfl, -⟩ := List.append_inj' h rfl
        obtain ⟨batch, outs, hrecv, hreach, hperm⟩ := reached_stream (files.map Prod.fst) chunks
        obtain ⟨houts, hfin⟩ := whole_stream files hwhole
        rw [hall] at hreach hperm
        rw [← hreach.entries] at hfin
        refine ⟨batch, outs, hrecv, by rwa [houts] at hperm, hfin, ?_⟩
        rw [receiveFrame, flatMap_end hfin]
    · -- the stream broke after some chunks
      rw [hrun] at h
      obtain ⟨k, rfl⟩ := open_prefix h.symm hcases hne hend herr
      obtain ⟨batch, outs, hrecv, hreach, hperm⟩ := reached_stream (files.map Prod.fst) (chunks.take k)
      have hpre : (chunks.take k).flatten <+: chunks.flatten := by
        conv_rhs => rw [← List.take_append_drop k chunks, List.flatten_append]
        exact List.prefix_append _ _
      have hbroken := brokenAfter_carries (hcarry.of_prefix hpre)
      refine ⟨batch, outs, batch.entries.flatMap errorBatchEntry, hrecv, rfl, ?_, ?_⟩
      · rw [hreach.entries]
        exact flatMap_error _ _
      · rw [payloadBytes, payloadBytes_chunks, ← hbroken, hreach.entries]
        · exact (List.Perm.append_right _ hperm).trans (outsAfter_error _ _)
        · simp
    · -- more visits than bytes: the stream is closed, by one frame or the other
      rcases hcases with rfl | rfl | rfl
      · exact absurd rfl (hclosed hpos hlt)
      · exact ⟨_, .inr hrun⟩
      · exact ⟨_, .inl hrun⟩
    · -- no read fails, so it is not closed by an error
      rcases hcases with rfl | rfl | rfl
      · exact absurd rfl (hclosed (fun w hw => (hpos w hw).1) hlt)
      · exact absurd rfl (hgood ⟨hrel, fun w hw => (hpos w hw).2⟩)
      · exact ⟨_, hrun⟩

/-- A disk that returns at most two bytes a read. -/
def pairDisk (files : List (BatchFile P)) : Disk where
  opens _ := true
  read i off want := files[i]?.map fun f => (f.2.drop off).take (min want 2)

theorem pairDisk_serves (files : List (BatchFile P)) : (pairDisk files).Serves files := by
  intro i f hf off want bytes h
  simp only [pairDisk, hf, Option.map_some, Option.some.injEq] at h
  subst h
  refine ⟨?_, List.take_prefix _ _⟩
  rw [List.length_take]
  omega

/-- A failed record, an empty file and two files, in bursts of three bytes: the stream is
closed and both files arrive. -/
theorem batch_round_trip_mixed :
    let files : List (BatchFile ℕ) := [(⟨0, 7, 0, false⟩, []), (⟨1, 3, 0, true⟩, [1, 2, 3]),
      (⟨2, 0, 0, true⟩, []), (⟨3, 2, 0, true⟩, [4, 5])]
    ∃ body, (({ files := files.map Prod.fst } : ServerBatchStream ℕ).serve (pairDisk files)
        (List.replicate 13 ⟨3, 64⟩)).2 = body ++ [.fileBatchEnd] ∧
      ∃ batch outs, receive {} body = .ok (batch, outs) ∧ outs.Perm (files.map delivered) := by
  intro files
  have hrel : (pairDisk files).Reliable files := by
    intro i f hf hok
    refine ⟨rfl, fun off want hoff hwant => ?_⟩
    have hlen : off < f.2.length := by
      have hall : ∀ g ∈ files, g.1.ok = true → g.1.fileSize ≤ g.2.length := by decide
      exact Nat.lt_of_lt_of_le hoff (hall f (List.mem_of_getElem? hf) hok)
    obtain ⟨n, hn⟩ : ∃ n, min want 2 = n + 1 := ⟨min want 2 - 1, by omega⟩
    refine ⟨f.2[off], ((f.2.drop (off + 1)).take n), ?_⟩
    simp only [pairDisk, hf, Option.map_some, hn]
    rw [List.drop_eq_getElem_cons hlen, List.take_succ_cons]
  obtain ⟨hend, -, -, hclose⟩ := batch_round_trip files (pairDisk files) (pairDisk_serves files)
    (List.replicate 13 ⟨3, 64⟩)
  obtain ⟨body, hbody⟩ := hclose hrel (by decide) (by decide)
  obtain ⟨batch, outs, hrecv, hperm, -⟩ := hend body hbody
  exact ⟨body, hbody, batch, outs, hrecv, hperm⟩

end FastClone.Server
