import FastClone.Proof.ClientMoves
import Mathlib.Algebra.Order.Group.Multiset

/-!
# What the steps of the client leave alone

`Links` compares the lanes and the exit flags before and after a step, `OffHash` besides
says that the hash stage is untouched, `Beside` that the ranges are. Most functions of the
main loop are of one of these kinds; the invariants that follow are proved for the few that
are not.
-/

set_option linter.unusedSectionVars false

namespace FastClone.Client

open Spans Table

variable {P H : Type} [DecidableEq P] [DecidableEq H]

/-! ### Lanes -/

/-- From `p` to `q` no lane recovers, and only lanes of `lost` go down. -/
structure Pool.Loses (lost : List ℕ) (p q : Pool) : Prop where
  length : q.length = p.length
  fell : ∀ i, q.healthy i = true → p.healthy i = true
  kept : ∀ i, i ∉ lost → p.healthy i = true → q.healthy i = true

namespace Pool

variable {lost lost' : List ℕ} {p q r : Pool}

theorem Loses.refl (lost : List ℕ) (p : Pool) : Loses lost p p where
  length := rfl
  fell := fun _ h => h
  kept := fun _ _ h => h

theorem Loses.trans (h : Loses lost p q) (h' : Loses lost q r) : Loses lost p r where
  length := h'.length.trans h.length
  fell := fun i hi => h.fell i (h'.fell i hi)
  kept := fun i hi hp => h'.kept i hi (h.kept i hi hp)

/-- A lane changed in its other fields. -/
theorem loses_modify (lost : List ℕ) (p : Pool) (i : ℕ) (g : Lane → Lane)
    (hg : ∀ l, (g l).healthy = l.healthy) : Loses lost p (p.modify i g) where
  length := List.length_modify ..
  fell := fun j hj => by rwa [State.healthy_modify p i j g hg] at hj
  kept := fun j _ hj => by rwa [State.healthy_modify p i j g hg]

theorem loses_acquireSlot (lost : List ℕ) (p : Pool) (i : ℕ) : Loses lost p (p.acquireSlot i) :=
  loses_modify lost p i _ fun _ => rfl

theorem loses_releaseSlot (lost : List ℕ) (p : Pool) (i : ℕ) : Loses lost p (p.releaseSlot i) :=
  loses_modify lost p i _ fun _ => rfl

theorem healthy_markConnDown (p : Pool) (i j : ℕ) :
    (p.markConnDown i).healthy j = (p.healthy j && decide (j ≠ i)) := by
  unfold healthy markConnDown
  rw [List.getElem?_modify]
  cases p[j]? with
  | none => rfl
  | some l =>
    by_cases hij : i = j
    · subst hij
      simp
    · simp [hij, Ne.symm hij]

theorem loses_markConnDown {i : ℕ} (hi : i ∈ lost) (p : Pool) :
    Loses lost p (p.markConnDown i) where
  length := List.length_modify ..
  fell := by
    intro j hj
    rw [healthy_markConnDown, Bool.and_eq_true] at hj
    exact hj.1
  kept := by
    intro j hj hp
    have hne : j ≠ i := by
      rintro rfl
      exact hj hi
    rw [healthy_markConnDown, hp]
    simpa using hne

theorem healthy_markConnsDown (lanes : List ℕ) (p : Pool) (j : ℕ) :
    (lanes.foldl markConnDown p).healthy j = (p.healthy j && decide (j ∉ lanes)) := by
  induction lanes generalizing p with
  | nil => simp
  | cons i lanes ih =>
    rw [List.foldl_cons, ih, healthy_markConnDown, Bool.and_assoc]
    congr 1
    simp [List.mem_cons, not_or, Bool.decide_and]

theorem length_markConnsDown (lanes : List ℕ) (p : Pool) :
    (lanes.foldl markConnDown p).length = p.length := by
  induction lanes generalizing p with
  | nil => rfl
  | cons i lanes ih =>
    rw [List.foldl_cons, ih]
    exact List.length_modify ..

/-- No lane counts as healthy exactly if none is. -/
theorem healthyConnCount_eq_zero {p : Pool} :
    p.healthyConnCount = 0 ↔ ∀ i, p.healthy i = false := by
  unfold healthyConnCount healthy
  rw [List.countP_eq_zero]
  constructor
  · intro h i
    cases hp : p[i]? with
    | none => rfl
    | some l => simpa using h l (List.mem_of_getElem? hp)
  · intro h l hl
    obtain ⟨i, hi⟩ := List.mem_iff_getElem?.1 hl
    have := h i
    rw [hi] at this
    simpa using this

end Pool

/-! ### Ranges on streams -/

/-- The two kinds of ranges: misses of delta files and blocks of large files. -/
inductive RangeKind where
  | delta
  | block
  deriving DecidableEq, Repr

/-- The range of a file that a stream carries. -/
def Stream.ranges (kind : RangeKind) (f : P) : Stream P → Multiset Span
  | .deltaRange r => if kind = .delta ∧ r.rel = f then {r.span} else 0
  | .fileRange r => if kind = .block ∧ r.rel = f then {r.span} else 0
  | _ => 0

namespace Streams

/-- The ranges of a file that are active on some stream. -/
def ranges (s : Streams P) (kind : RangeKind) (f : P) : Multiset Span :=
  total (fun _ st => Stream.ranges kind f st) s.table

theorem ranges_openNext (s : Streams P) (conn : ℕ) (st : Stream P) (kind : RangeKind) (f : P) :
    (s.openNext conn st).ranges kind f = st.ranges kind f + s.ranges kind f :=
  total_insert_new (nextKey_free s conn) st

theorem ranges_close {s : Streams P} {k : Key} {st : Stream P} (h : s.find k = some st)
    (kind : RangeKind) (f : P) :
    s.ranges kind f = st.ranges kind f + (s.close k).ranges kind f :=
  total_erase h

theorem ranges_update {s : Streams P} {k : Key} {st st' : Stream P} (h : s.find k = some st)
    (kind : RangeKind) (f : P) (hst : st'.ranges kind f = st.ranges kind f) :
    (s.update k st').ranges kind f = s.ranges kind f := by
  have hl : s.table.lookup k = some st := h
  have hm : k ∈ s.table := by
    rw [← AList.lookup_isSome, hl]
    rfl
  have h' := total_erase (w := fun _ st => Stream.ranges kind f st) hl
  simp only [ranges, update, hm, dite_true, total_insert, h', hst]

end Streams

/-! ### Frames -/

/-- The lanes lose at most `lost`, and the exit flags stay. -/
structure Links (lost : List ℕ) (s s' : State P H) : Prop where
  lanes : Pool.Loses lost s.pool s'.pool
  manifestDone : s'.manifestDone = s.manifestDone
  recvClosed : s'.recvClosed = s.recvClosed

/-- A step outside the hash stage. -/
structure OffHash (lost : List ℕ) (s s' : State P H) : Prop extends Links lost s s' where
  hash : s'.hash = s.hash

/-- A step that besides leaves the delta files, the block-mode files and their ranges alone. -/
structure Beside (lost : List ℕ) (s s' : State P H) : Prop extends OffHash lost s s' where
  delta : s'.delta = s.delta
  range : s'.range = s.range
  ranges : ∀ kind f, s'.streams.ranges kind f = s.streams.ranges kind f

variable {lost : List ℕ} {s s₁ s' : State P H}

theorem Links.refl (lost : List ℕ) (s : State P H) : Links lost s s :=
  ⟨.refl lost s.pool, rfl, rfl⟩

theorem Links.trans (h : Links lost s s₁) (h' : Links lost s₁ s') : Links lost s s' :=
  ⟨h.lanes.trans h'.lanes, h'.manifestDone.trans h.manifestDone, h'.recvClosed.trans h.recvClosed⟩

theorem OffHash.refl (lost : List ℕ) (s : State P H) : OffHash lost s s := ⟨.refl lost s, rfl⟩

theorem OffHash.trans (h : OffHash lost s s₁) (h' : OffHash lost s₁ s') : OffHash lost s s' :=
  ⟨h.toLinks.trans h'.toLinks, h'.hash.trans h.hash⟩

theorem Beside.refl (lost : List ℕ) (s : State P H) : Beside lost s s :=
  ⟨.refl lost s, rfl, rfl, fun _ _ => rfl⟩

theorem Beside.trans (h : Beside lost s s₁) (h' : Beside lost s₁ s') : Beside lost s s' where
  toOffHash := h.toOffHash.trans h'.toOffHash
  delta := h'.delta.trans h.delta
  range := h'.range.trans h.range
  ranges := fun kind f => (h'.ranges kind f).trans (h.ranges kind f)

theorem Beside.foldl {α : Type} {step : State P H → α → State P H}
    (h : ∀ s a, Beside lost s (step s a)) (l : List α) (s : State P H) :
    Beside lost s (l.foldl step s) := by
  induction l generalizing s with
  | nil => exact .refl lost s
  | cons a l ih => exact (h s a).trans (ih (step s a))

theorem Links.foldl {α : Type} {step : State P H → α → State P H}
    (h : ∀ s a, Links lost s (step s a)) (l : List α) (s : State P H) :
    Links lost s (l.foldl step s) := by
  induction l generalizing s with
  | nil => exact .refl lost s
  | cons a l ih => exact (h s a).trans (ih (step s a))

theorem OffHash.foldl {α : Type} {step : State P H → α → State P H}
    (h : ∀ s a, OffHash lost s (step s a)) (l : List α) (s : State P H) :
    OffHash lost s (l.foldl step s) := by
  induction l generalizing s with
  | nil => exact .refl lost s
  | cons a l ih => exact (h s a).trans (ih (step s a))

namespace State

/-! ### Counting and queueing -/

theorem beside_xfer (lost : List ℕ) (s : State P H) (x : Transfers P) (io : IoPool P) :
    Beside lost s { s with xfer := x, io := io } :=
  ⟨⟨⟨.refl lost s.pool, rfl, rfl⟩, rfl⟩, rfl, rfl, fun _ _ => rfl⟩

theorem beside_retryOrFail (lost : List ℕ) (s : State P H) (rel : P) :
    Beside lost s (s.retryOrFail rel) :=
  beside_xfer lost s _ _

theorem beside_scheduleTransfer (lost : List ℕ) (s : State P H) (rel : P) :
    Beside lost s (s.scheduleTransfer rel) :=
  beside_xfer lost s _ _

theorem beside_countTransferred (lost : List ℕ) (s : State P H) (rel : P) :
    Beside lost s (s.countTransferred rel) :=
  beside_xfer lost s _ _

theorem beside_applyOuts (lost : List ℕ) (s : State P H) (outs : List (BatchOut P)) :
    Beside lost s (s.applyOuts outs) := by
  unfold applyOuts
  apply Beside.foldl
  intro s o
  cases o with
  | write task => exact beside_xfer lost s _ _
  | fail rel => exact beside_xfer lost s _ _
  | retry rel => exact beside_retryOrFail lost s rel

theorem beside_drainIo (lost : List ℕ) (s : State P H) : Beside lost s s.drainIo := by
  unfold drainIo
  split
  · exact .refl lost s
  · split <;> exact beside_xfer lost s _ _

/-- A change of streams and lanes that leaves the ranges alone. -/
theorem beside_streams {lost : List ℕ} {s : State P H} {t : Streams P} {pool : Pool}
    (hp : Pool.Loses lost s.pool pool) (ht : ∀ kind f, t.ranges kind f = s.streams.ranges kind f) :
    Beside lost s { s with streams := t, pool := pool } :=
  ⟨⟨⟨hp, rfl, rfl⟩, rfl⟩, rfl, rfl, ht⟩

/-- A stream without a range. -/
def noRange (st : Stream P) : Prop := ∀ kind f, st.ranges kind f = 0

theorem noRange_download (rel : P) : noRange (.download rel) := fun _ _ => rfl

theorem noRange_batch (requested : List P) (b : BatchDownloadState P) :
    noRange (.batch requested b) := fun _ _ => rfl

theorem ranges_open_noRange (t : Streams P) (lane : ℕ) {st : Stream P} (h : noRange st)
    (kind : RangeKind) (f : P) : (t.openNext lane st).ranges kind f = t.ranges kind f := by
  rw [Streams.ranges_openNext, h, zero_add]

theorem ranges_close_noRange {t : Streams P} {k : Key} {st : Stream P} (hk : t.find k = some st)
    (h : noRange st) (kind : RangeKind) (f : P) : (t.close k).ranges kind f = t.ranges kind f := by
  rw [Streams.ranges_close hk, h, zero_add]

/-! ### Transfers -/

section

variable {lost : List ℕ} {lane : ℕ} {sendOk : Bool} (hl : sendOk = false → lane ∈ lost)

include hl

theorem beside_startBatch (cfg : Config) (s : State P H) (q : Transfers.Queue) :
    Beside lost s (s.startBatch cfg q lane sendOk) := by
  unfold startBatch
  split
  · extract_lets n batchPaths s₁
    have h₁ : Beside lost s s₁ := beside_xfer lost s _ _
    split
    · exact h₁
    · cases sendOk with
      | true =>
        exact h₁.trans (beside_streams (Pool.loses_acquireSlot _ _ lane)
          (ranges_open_noRange s₁.streams lane (noRange_batch _ _)))
      | false =>
        have h₂ : Beside lost s₁
            { s₁ with streams := s₁.streams.skipId lane, pool := s₁.pool.markConnDown lane } :=
          beside_streams (Pool.loses_markConnDown (hl rfl) _) fun _ _ => rfl
        exact (h₁.trans h₂).trans
          (Beside.foldl (fun s rel => beside_retryOrFail lost s rel) batchPaths _)
  · exact .refl _ s

theorem beside_startDownload (cfg : Config) (s : State P H) (q : Transfers.Queue)
    (globalSlotCap : ℕ) (openOk : Bool) :
    Beside lost s (s.startDownload cfg q globalSlotCap lane openOk sendOk) := by
  unfold startDownload
  extract_lets reserved
  split
  · exact .refl _ s
  · split
    · exact .refl _ s
    · rename_i rel rest _
      extract_lets isLarge s₁
      have h₁ : Beside lost s s₁ := beside_xfer lost s _ _
      split
      · split
        · exact h₁.trans (beside_retryOrFail _ s₁ rel)
        · refine h₁.trans (beside_streams ?_
            (ranges_open_noRange s₁.streams lane (noRange_download rel)))
          cases sendOk with
          | true => exact Pool.loses_acquireSlot _ _ lane
          | false => exact Pool.loses_markConnDown (hl rfl) _
      · exact .refl _ s

theorem beside_tryStartTransfer (cfg : Config) (s : State P H) (healthyAtStart : ℕ)
    (openOk : Bool) : Beside lost s (s.tryStartTransfer cfg lane healthyAtStart openOk sendOk) := by
  unfold tryStartTransfer
  extract_lets globalSlotCap
  split
  · exact .refl _ s
  · split
    · exact .refl _ s
    · split
      · exact .refl _ s
      · exact beside_startBatch hl cfg s _
      · exact beside_startBatch hl cfg s _
      · exact beside_startDownload hl cfg s _ _ openOk
      · exact beside_startDownload hl cfg s _ _ openOk

end

/-! ### Frames of single and batch streams -/

theorem beside_unknownStream (lost : List ℕ) (s : State P H) (conn : ℕ) (what : String) :
    Beside lost s (s.unknownStream conn what) := by
  unfold unknownStream
  split
  · exact ⟨⟨⟨.refl lost s.pool, rfl, rfl⟩, rfl⟩, rfl, rfl, fun _ _ => rfl⟩
  · exact .refl lost s

theorem beside_closeStream (lost : List ℕ) {s : State P H} {k : Key} {st : Stream P}
    (hk : s.streams.find k = some st) (h : noRange st) : Beside lost s (s.closeStream k) :=
  beside_streams (Pool.loses_releaseSlot lost s.pool k.1) (ranges_close_noRange hk h)

theorem beside_updateBatch (lost : List ℕ) {s : State P H} {k : Key} {requested : List P}
    {b : BatchDownloadState P} (hk : s.streams.find k = some (.batch requested b))
    (b' : BatchDownloadState P) :
    Beside lost s { s with streams := s.streams.update k (.batch requested b') } :=
  beside_streams (.refl lost s.pool) fun kind f => Streams.ranges_update hk kind f rfl

theorem beside_fileBatchOpen (lost : List ℕ) (s : State P H) (k : Key)
    (records : List (BatchFileRecord P)) : Beside lost s (s.fileBatchOpen k records) := by
  unfold fileBatchOpen
  split
  · rename_i requested b hk
    extract_lets r
    exact (beside_updateBatch lost hk r.1).trans (beside_applyOuts lost _ _)
  · exact beside_unknownStream lost s _ _

theorem beside_fileBatchChunk (lost : List ℕ) (s : State P H) (k : Key) (payload : List UInt8) :
    Beside lost s (s.fileBatchChunk k payload) := by
  unfold fileBatchChunk
  split
  · rename_i requested b hk
    split
    · extract_lets r
      exact (beside_updateBatch lost hk r.1).trans (beside_applyOuts lost _ _)
    · exact ⟨⟨⟨.refl lost s.pool, rfl, rfl⟩, rfl⟩, rfl, rfl, fun _ _ => rfl⟩
  · exact beside_unknownStream lost s _ _

theorem beside_fileBatchEnd (lost : List ℕ) (s : State P H) (k : Key) :
    Beside lost s (s.fileBatchEnd k) := by
  unfold fileBatchEnd
  split
  · rename_i requested b hk
    exact (beside_closeStream lost hk (noRange_batch _ _)).trans (beside_applyOuts lost _ _)
  · exact beside_unknownStream lost s _ _

theorem beside_fileChunk (lost : List ℕ) (s : State P H) (k : Key) :
    Beside lost s (s.fileChunk k) := by
  unfold fileChunk
  split
  · exact .refl lost s
  · exact beside_unknownStream lost s _ _

theorem beside_fileEnd (lost : List ℕ) (s : State P H) (k : Key) (ok : Bool) :
    Beside lost s (s.fileEnd k ok) := by
  unfold fileEnd
  split
  · rename_i rel hk
    have h := beside_closeStream lost hk (noRange_download rel)
    split
    · exact h.trans (beside_countTransferred lost _ rel)
    · exact h.trans (beside_retryOrFail lost _ rel)
  · exact beside_unknownStream lost s _ _

theorem beside_fileError (lost : List ℕ) (s : State P H) (k : Key) :
    Beside lost s (s.fileError k) := by
  unfold fileError
  split
  · rename_i requested b hk
    exact (beside_closeStream lost hk (noRange_batch _ _)).trans (beside_applyOuts lost _ _)
  · rename_i rel hk
    exact (beside_closeStream lost hk (noRange_download rel)).trans (beside_retryOrFail lost _ rel)
  · exact (beside_streams (Pool.loses_releaseSlot lost s.pool k.1) fun _ _ => rfl).trans
      (beside_xfer lost _ _ _)

/-! ### Delta files and block-mode files -/

theorem offHash_delta (lost : List ℕ) (s : State P H) (d : DeltaStage P) :
    OffHash lost s { s with delta := d } :=
  ⟨⟨.refl lost s.pool, rfl, rfl⟩, rfl⟩

theorem offHash_range (lost : List ℕ) (s : State P H) (r : FileRangeStage P) :
    OffHash lost s { s with range := r } :=
  ⟨⟨.refl lost s.pool, rfl, rfl⟩, rfl⟩

theorem offHash_streams {lost : List ℕ} {s : State P H} {pool : Pool}
    (hp : Pool.Loses lost s.pool pool) (t : Streams P) (d : DeltaStage P) (r : FileRangeStage P) :
    OffHash lost s { s with pool := pool, streams := t, delta := d, range := r } :=
  ⟨⟨hp, rfl, rfl⟩, rfl⟩

theorem offHash_tryEnterFileRange (lost : List ℕ) {cfg : Config} {s s' : State P H} {rel : P}
    (h : s.tryEnterFileRange cfg rel = some s') : OffHash lost s s' := by
  obtain ⟨book, -, rfl⟩ := tryEnterFileRange_eq_some h
  exact offHash_range lost s _

theorem offHash_tryEnterDelta (lost : List ℕ) {cfg : Config} {s s' : State P H} {rel : P}
    {old : Bool} (h : s.tryEnterDelta cfg rel old = some s') : OffHash lost s s' := by
  obtain ⟨-, book, -, rfl⟩ := tryEnterDelta_eq_some h
  exact offHash_delta lost s _

theorem offHash_enterFileRangeOrSchedule (lost : List ℕ) (cfg : Config) (s : State P H) (rel : P) :
    OffHash lost s (s.enterFileRangeOrSchedule cfg rel) := by
  unfold enterFileRangeOrSchedule
  cases h : s.tryEnterFileRange cfg rel with
  | none => exact (beside_scheduleTransfer lost s rel).toOffHash
  | some s' => exact offHash_tryEnterFileRange lost h

theorem offHash_enterOrSchedule (lost : List ℕ) (cfg : Config) (s : State P H) (rel : P)
    (old : Bool) : OffHash lost s (s.enterOrSchedule cfg rel old) := by
  unfold enterOrSchedule
  cases h : s.tryEnterDelta cfg rel old with
  | none => exact offHash_enterFileRangeOrSchedule lost cfg s rel
  | some s' => exact offHash_tryEnterDelta lost h

theorem offHash_finalizeDelta (lost : List ℕ) (cfg : Config) (s : State P H) (rel : P)
    (fin : TempFinalizeResult) : OffHash lost s (s.finalizeDelta cfg rel fin) := by
  unfold finalizeDelta
  split
  · exact .refl lost s
  · extract_lets book
    split
    · exact (offHash_delta lost s _).trans (beside_countTransferred lost _ rel).toOffHash
    · exact (offHash_delta lost s _).trans (offHash_enterFileRangeOrSchedule lost cfg _ rel)

theorem offHash_finalizeFileRange (lost : List ℕ) (s : State P H) (rel : P)
    (fin : TempFinalizeResult) : OffHash lost s (s.finalizeFileRange rel fin) := by
  unfold finalizeFileRange
  split
  · exact .refl lost s
  · extract_lets book
    split
    · exact (offHash_range lost s _).trans (beside_countTransferred lost _ rel).toOffHash
    · exact (offHash_range lost s _).trans (beside_scheduleTransfer lost _ rel).toOffHash

theorem offHash_applyDeltaPlanResult (lost : List ℕ) (cfg : Config) (s : State P H)
    (fin : TempFinalizeResult) : OffHash lost s (s.applyDeltaPlanResult cfg fin) := by
  unfold applyDeltaPlanResult
  split
  · exact .refl lost s
  · split
    · exact offHash_delta lost s _
    · split
      · exact (offHash_delta lost s _).trans (offHash_enterFileRangeOrSchedule lost cfg _ _)
      · extract_lets s₁
        have h₁ : OffHash lost s s₁ := offHash_delta lost s _
        split
        · exact h₁.trans (offHash_finalizeDelta lost cfg s₁ _ fin)
        · exact h₁

theorem offHash_beginFileRangePlan (lost : List ℕ) (cfg : Config) (s : State P H) (openOk : Bool)
    (fin : TempFinalizeResult) : OffHash lost s (s.beginFileRangePlan cfg openOk fin) := by
  unfold beginFileRangePlan
  split
  · exact .refl lost s
  · extract_lets src s₁
    have h₁ : OffHash lost s s₁ := offHash_range lost s _
    split
    · exact h₁
    · split
      · exact h₁
      · split
        · exact (h₁.trans (offHash_range lost s₁ _)).trans
            (beside_scheduleTransfer lost _ _).toOffHash
        · extract_lets plan s₂
          have h₂ : OffHash lost s s₂ := h₁.trans (offHash_range lost s₁ _)
          split
          · exact h₂.trans (offHash_finalizeFileRange lost s₂ _ fin)
          · exact h₂

section

variable {lost : List ℕ} {lane : ℕ} {sendOk : Bool} (hl : sendOk = false → lane ∈ lost)

include hl

theorem offHash_pumpDeltaSignatures (cfg : Config) (s : State P H) (reached : ℕ) :
    OffHash lost s (s.pumpDeltaSignatures cfg lane sendOk reached) := by
  unfold pumpDeltaSignatures
  extract_lets room r
  split
  · exact offHash_delta lost s _
  · cases sendOk with
    | true => exact offHash_delta lost s _
    | false => exact offHash_streams (Pool.loses_markConnDown (hl rfl) s.pool) _ _ _

theorem offHash_tryStartDeltaRange (cfg : Config) (s : State P H) :
    OffHash lost s (s.tryStartDeltaRange cfg lane sendOk) := by
  unfold tryStartDeltaRange
  split
  · exact .refl lost s
  · extract_lets popped
    split
    · exact offHash_delta lost s _
    · split
      · cases sendOk with
        | true => exact offHash_streams (Pool.loses_acquireSlot lost s.pool lane) _ _ _
        | false => exact offHash_streams (Pool.loses_markConnDown (hl rfl) s.pool) _ _ _
      · exact .refl lost s

theorem offHash_tryStartFileRange (cfg : Config) (s : State P H) :
    OffHash lost s (s.tryStartFileRange cfg lane sendOk) := by
  unfold tryStartFileRange
  split
  · exact .refl lost s
  · extract_lets popped
    split
    · exact offHash_range lost s _
    · split
      · cases sendOk with
        | true => exact offHash_streams (Pool.loses_acquireSlot lost s.pool lane) _ _ _
        | false => exact offHash_streams (Pool.loses_markConnDown (hl rfl) s.pool) _ _ _
      · exact .refl lost s

end

theorem offHash_closeStream (lost : List ℕ) (s : State P H) (k : Key) :
    OffHash lost s (s.closeStream k) :=
  offHash_streams (Pool.loses_releaseSlot lost s.pool k.1) _ _ _

theorem offHash_blockSigResponse (lost : List ℕ) (s : State P H) (conn : ℕ) (rel : P) :
    OffHash lost s (s.blockSigResponse conn rel) := by
  unfold blockSigResponse
  extract_lets d
  split
  · exact offHash_delta lost s _
  · split <;> exact offHash_delta lost s _

theorem offHash_deltaRangeEnd (lost : List ℕ) (cfg : Config) (s : State P H) (k : Key)
    (fin : TempFinalizeResult) : OffHash lost s (s.deltaRangeEnd cfg k fin) := by
  unfold deltaRangeEnd
  split
  · rename_i r hk
    extract_lets s₁
    have h₁ : OffHash lost s s₁ := offHash_closeStream lost s k
    split
    · exact h₁
    · extract_lets s₂
      have h₂ : OffHash lost s s₂ := h₁.trans (offHash_delta lost s₁ _)
      split
      · exact h₂.trans (offHash_finalizeDelta lost cfg s₂ r.rel fin)
      · exact h₂
  · exact (beside_unknownStream lost s _ _).toOffHash

theorem offHash_fileRangeEnd (lost : List ℕ) (s : State P H) (k : Key)
    (fin : TempFinalizeResult) : OffHash lost s (s.fileRangeEnd k fin) := by
  unfold fileRangeEnd
  split
  · rename_i r hk
    extract_lets s₁
    have h₁ : OffHash lost s s₁ := offHash_closeStream lost s k
    split
    · exact h₁
    · extract_lets s₂
      have h₂ : OffHash lost s s₂ := h₁.trans (offHash_range lost s₁ _)
      split
      · exact h₂.trans (offHash_finalizeFileRange lost s₂ r.rel fin)
      · exact h₂
  · exact (beside_unknownStream lost s _ _).toOffHash

theorem offHash_deltaErrorFor (lost : List ℕ) (s : State P H) (tagged : Bool) (rel : P) :
    OffHash lost s (s.deltaErrorFor tagged rel) := by
  unfold deltaErrorFor
  extract_lets st wasManaged releases d
  split
  · exact (offHash_delta lost s _).trans (beside_scheduleTransfer lost _ rel).toOffHash
  · exact offHash_delta lost s _

theorem offHash_deltaError (lost : List ℕ) (s : State P H) (k : Key) (rel : P) :
    OffHash lost s (s.deltaError k rel) := by
  unfold deltaError
  split
  · exact (offHash_closeStream lost s k).trans (offHash_deltaErrorFor lost _ true _)
  · exact (offHash_delta lost s _).trans (offHash_deltaErrorFor lost _ false rel)

theorem offHash_fileRangeErrorFor (lost : List ℕ) (s : State P H) (rel : P) :
    OffHash lost s (s.fileRangeErrorFor rel) := by
  unfold fileRangeErrorFor
  split
  · exact offHash_range lost s _
  · exact (offHash_range lost s _).trans (beside_scheduleTransfer lost _ rel).toOffHash

theorem offHash_fileRangeError (lost : List ℕ) (s : State P H) (k : Key) (rel : P) :
    OffHash lost s (s.fileRangeError k rel) := by
  unfold fileRangeError
  split
  · exact (offHash_closeStream lost s k).trans (offHash_fileRangeErrorFor lost _ _)
  · exact offHash_fileRangeErrorFor lost s rel

theorem offHash_updateRange (lost : List ℕ) (s : State P H) (t : Streams P) :
    OffHash lost s { s with streams := t } :=
  offHash_streams (.refl lost s.pool) _ _ _

theorem offHash_deltaRangeChunk (lost : List ℕ) (s : State P H) (k : Key) (len : ℕ) :
    OffHash lost s (s.deltaRangeChunk k len) := by
  unfold deltaRangeChunk
  split
  · exact offHash_updateRange lost s _
  · exact (beside_unknownStream lost s _ _).toOffHash

theorem offHash_fileRangeData (lost : List ℕ) (s : State P H) (k : Key) (len : ℕ) :
    OffHash lost s (s.fileRangeData k len) := by
  unfold fileRangeData
  split
  · exact offHash_updateRange lost s _
  · exact (beside_unknownStream lost s _ _).toOffHash

/-! ### Failover -/

theorem offHash_drainStream (lost : List ℕ) (s : State P H) (k : Key) :
    OffHash lost s (s.drainStream k) := by
  unfold drainStream
  split
  · exact .refl lost s
  · exact (offHash_updateRange lost s _).trans (beside_retryOrFail lost _ _).toOffHash
  · exact (offHash_updateRange lost s _).trans (beside_applyOuts lost _ _).toOffHash
  · exact offHash_streams (.refl lost s.pool) _ _ _
  · exact offHash_streams (.refl lost s.pool) _ _ _

theorem offHash_drainLane (lost : List ℕ) (order : List Key) (s : State P H) (lane : ℕ) :
    OffHash lost s (s.drainLane order lane) := by
  unfold drainLane
  split
  · extract_lets s₁
    have h₁ : OffHash lost s s₁ := OffHash.foldl (offHash_drainStream lost) _ s
    have h₂ := offHash_streams (Pool.loses_modify lost s₁.pool lane
      (fun l => { l with inFlight := 0, drained := true }) fun _ => rfl) s₁.streams s₁.delta s₁.range
    exact h₁.trans h₂
  · exact .refl lost s

theorem offHash_requeueSignature (lost : List ℕ) (s : State P H) (rel : P) :
    OffHash lost s (s.requeueSignature rel) := by
  unfold requeueSignature
  split
  · exact .refl lost s
  · split
    · exact offHash_delta lost s _
    · exact .refl lost s

/-- What `failoverScan` does to the lanes and the exit flags: the lanes lost during the scan are
down, and the run is closed if none is left. -/
theorem failoverScan_links (s : State P H) (order : List Key) (sigOrder : List P)
    (dying dying' : List ℕ) :
    (∀ i, (s.failoverScan order sigOrder dying dying').pool.healthy i =
        (s.pool.healthy i && decide (i ∉ dying ++ dying'))) ∧
      (s.failoverScan order sigOrder dying dying').pool.length = s.pool.length ∧
      (s.failoverScan order sigOrder dying dying').manifestDone = s.manifestDone ∧
      ((s.failoverScan order sigOrder dying dying').recvClosed = true ↔ s.recvClosed = true ∨
        (s.failoverScan order sigOrder dying dying').pool.healthyConnCount = 0) ∧
      (s.failoverScan order sigOrder dying dying').hash = s.hash := by
  unfold failoverScan
  extract_lets newlyDown s₁ s₂ s₃ s₄
  have h₁ : OffHash [] s s₁ := OffHash.foldl (offHash_drainLane [] order) _ s
  have h₃ : OffHash [] s₂ s₃ := by
    simp only [s₃]
    split
    · exact OffHash.foldl (offHash_requeueSignature []) sigOrder s₂
    · exact .refl [] s₂
  have healthy : ∀ i, s₄.pool.healthy i = (s.pool.healthy i && decide (i ∉ dying ++ dying')) := by
    intro i
    have e₁ : s₁.pool.healthy i = s.pool.healthy i :=
      Bool.eq_iff_iff.2 ⟨h₁.lanes.fell i, h₁.lanes.kept i List.not_mem_nil⟩
    have e₃ : s₃.pool.healthy i = s₂.pool.healthy i :=
      Bool.eq_iff_iff.2 ⟨h₃.lanes.fell i, h₃.lanes.kept i List.not_mem_nil⟩
    have e₂ : s₂.pool.healthy i = (s₁.pool.healthy i && decide (i ∉ dying)) :=
      Pool.healthy_markConnsDown dying s₁.pool i
    have e₄ : s₄.pool.healthy i = (s₃.pool.healthy i && decide (i ∉ dying')) :=
      Pool.healthy_markConnsDown dying' s₃.pool i
    rw [e₄, e₃, e₂, e₁, Bool.and_assoc]
    simp [List.mem_append, not_or, Bool.decide_and]
  have length : s₄.pool.length = s.pool.length := by
    have e₂ : s₂.pool.length = s₁.pool.length := Pool.length_markConnsDown dying s₁.pool
    have e₄ : s₄.pool.length = s₃.pool.length := Pool.length_markConnsDown dying' s₃.pool
    rw [e₄, h₃.lanes.length, e₂, h₁.lanes.length]
  have done : s₄.manifestDone = s.manifestDone := h₃.manifestDone.trans h₁.manifestDone
  have closed : s₄.recvClosed = s.recvClosed := h₃.recvClosed.trans h₁.recvClosed
  have hash : s₄.hash = s.hash := h₃.hash.trans h₁.hash
  split
  · rename_i hc
    exact ⟨healthy, length, done, ⟨fun _ => .inr hc.1, fun _ => rfl⟩, hash⟩
  · rename_i hc
    refine ⟨healthy, length, done, ⟨fun h => .inl (closed ▸ h), ?_⟩, hash⟩
    rintro (h | h)
    · exact closed ▸ h
    · by_contra hopen
      exact hc ⟨h, by simpa using hopen⟩

/-! ### Every step -/

theorem links_hash (lost : List ℕ) (s : State P H) (h : HashStage P H) :
    Links lost s { s with hash := h } :=
  ⟨.refl lost s.pool, rfl, rfl⟩

theorem links_resolveCandidate (lost : List ℕ) (cfg : Config) (s : State P H) (rel : P)
    (old : Bool) : Links lost s (s.resolveCandidate cfg rel old) := by
  unfold resolveCandidate
  split
  · exact .refl lost s
  · split
    · exact .refl lost s
    · split
      · exact .refl lost s
      · extract_lets s₁
        have h₁ : Links lost s s₁ := by
          simp only [s₁]
          split
          · exact (offHash_enterOrSchedule lost cfg s rel old).toLinks
          · exact (beside_xfer lost s _ _).toLinks
        exact h₁.trans (links_hash lost s₁ _)

theorem links_forceTransfer (lost : List ℕ) (s : State P H) (rel : P) :
    Links lost s (s.forceTransfer rel) := by
  unfold forceTransfer
  split
  · exact .refl lost s
  · exact (beside_scheduleTransfer lost s rel).toLinks.trans (links_hash lost _ _)

theorem links_sweep (lost : List ℕ) (cfg : Config) (s : State P H) (unresolved : List P)
    (old : P → Bool) :
    Links lost s (s.sweepUnresolvedFallbackIfQuiescent cfg unresolved old) := by
  unfold sweepUnresolvedFallbackIfQuiescent
  split
  · extract_lets ready src s₁ s₂
    have h₁ : Links lost s s₁ := links_hash lost s _
    have h₂ : Links lost s₁ s₂ :=
      Links.foldl (fun s rel => links_resolveCandidate lost cfg s rel (old rel)) ready s₁
    exact (h₁.trans h₂).trans (Links.foldl (links_forceTransfer lost) unresolved s₂)
  · exact .refl lost s

theorem links_handleCompareResult (lost : List ℕ) (cfg : Config) (s : State P H) (rel : P)
    (action : CompareAction) (old : Bool) :
    Links lost s (s.handleCompareResult cfg rel action old) := by
  unfold handleCompareResult
  cases action with
  | transferNow => exact (offHash_enterOrSchedule lost cfg s rel old).toLinks
  | skip => exact (beside_xfer lost s _ _).toLinks
  | needHash => exact links_hash lost s _

theorem links_drainCompare (lost : List ℕ) (cfg : Config) (s : State P H) (old : Bool) :
    Links lost s (s.drainCompare cfg old) := by
  unfold drainCompare
  split
  · exact .refl lost s
  · rename_i r c _
    have h₁ : Links lost s { s with compare := c } := ⟨.refl lost s.pool, rfl, rfl⟩
    exact h₁.trans (links_handleCompareResult lost cfg _ r.1 r.2 old)

theorem links_resolveFallback (lost : List ℕ) (cfg : Config) (s : State P H) (old : Bool) :
    Links lost s (s.resolveFallback cfg old) := by
  unfold resolveFallback
  split
  · exact .refl lost s
  · exact (links_hash lost s _).trans (links_resolveCandidate lost cfg _ _ old)

theorem links_dispatchHashRequests {lost : List ℕ} {lane : ℕ} {sendOk : Bool}
    (hl : sendOk = false → lane ∈ lost) (cfg : Config) (s : State P H) (reached : ℕ) :
    Links lost s (s.dispatchHashRequests cfg lane sendOk reached) := by
  unfold dispatchHashRequests
  split
  · exact .refl lost s
  · cases sendOk with
    | true => exact links_hash lost s _
    | false => exact ⟨Pool.loses_markConnDown (hl rfl) s.pool, rfl, rfl⟩

end State

/-- The lanes that an event takes down: a receive thread ends, or a send fails. -/
def Event.lostLanes : Event P H → List ℕ
  | .laneDown lane => [lane]
  | .failoverScan _ _ dying dying' => dying ++ dying'
  | .dispatchHashRequests lane sendOk _ => if sendOk then [] else [lane]
  | .startTransfer lane _ _ sendOk => if sendOk then [] else [lane]
  | .pumpSignatures lane sendOk _ => if sendOk then [] else [lane]
  | .startDeltaRange lane sendOk => if sendOk then [] else [lane]
  | .startFileRange lane sendOk => if sendOk then [] else [lane]
  | _ => []

open State

theorem mem_lost {lane : ℕ} {sendOk : Bool} (h : sendOk = false) :
    lane ∈ (if sendOk then [] else [lane] : List ℕ) := by
  simp [h]

/-- No step brings a lane back, undoes the end of the manifest or reopens the run, and only the
lanes an event names go down. -/
theorem exec_onward (cfg : Config) (s : State P H) (e : Event P H) :
    Pool.Loses e.lostLanes s.pool (exec cfg s e).pool ∧
      (s.manifestDone = true → (exec cfg s e).manifestDone = true) ∧
      (s.recvClosed = true → (exec cfg s e).recvClosed = true) := by
  have of_links {s' : State P H} (h : Links e.lostLanes s s') :
      Pool.Loses e.lostLanes s.pool s'.pool ∧
        (s.manifestDone = true → s'.manifestDone = true) ∧
        (s.recvClosed = true → s'.recvClosed = true) :=
    ⟨h.lanes, fun hm => by rw [h.manifestDone, hm], fun hr => by rw [h.recvClosed, hr]⟩
  cases e with
  | manifestEnd => exact ⟨.refl _ s.pool, fun _ => rfl, fun h => h⟩
  | laneDown lane =>
    exact of_links ⟨Pool.loses_markConnDown List.mem_cons_self s.pool, rfl, rfl⟩
  | failoverScan order sigOrder dying dying' =>
    obtain ⟨hh, hlen, hm, hc, -⟩ := failoverScan_links s order sigOrder dying dying'
    refine ⟨⟨hlen, fun i hi => ?_, fun i hn hi => ?_⟩, fun h => by rw [exec, hm, h],
      fun h => hc.2 (.inl h)⟩
    · have hi' : (s.failoverScan order sigOrder dying dying').pool.healthy i = true := hi
      rw [hh, Bool.and_eq_true] at hi'
      exact hi'.1
    · have hn' : i ∉ dying ++ dying' := hn
      show (s.failoverScan order sigOrder dying dying').pool.healthy i = true
      rw [hh, hi]
      simpa using hn'
  | dispatchHashRequests lane sendOk reached =>
    exact of_links (links_dispatchHashRequests mem_lost cfg s reached)
  | startTransfer lane healthyAtStart openOk sendOk =>
    exact of_links (beside_tryStartTransfer mem_lost cfg s healthyAtStart openOk).toLinks
  | pumpSignatures lane sendOk reached =>
    exact of_links (offHash_pumpDeltaSignatures mem_lost cfg s reached).toLinks
  | startDeltaRange lane sendOk =>
    exact of_links (offHash_tryStartDeltaRange mem_lost cfg s).toLinks
  | startFileRange lane sendOk =>
    exact of_links (offHash_tryStartFileRange mem_lost cfg s).toLinks
  | drainCompare old => exact of_links (links_drainCompare _ cfg s old)
  | resolveFallback old => exact of_links (links_resolveFallback _ cfg s old)
  | sweep unresolved old => exact of_links (links_sweep _ cfg s unresolved old)
  | drainIo => exact of_links (beside_drainIo _ s).toLinks
  | applyPlan fin => exact of_links (offHash_applyDeltaPlanResult _ cfg s fin).toLinks
  | beginFileRangePlan openOk fin =>
    exact of_links (offHash_beginFileRangePlan _ cfg s openOk fin).toLinks
  | fileBatchOpen k records => exact of_links (beside_fileBatchOpen _ s k records).toLinks
  | fileBatchChunk k payload => exact of_links (beside_fileBatchChunk _ s k payload).toLinks
  | fileBatchEnd k => exact of_links (beside_fileBatchEnd _ s k).toLinks
  | fileChunk k => exact of_links (beside_fileChunk _ s k).toLinks
  | fileEnd k ok => exact of_links (beside_fileEnd _ s k ok).toLinks
  | fileError k => exact of_links (beside_fileError _ s k).toLinks
  | blockSigResponse conn rel => exact of_links (offHash_blockSigResponse _ s conn rel).toLinks
  | deltaRangeChunk k len => exact of_links (offHash_deltaRangeChunk _ s k len).toLinks
  | deltaRangeEnd k fin => exact of_links (offHash_deltaRangeEnd _ cfg s k fin).toLinks
  | deltaError k rel => exact of_links (offHash_deltaError _ s k rel).toLinks
  | fileRangeData k len => exact of_links (offHash_fileRangeData _ s k len).toLinks
  | fileRangeEnd k fin => exact of_links (offHash_fileRangeEnd _ s k fin).toLinks
  | fileRangeError k rel => exact of_links (offHash_fileRangeError _ s k rel).toLinks
  | backoff =>
    simp only [exec]
    split
    · exact of_links ⟨.refl _ s.pool, rfl, rfl⟩
    · exact of_links (.refl _ s)
  | loopTest =>
    simp only [exec, loopTest]
    split <;> exact of_links ⟨.refl _ s.pool, rfl, rfl⟩
  | recvDrainedAndClosed =>
    simp only [exec]
    split
    · exact of_links ⟨.refl _ s.pool, rfl, rfl⟩
    · exact of_links (.refl _ s)
  | manifestEntry | manifestDir | compareFlush | compareTake | comparePublish | hashPop | hashCount
  | hashRecord | hashLeave | hashReady | hashResponse | refreshTuning | rebalance | ioTake | ioWrite
  | ioPublish | planTake | planPublish => exact of_links ⟨.refl _ s.pool, rfl, rfl⟩

/-- A lane that is healthy after a step was not named by it, or no lane went down. -/
theorem healthy_after (cfg : Config) (s : State P H) (e : Event P H) {i : ℕ}
    (hi : (exec cfg s e).pool.healthy i = true) :
    i ∉ e.lostLanes ∨ ∀ j, s.pool.healthy j = true → (exec cfg s e).pool.healthy j = true := by
  have hlanes := (exec_onward cfg s e).1
  by_cases hn : i ∈ e.lostLanes
  · have sent {lane : ℕ} {sendOk : Bool}
        (hl : e.lostLanes = if sendOk then [] else [lane]) (j : ℕ)
        (hj : s.pool.healthy j = true) : (exec cfg s e).pool.healthy j = true := by
      rw [hl] at hn
      cases sendOk with
      | true => cases hn
      | false =>
        by_cases hji : j = i
        · rwa [hji]
        · refine hlanes.kept j ?_ hj
          rw [hl]
          rw [List.mem_singleton.1 hn] at hji
          simpa using hji
    cases e with
    | failoverScan order sigOrder dying dying' =>
      have hi' : (s.failoverScan order sigOrder dying dying').pool.healthy i = true := hi
      rw [(failoverScan_links s order sigOrder dying dying').1, Bool.and_eq_true] at hi'
      exact .inl (of_decide_eq_true hi'.2)
    | laneDown lane =>
      have hi' : (s.pool.markConnDown lane).healthy i = true := hi
      rw [Pool.healthy_markConnDown, Bool.and_eq_true] at hi'
      exact absurd (List.mem_singleton.1 hn) (of_decide_eq_true hi'.2)
    | dispatchHashRequests | startTransfer | pumpSignatures | startDeltaRange | startFileRange =>
      exact .inr (sent rfl)
    | _ => cases hn
  · exact .inl hn

end FastClone.Client
