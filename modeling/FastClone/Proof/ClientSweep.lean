import FastClone.Proof.ClientHash

/-!
# The forced transfer of the sweep

`sweepUnresolvedFallbackIfQuiescent` takes four counters for the hash stage. A task that waits in
`hashTaskQueue`, or that a worker has popped and not counted yet, is in none of them. A file
of equal hashes is kept from every transfer (`Untouched`) in the runs whose sweeps find no
such task; there a sweep has nothing to force.
-/

set_option linter.unusedSectionVars false

namespace FastClone.Client

open State Runs Table

variable {P H : Type} [DecidableEq P] [DecidableEq H]

/-! ### Files that were never picked for a transfer -/

/-- The file is not scheduled, it is neither a delta file nor in block mode, no signature was
asked for it and no stream fetches a block of it. -/
structure State.Untouched (s : State P H) (f : P) : Prop where
  scheduled : f ∉ s.xfer.scheduledTransfers
  delta : f ∉ s.delta.book.states
  signature : f ∉ s.delta.deltaSigRequested
  block : f ∉ s.range.book.states
  blocks : s.streams.ranges .block f = 0

namespace State.Untouched

variable {s s' : State P H} {f : P}

theorem beside {lost : List ℕ} (h : s.Untouched f) (hb : Beside lost s s')
    (hx : f ∉ s'.xfer.scheduledTransfers) : s'.Untouched f where
  scheduled := hx
  delta := by rw [hb.delta]; exact h.delta
  signature := by rw [hb.delta]; exact h.signature
  block := by rw [hb.range]; exact h.block
  blocks := by rw [hb.ranges]; exact h.blocks

theorem withDelta (h : s.Untouched f) {d : DeltaStage P} (hd : f ∉ d.book.states)
    (hs : f ∉ d.deltaSigRequested) : { s with delta := d }.Untouched f :=
  ⟨h.scheduled, hd, hs, h.block, h.blocks⟩

theorem withRange (h : s.Untouched f) {r : FileRangeStage P} (hr : f ∉ r.book.states) :
    { s with range := r }.Untouched f :=
  ⟨h.scheduled, h.delta, h.signature, hr, h.blocks⟩

theorem withStreams (h : s.Untouched f) {t : Streams P} (ht : t.ranges .block f = 0) (pool : Pool) :
    { s with
      streams := t
      pool := pool }.Untouched f :=
  ⟨h.scheduled, h.delta, h.signature, h.block, ht⟩

/-- Another file is scheduled. -/
theorem schedule (h : s.Untouched f) {rel : P} (hne : f ≠ rel) :
    (s.scheduleTransfer rel).Untouched f := by
  refine h.beside (beside_scheduleTransfer [] s rel) ?_
  have hx := Transfers.scheduled_scheduleTransfer s.size s.xfer rel
  show f ∉ (s.xfer.scheduleTransfer s.size rel).scheduledTransfers
  rw [hx, Finset.mem_insert, not_or]
  exact ⟨hne, h.scheduled⟩

theorem retry (h : s.Untouched f) (rel : P) : (s.retryOrFail rel).Untouched f := by
  refine h.beside (beside_retryOrFail [] s rel) ?_
  show f ∉ (s.xfer.retryOrFail s.size rel).scheduledTransfers
  rw [Transfers.scheduled_retryOrFail]
  exact h.scheduled

theorem count (h : s.Untouched f) (rel : Option P) (o : Outcome) : (s.count rel o).Untouched f :=
  h.beside (beside_xfer [] s _ s.io) h.scheduled

theorem countTransferred (h : s.Untouched f) (rel : P) : (s.countTransferred rel).Untouched f :=
  h.beside (beside_countTransferred [] s rel) h.scheduled

theorem applyOuts (h : s.Untouched f) (outs : List (BatchOut P)) : (s.applyOuts outs).Untouched f := by
  unfold State.applyOuts
  induction outs generalizing s with
  | nil => exact h
  | cons o outs ih =>
    refine ih ?_
    cases o with
    | write task => exact h.beside (beside_xfer [] s s.xfer _) h.scheduled
    | fail rel => exact h.beside (beside_xfer [] s _ s.io) h.scheduled
    | retry rel => exact h.retry rel

/-- What leaves the lives of the files as they are schedules none. -/
theorem of_life {lost : List ℕ} (h : s.Untouched f) (hb : Beside lost s s')
    (hl : s'.life f = s.life f) : s'.Untouched f := by
  refine h.beside hb ?_
  have hx : decide (f ∈ s'.xfer.scheduledTransfers) = decide (f ∈ s.xfer.scheduledTransfers) :=
    congrArg FileLife.Life.scheduled hl
  rw [decide_eq_decide] at hx
  rw [hx]
  exact h.scheduled

theorem close (h : s.Untouched f) {k : Key} {st : Stream P} (hk : s.streams.find k = some st) :
    (s.closeStream k).Untouched f := by
  have hr := Streams.ranges_close hk .block f
  have hle : (s.streams.close k).ranges .block f ≤ 0 := by
    rw [← h.blocks, hr]
    exact Multiset.le_add_left _ _
  exact h.withStreams (Multiset.le_zero.1 hle) _

/-- No block of the file is on a stream. -/
theorem ne_block (h : s.Untouched f) {k : Key} {r : ActiveRange P}
    (hk : s.streams.find k = some (.fileRange r)) : f ≠ r.rel := by
  rintro rfl
  have hr := Streams.ranges_close hk .block r.rel
  rw [h.blocks, Stream.ranges, if_pos ⟨rfl, rfl⟩] at hr
  have hcard := congrArg Multiset.card hr
  simp at hcard

theorem unknown (h : s.Untouched f) (conn : ℕ) (what : String) :
    (s.unknownStream conn what).Untouched f := by
  unfold unknownStream
  split <;> exact ⟨h.scheduled, h.delta, h.signature, h.block, h.blocks⟩

end State.Untouched

/-- A book that manages no file more. -/
theorem notMem_update {b : RangeBook P} {f : P} (h : f ∉ b.states) (rel : P) (st : RangeState) :
    f ∉ (b.update rel st).states := by
  unfold RangeBook.update
  split
  · rename_i hm
    intro hf
    rcases (AList.mem_insert b.states).1 hf with rfl | hf
    · exact h hm
    · exact h hf
  · exact h

theorem notMem_erase {b : RangeBook P} {f : P} (h : f ∉ b.states) (rel : P) :
    f ∉ b.states.erase rel :=
  fun hf => h (AList.mem_erase.1 hf).2

theorem ne_of_lookup {b : RangeBook P} {f rel : P} {st : RangeState} (h : f ∉ b.states)
    (hl : b.states.lookup rel = some st) : f ≠ rel := by
  rintro rfl
  exact h (mem_of_lookup hl)

theorem notMem_manage {b b' : RangeBook P} {f rel : P} {bytes : ℕ} (h : f ∉ b.states)
    (hm : b.manage rel bytes = some b') (hne : f ≠ rel) : f ∉ b'.states := by
  obtain ⟨-, -, hdisjoint, rfl⟩ := RangeBook.manage_eq_some hm
  intro hf
  rcases (AList.mem_insert b.states).1 hf with hf | hf
  · exact hne hf
  · exact h hf

namespace State.Untouched

variable {s s' : State P H} {f : P}

/-! ### The functions of the main loop -/

theorem enterFileRangeOrSchedule (h : s.Untouched f) (cfg : Config) {rel : P} (hne : f ≠ rel) :
    (s.enterFileRangeOrSchedule cfg rel).Untouched f := by
  unfold State.enterFileRangeOrSchedule
  cases he : s.tryEnterFileRange cfg rel with
  | none => exact h.schedule hne
  | some s' =>
    obtain ⟨book, hb, rfl⟩ := tryEnterFileRange_eq_some he
    exact h.withRange (notMem_manage h.block hb hne)

theorem enterOrSchedule (h : s.Untouched f) (cfg : Config) {rel : P} (hne : f ≠ rel) (old : Bool) :
    (s.enterOrSchedule cfg rel old).Untouched f := by
  unfold State.enterOrSchedule
  cases he : s.tryEnterDelta cfg rel old with
  | none => exact h.enterFileRangeOrSchedule cfg hne
  | some s' =>
    obtain ⟨-, book, hb, rfl⟩ := tryEnterDelta_eq_some he
    exact h.withDelta (notMem_manage h.delta hb hne) h.signature

theorem finalizeDelta (h : s.Untouched f) (cfg : Config) (rel : P) (fin : TempFinalizeResult) :
    (s.finalizeDelta cfg rel fin).Untouched f := by
  unfold State.finalizeDelta
  split
  · exact h
  · rename_i st hl
    have hne := ne_of_lookup h.delta hl
    extract_lets book
    have hd : f ∉ book.states.erase rel := notMem_erase (b := book) h.delta rel
    split
    · exact (h.withDelta (d := { s.delta with book := book.forget rel }) hd
        h.signature).countTransferred rel
    · exact (h.withDelta (d := { s.delta with book := book.abandon rel }) hd
        h.signature).enterFileRangeOrSchedule cfg hne

theorem finalizeFileRange (h : s.Untouched f) (rel : P) (fin : TempFinalizeResult) :
    (s.finalizeFileRange rel fin).Untouched f := by
  unfold State.finalizeFileRange
  split
  · exact h
  · rename_i st hl
    have hne := ne_of_lookup h.block hl
    extract_lets book
    have hr : f ∉ book.states.erase rel := notMem_erase (b := book) h.block rel
    split
    · exact (h.withRange (r := { s.range with book := book.forget rel }) hr).countTransferred rel
    · exact (h.withRange (r := { s.range with book := book.abandon rel }) hr).schedule hne

theorem applyDeltaPlanResult (h : s.Untouched f) (cfg : Config) (fin : TempFinalizeResult) :
    (s.applyDeltaPlanResult cfg fin).Untouched f := by
  unfold State.applyDeltaPlanResult
  split
  · exact h
  · rename_i r d hd
    obtain ⟨-, hbook, hsig, -⟩ := drainPlan_eq_some hd
    have hb : f ∉ d.book.states := by rw [hbook]; exact h.delta
    have hq : f ∉ d.deltaSigRequested := by rw [hsig]; exact h.signature
    split
    · exact h.withDelta hb hq
    · rename_i st hl
      have hne := ne_of_lookup hb hl
      split
      · exact (h.withDelta (d := { d with book := d.book.abandon r.rel }) (notMem_erase hb r.rel)
          hq).enterFileRangeOrSchedule cfg hne
      · rename_i ranges _
        extract_lets s₁
        have h₁ : s₁.Untouched f := h.withDelta (notMem_update hb r.rel _) hq
        split
        · exact h₁.finalizeDelta cfg r.rel fin
        · exact h₁

theorem beginFileRangePlan (h : s.Untouched f) (cfg : Config) (openOk : Bool)
    (fin : TempFinalizeResult) : (s.beginFileRangePlan cfg openOk fin).Untouched f := by
  unfold State.beginFileRangePlan
  split
  · exact h
  · rename_i rel rest _
    extract_lets src s₁
    have h₁ : s₁.Untouched f := h.withRange h.block
    split
    · exact h₁
    · rename_i st hl
      have hne := ne_of_lookup h₁.block hl
      split
      · exact h₁
      · split
        · exact (h₁.withRange (r := { s₁.range with book := s₁.range.book.abandon rel })
            (notMem_erase h₁.block rel)).schedule hne
        · extract_lets plan s₂
          have h₂ : s₂.Untouched f := h₁.withRange (notMem_update h₁.block rel _)
          split
          · exact h₂.finalizeFileRange rel fin
          · exact h₂

theorem pumpDeltaSignatures (h : s.Untouched f) (cfg : Config) (lane : ℕ) (sendOk : Bool)
    (reached : ℕ) : (s.pumpDeltaSignatures cfg lane sendOk reached).Untouched f := by
  unfold State.pumpDeltaSignatures
  extract_lets room r
  split
  · exact h.withDelta h.delta h.signature
  · split
    · refine h.withDelta h.delta fun hf => ?_
      rcases Finset.mem_union.1 hf with hf | hf
      · exact h.signature hf
      · have hm := mem_sigBatch (List.mem_toFinset.1 hf)
        exact h.delta (of_decide_eq_true hm)
    · exact ⟨h.scheduled, h.delta, h.signature, h.block, h.blocks⟩

theorem tryStartDeltaRange (h : s.Untouched f) (cfg : Config) (lane : ℕ) (sendOk : Bool) :
    (s.tryStartDeltaRange cfg lane sendOk).Untouched f := by
  unfold State.tryStartDeltaRange
  split
  · exact h
  · rename_i t rest _
    extract_lets popped
    split
    · exact h.withDelta h.delta h.signature
    · split
      · split
        · have hr := Streams.ranges_openNext s.streams lane
            (.deltaRange ⟨t.rel, t.offset, t.length, 0⟩) .block f
          refine ⟨h.scheduled, h.delta, h.signature, h.block, ?_⟩
          rw [hr, h.blocks]
          simp [Stream.ranges]
        · exact h.withStreams (t := s.streams.skipId lane) h.blocks _
      · exact h

theorem tryStartFileRange (h : s.Untouched f) (cfg : Config) (lane : ℕ) (sendOk : Bool) :
    (s.tryStartFileRange cfg lane sendOk).Untouched f := by
  unfold State.tryStartFileRange
  split
  · exact h
  · rename_i t rest _
    extract_lets popped
    split
    · exact h.withRange h.block
    · rename_i hm
      have hne : t.rel ≠ f := by
        rintro rfl
        exact hm h.block
      split
      · split
        · have hr := Streams.ranges_openNext s.streams lane
            (.fileRange ⟨t.rel, t.offset, t.length, 0⟩) .block f
          refine ⟨h.scheduled, h.delta, h.signature, h.block, ?_⟩
          rw [hr, h.blocks]
          simp [Stream.ranges, hne]
        · exact h.withStreams (t := s.streams.skipId lane) h.blocks _
      · exact h

theorem blockSigResponse (h : s.Untouched f) (conn : ℕ) (rel : P) :
    (s.blockSigResponse conn rel).Untouched f := by
  unfold State.blockSigResponse
  extract_lets d
  split
  · exact h.withDelta h.delta h.signature
  · split
    · exact h.withDelta h.delta h.signature
    · exact h.withDelta (notMem_update h.delta rel _) h.signature

theorem deltaRangeEnd (h : s.Untouched f) (cfg : Config) (k : Key) (fin : TempFinalizeResult) :
    (s.deltaRangeEnd cfg k fin).Untouched f := by
  unfold State.deltaRangeEnd
  split
  · rename_i r hk
    extract_lets s₁
    have h₁ : s₁.Untouched f := h.close hk
    split
    · exact h₁
    · rename_i st _
      extract_lets s₂
      have h₂ : s₂.Untouched f := h₁.withDelta (notMem_update h₁.delta r.rel _) h₁.signature
      split
      · exact h₂.finalizeDelta cfg r.rel fin
      · exact h₂
  · exact h.unknown _ _

theorem fileRangeEnd (h : s.Untouched f) (k : Key) (fin : TempFinalizeResult) :
    (s.fileRangeEnd k fin).Untouched f := by
  unfold State.fileRangeEnd
  split
  · rename_i r hk
    extract_lets s₁
    have h₁ : s₁.Untouched f := h.close hk
    split
    · exact h₁
    · rename_i st _
      extract_lets s₂
      have h₂ : s₂.Untouched f := h₁.withRange (notMem_update h₁.block r.rel _)
      split
      · exact h₂.finalizeFileRange r.rel fin
      · exact h₂
  · exact h.unknown _ _

theorem deltaErrorFor (h : s.Untouched f) (tagged : Bool) (rel : P) :
    (s.deltaErrorFor tagged rel).Untouched f := by
  unfold State.deltaErrorFor
  extract_lets st wasManaged releases src d
  have hsig : f ∉ d.deltaSigRequested := by
    show f ∉ if releases then s.delta.deltaSigRequested.erase rel else s.delta.deltaSigRequested
    split
    · exact fun hf => h.signature (Finset.mem_of_mem_erase hf)
    · exact h.signature
  split
  · rename_i hm
    -- a file that is scheduled here is a delta file, or its signature was asked for
    have hne : f ≠ rel := by
      rintro rfl
      have h0 : s.delta.book.states.lookup f = none := AList.lookup_eq_none.2 h.delta
      simp [wasManaged, st, h0, h.signature] at hm
    exact (h.withDelta (d := { d with book := d.book.abandon rel })
      (notMem_erase h.delta rel) hsig).schedule hne
  · exact h.withDelta (notMem_erase h.delta rel) hsig

theorem deltaError (h : s.Untouched f) (k : Key) (rel : P) : (s.deltaError k rel).Untouched f := by
  unfold State.deltaError
  split
  · rename_i r hr
    unfold deltaTag at hr
    split at hr
    · rename_i r' hk
      exact (h.close hk).deltaErrorFor true _
    · cases hr
  · refine State.Untouched.deltaErrorFor ?_ false rel
    exact h.withDelta h.delta h.signature

theorem fileRangeError (h : s.Untouched f) {k : Key} {r : ActiveRange P}
    (hk : s.streams.find k = some (.fileRange r)) (rel : P) :
    (s.fileRangeError k rel).Untouched f := by
  unfold State.fileRangeError
  rw [hk]
  have h₁ := h.close hk
  show ((s.closeStream k).fileRangeErrorFor r.rel).Untouched f
  unfold State.fileRangeErrorFor
  split
  · exact h₁.withRange (notMem_erase h₁.block r.rel)
  · exact (h₁.withRange (r := { (s.closeStream k).range with
      book := (s.closeStream k).range.book.abandon r.rel })
      (notMem_erase h₁.block r.rel)).schedule (h.ne_block hk)

theorem updateRange (h : s.Untouched f) {k : Key} {st st' : Stream P}
    (hk : s.streams.find k = some st) (hst : st'.ranges .block f = st.ranges .block f) :
    { s with streams := s.streams.update k st' }.Untouched f := by
  refine ⟨h.scheduled, h.delta, h.signature, h.block, ?_⟩
  show (s.streams.update k st').ranges .block f = 0
  rw [Streams.ranges_update hk .block f hst, h.blocks]

end State.Untouched

/-! ### Lanes that all stay up -/

/-- Every lane of the pool is healthy. -/
def Pool.AllUp (p : Pool) : Prop := ∀ i, i < p.length → p.healthy i = true

theorem allUp_start (cfg : Config) : (State.start P H cfg).pool.AllUp := by
  intro i hi
  have hi' : i < cfg.laneCount := by simpa [State.start] using hi
  simp [State.start, Pool.healthy, hi']

theorem allUp_exec (cfg : Config) {s : State P H} {e : Event P H} (h : s.pool.AllUp)
    (hl : e.lostLanes = []) : (exec cfg s e).pool.AllUp := by
  have hlanes := (exec_onward cfg s e).1
  intro i hi
  rw [hlanes.length] at hi
  refine hlanes.kept i ?_ (h i hi)
  rw [hl]
  exact List.not_mem_nil

/-- With every lane up `failoverScan` finds nothing to do. -/
theorem drainLane_allUp {s : State P H} (h : s.pool.AllUp) (order : List Key) (lane : ℕ) :
    s.drainLane order lane = s := by
  unfold drainLane
  rw [if_neg]
  intro hd
  obtain ⟨l, hl, hdead⟩ := (Option.any_eq_true _ _).1 hd
  have hlt : lane < s.pool.length := (List.getElem?_eq_some_iff.1 hl).1
  have hup := h lane hlt
  rw [Pool.healthy, hl] at hup
  have hup' : l.healthy = true := hup
  rw [hup'] at hdead
  cases hdead

theorem drainLanes_allUp {s : State P H} (h : s.pool.AllUp) (order : List Key) (lanes : List ℕ) :
    lanes.foldl (drainLane order) s = s := by
  induction lanes with
  | nil => rfl
  | cons lane lanes ih => rw [List.foldl_cons, drainLane_allUp h, ih]

theorem untouched_failoverScan {s : State P H} {f : P} (h : s.Untouched f) (hup : s.pool.AllUp)
    (order : List Key) (sigOrder : List P) : (s.failoverScan order sigOrder [] []).Untouched f := by
  have hnone : (s.pool.any fun l => !l.healthy && !l.drained) = false := by
    rw [List.any_eq_false]
    intro l hl
    obtain ⟨i, hi⟩ := List.mem_iff_getElem?.1 hl
    have hup' := hup i (List.getElem?_eq_some_iff.1 hi).1
    rw [Pool.healthy, hi] at hup'
    have hl' : l.healthy = true := hup'
    simp [hl']
  unfold State.failoverScan
  rw [hnone, drainLanes_allUp hup]
  simp only [lanesDown, List.foldl_nil, Bool.false_and, Bool.false_eq_true, if_false]
  split
  · exact ⟨h.scheduled, h.delta, h.signature, h.block, h.blocks⟩
  · exact h

/-! ### What the hash stage knows -/

section

variable (L R : P → H)

/-- The recorded hashes are those of the files, none failed, and a requested file is pending, its
task is queued or with a worker, or its hash is recorded. -/
structure HashStage.Honest (h : HashStage P H) : Prop where
  ofLocal : ∀ f v, h.localHashes f = some v → v = L f
  ofRemote : ∀ f v, h.remoteHashes f = some v → v = R f
  failed : h.localHashFailed = ∅
  tasks : ∀ f ∈ h.hashRequested, f ∈ h.pendingHashRequests ∨ f ∈ h.hashTaskQueue ∨
    (f, .popped) ∈ h.hashWorkers ∨ (f, .counted) ∈ h.hashWorkers ∨ h.localHashes f ≠ none

end

namespace HashStage.Honest

variable {L R : P → H} {h : HashStage P H}

theorem empty : (HashStage.empty P H).Honest L R where
  ofLocal := by
    intro f v hv
    cases hv
  ofRemote := by
    intro f v hv
    cases hv
  failed := rfl
  tasks := by
    intro f hf
    exact absurd hf (Finset.notMem_empty f)

theorem request (ht : h.Honest L R) (rel : P) : (h.request rel).Honest L R := by
  unfold HashStage.request
  split
  · exact ht
  · refine ⟨ht.ofLocal, ht.ofRemote, ht.failed, fun f hf => ?_⟩
    rcases Finset.mem_insert.1 hf with rfl | hf
    · exact .inl (by simp)
    · rcases ht.tasks f hf with h1 | h1
      · exact .inl (List.mem_append_left _ h1)
      · exact .inr h1

theorem dispatch (ht : h.Honest L R) (window lane reached : ℕ) :
    (h.dispatch window lane reached).Honest L R := by
  refine ⟨ht.ofLocal, ht.ofRemote, ht.failed, fun f hf => ?_⟩
  rcases ht.tasks f hf with h1 | h1 | h1
  · rw [← List.take_append_drop (h.flushSize window) h.pendingHashRequests] at h1
    rcases List.mem_append.1 h1 with h1 | h1
    · exact .inr (.inl (List.mem_append_right _ h1))
    · exact .inl h1
  · exact .inr (.inl (List.mem_append_left _ h1))
  · exact .inr (.inr h1)

theorem response (ht : h.Honest L R) (lane : ℕ) (rel : P) (toFallback : Bool) :
    (h.response lane rel (R rel) toFallback).Honest L R := by
  refine ⟨ht.ofLocal, fun f v hv => ?_, ht.failed, ht.tasks⟩
  by_cases hf : f = rel
  · subst hf
    have hv' : some (R f) = some v := by simpa [HashStage.response] using hv
    exact (Option.some.inj hv').symm
  · refine ht.ofRemote f v ?_
    simpa [HashStage.response, Function.update_of_ne hf] using hv

theorem resolve (ht : h.Honest L R) (rel : P) : (h.resolve rel).Honest L R := by
  unfold HashStage.resolve
  split
  · exact ⟨ht.ofLocal, ht.ofRemote, ht.failed, ht.tasks⟩
  · exact ht

theorem readyQueue (ht : h.Honest L R) (q : List P) :
    HashStage.Honest L R { h with fallbackReadyQueue := q } :=
  ⟨ht.ofLocal, ht.ofRemote, ht.failed, ht.tasks⟩

theorem workerPop (ht : h.Honest L R) : h.workerPop.Honest L R := by
  unfold HashStage.workerPop
  split
  · exact ht
  · rename_i g rest hq
    refine ⟨ht.ofLocal, ht.ofRemote, ht.failed, fun f hf => ?_⟩
    rcases ht.tasks f hf with h1 | h1 | h1 | h1 | h1
    · exact .inl h1
    · rw [hq] at h1
      rcases List.mem_cons.1 h1 with rfl | h1
      · exact .inr (.inr (.inl List.mem_cons_self))
      · exact .inr (.inl h1)
    · exact .inr (.inr (.inl (List.mem_cons_of_mem _ h1)))
    · exact .inr (.inr (.inr (.inl (List.mem_cons_of_mem _ h1))))
    · exact .inr (.inr (.inr (.inr h1)))

/-- The other workers keep their phase. -/
theorem mem_modify {l : List (P × HashPhase)} {i : ℕ} {v w : P × HashPhase} (p : HashPhase)
    (hi : l[i]? = some v) (hw : w ∈ l) (hne : w ≠ v) :
    w ∈ l.modify i fun u => (u.1, p) := by
  obtain ⟨j, hj⟩ := List.mem_iff_getElem?.1 hw
  have hij : i ≠ j := by
    rintro rfl
    rw [hi] at hj
    exact hne (Option.some.inj hj).symm
  refine List.mem_iff_getElem?.2 ⟨j, ?_⟩
  rw [List.getElem?_modify, hj]
  simp [hij]

theorem mem_modify_self {l : List (P × HashPhase)} {i : ℕ} {v : P × HashPhase} (p : HashPhase)
    (hi : l[i]? = some v) : (v.1, p) ∈ l.modify i fun u => (u.1, p) := by
  refine List.mem_iff_getElem?.2 ⟨i, ?_⟩
  rw [List.getElem?_modify, hi]
  simp

theorem workerCount (ht : h.Honest L R) (i : ℕ) : (h.workerCount i).Honest L R := by
  unfold HashStage.workerCount
  split
  · rename_i g hi
    refine ⟨ht.ofLocal, ht.ofRemote, ht.failed, fun f hf => ?_⟩
    rcases ht.tasks f hf with h1 | h1 | h1 | h1 | h1
    · exact .inl h1
    · exact .inr (.inl h1)
    · by_cases hfg : f = g
      · subst hfg
        exact .inr (.inr (.inr (.inl (mem_modify_self .counted hi))))
      · refine .inr (.inr (.inl (mem_modify .counted hi h1 ?_)))
        exact fun he => hfg (congrArg Prod.fst he)
    · refine .inr (.inr (.inr (.inl (mem_modify .counted hi h1 ?_))))
      intro he
      cases he
    · exact .inr (.inr (.inr (.inr h1)))
  · exact ht

theorem workerRecord (ht : h.Honest L R) (i : ℕ) {result : Option H}
    (hr : ∀ w ∈ h.hashWorkers[i]?, w.2 = .counted → result = some (L w.1)) :
    (h.workerRecord i result).Honest L R := by
  unfold HashStage.workerRecord
  split
  · rename_i g hi
    have hres : result = some (L g) := hr (g, .counted) hi rfl
    subst hres
    refine ⟨fun f v hv => ?_, ht.ofRemote, ht.failed, fun f hf => ?_⟩
    · by_cases hfg : f = g
      · subst hfg
        have hv' : some (L f) = some v := by simpa using hv
        exact (Option.some.inj hv').symm
      · refine ht.ofLocal f v ?_
        simpa [Function.update_of_ne hfg] using hv
    · by_cases hfg : f = g
      · subst hfg
        exact .inr (.inr (.inr (.inr (by simp))))
      · rcases ht.tasks f hf with h1 | h1 | h1 | h1 | h1
        · exact .inl h1
        · exact .inr (.inl h1)
        · refine .inr (.inr (.inl (mem_modify .recorded hi h1 ?_)))
          exact fun he => hfg (congrArg Prod.fst he)
        · refine .inr (.inr (.inr (.inl (mem_modify .recorded hi h1 ?_))))
          exact fun he => hfg (congrArg Prod.fst he)
        · refine .inr (.inr (.inr (.inr ?_)))
          simpa [Function.update_of_ne hfg] using h1
  · exact ht

theorem workerLeave (ht : h.Honest L R) (i : ℕ) : (h.workerLeave i).Honest L R := by
  unfold HashStage.workerLeave
  split
  · rename_i g hi
    refine ⟨ht.ofLocal, ht.ofRemote, ht.failed, fun f hf => ?_⟩
    have hne (p : HashPhase) (hp : p ≠ .recorded) : (f, p) ≠ (g, .recorded) :=
      fun he => hp (congrArg Prod.snd he)
    rcases ht.tasks f hf with h1 | h1 | h1 | h1 | h1
    · exact .inl h1
    · exact .inr (.inl h1)
    · exact .inr (.inr (.inl (mem_modify .left hi h1 (hne .popped (by decide)))))
    · exact .inr (.inr (.inr (.inl (mem_modify .left hi h1 (hne .counted (by decide))))))
    · exact .inr (.inr (.inr (.inr h1)))
  · exact ht

theorem workerReady (ht : h.Honest L R) (i : ℕ) : (h.workerReady i).Honest L R := by
  unfold HashStage.workerReady
  split
  · rename_i g hi
    have keep {w : P × HashPhase} (hw : w ∈ h.hashWorkers) (hp : w.2 ≠ .left) :
        w ∈ h.hashWorkers.eraseIdx i := by
      obtain ⟨j, hj⟩ := List.mem_iff_getElem?.1 hw
      refine List.mem_eraseIdx_iff_getElem?.2 ⟨j, ?_, hj⟩
      rintro rfl
      rw [hi] at hj
      exact hp (by rw [← Option.some.inj hj])
    refine ⟨ht.ofLocal, ht.ofRemote, ht.failed, fun f hf => ?_⟩
    rcases ht.tasks f hf with h1 | h1 | h1 | h1 | h1
    · exact .inl h1
    · exact .inr (.inl h1)
    · exact .inr (.inr (.inl (keep h1 (by rintro ⟨⟩))))
    · exact .inr (.inr (.inr (.inl (keep h1 (by rintro ⟨⟩)))))
    · exact .inr (.inr (.inr (.inr h1)))
  · exact ht

end HashStage.Honest

/-! ### The sweep -/

namespace State

/-- The four counters of `sweepUnresolvedFallbackIfQuiescent` let it act. -/
def quiescent (s : State P H) : Prop :=
  s.hash.fallbackResolved < s.hash.fallbackCount ∧ s.hash.pendingHashRequests = [] ∧
    s.hash.hashRequestsSent = s.hash.hashResponsesReceived ∧ s.hash.localHashInFlight = 0

instance (s : State P H) : Decidable s.quiescent := inferInstanceAs (Decidable (_ ∧ _ ∧ _ ∧ _))

/-- The state after the call of `resolveFallbackIfReady` in the sweep. -/
def sweepResolved (cfg : Config) (s : State P H) (unresolved : List P) (oldReadable : P → Bool) :
    State P H :=
  (s.hash.fallbackReadyQueue ++ unresolved).foldl
    (fun s rel => s.resolveCandidate cfg rel (oldReadable rel))
    { s with hash := { s.hash with fallbackReadyQueue := [] } }

/-- `stillUnresolved`: the files whose transfer the sweep forces. -/
def stillUnresolved (cfg : Config) (s : State P H) (unresolved : List P) (oldReadable : P → Bool) :
    List P :=
  if s.quiescent then
    unresolved.filter fun f => f ∉ (s.sweepResolved cfg unresolved oldReadable).hash.hashResolved
  else []

end State

/-- A forced transfer passes over the files that are resolved. -/
theorem foldl_forceTransfer_filter (l : List P) (s : State P H) {A : Finset P}
    (hA : A ⊆ s.hash.hashResolved) :
    (l.filter fun f => f ∉ A).foldl forceTransfer s = l.foldl forceTransfer s := by
  induction l generalizing s with
  | nil => rfl
  | cons f l ih =>
    have hmono := (resolves_forceTransfer s f).resolved
    by_cases hf : f ∈ A
    · have hskip : s.forceTransfer f = s := if_pos (hA hf)
      rw [List.filter_cons_of_neg (by simpa using hf), List.foldl_cons, hskip]
      exact ih s hA
    · rw [List.filter_cons_of_pos (by simpa using hf), List.foldl_cons, List.foldl_cons]
      exact ih _ (hA.trans hmono)

/-- The sweep forces the files it leaves unresolved and no other. -/
theorem sweep_eq (cfg : Config) (s : State P H) (unresolved : List P) (old : P → Bool) :
    s.sweepUnresolvedFallbackIfQuiescent cfg unresolved old =
      if s.quiescent then
        (s.stillUnresolved cfg unresolved old).foldl forceTransfer (s.sweepResolved cfg unresolved old)
      else s := by
  by_cases hq : s.quiescent
  · have hstill : s.stillUnresolved cfg unresolved old = unresolved.filter fun f =>
        f ∉ (s.sweepResolved cfg unresolved old).hash.hashResolved := if_pos hq
    rw [if_pos hq, hstill, foldl_forceTransfer_filter _ _ (Finset.Subset.refl _)]
    exact if_pos hq
  · rw [if_neg hq]
    exact if_neg hq

section

variable {L R : P → H} {s : State P H}

/-- A candidate of equal hashes is counted as unchanged. -/
theorem untouched_resolveCandidate (cfg : Config) {f : P} (h : s.Untouched f) (hf : L f = R f)
    (ht : s.hash.Honest L R) (rel : P) (old : Bool) :
    (s.resolveCandidate cfg rel old).Untouched f := by
  unfold resolveCandidate
  split
  · exact h
  · split
    · exact h
    · rename_i remote hrem
      split
      · exact h
      · rename_i hknown
        dsimp only
        have hfail : rel ∉ s.hash.localHashFailed := by simp [ht.failed]
        split
        · rename_i hdiff
          have hne : f ≠ rel := by
            rintro rfl
            have hloc : s.hash.localHashes f ≠ some remote := hdiff.resolve_left hfail
            cases hl : s.hash.localHashes f with
            | none => exact hknown ⟨hl, hfail⟩
            | some v =>
              have hv := ht.ofLocal f v hl
              have hr := ht.ofRemote f remote hrem
              exact hloc (by rw [hl, hv, hr, hf])
          have h' := h.enterOrSchedule cfg hne old
          exact ⟨h'.scheduled, h'.delta, h'.signature, h'.block, h'.blocks⟩
        · exact ⟨h.scheduled, h.delta, h.signature, h.block, h.blocks⟩

/-- A candidate with both hashes is resolved. -/
theorem resolved_resolveCandidate (cfg : Config) (s : State P H) {f : P}
    (hr : f ∈ s.hash.hashRequested) (hrem : s.hash.remoteHashes f ≠ none)
    (hloc : s.hash.localHashes f ≠ none) (old : Bool) :
    f ∈ (s.resolveCandidate cfg f old).hash.hashResolved := by
  rcases s.resolveCandidate_cases cfg f old with he | ⟨-, hn, he, -⟩
  · rw [he]
    by_contra hn
    obtain ⟨remote, hremote⟩ := Option.ne_none_iff_exists'.1 hrem
    -- the candidate is not passed over, so it is resolved
    have hres : f ∈ (s.resolveCandidate cfg f old).hash.hashResolved := by
      unfold resolveCandidate
      rw [if_neg hn, hremote]
      dsimp only
      rw [if_neg (fun h => hloc h.1)]
      dsimp only
      have hhash : ∀ s' : State P H, s'.hash = s.hash →
          f ∈ (s'.hash.resolve f).hashResolved := by
        intro s' hs'
        rw [hs', HashStage.resolve, dif_pos ⟨hr, hn⟩]
        exact Finset.mem_insert_self _ _
      split
      · exact hhash _ (hash_enterOrSchedule cfg s f old)
      · exact hhash _ rfl
    rw [he] at hres
    exact hn hres
  · rw [he, HashStage.resolve, dif_pos ⟨hr, hn⟩]
    exact Finset.mem_insert_self _ _

theorem honest_resolveCandidate (cfg : Config) (ht : s.hash.Honest L R) (rel : P) (old : Bool) :
    (s.resolveCandidate cfg rel old).hash.Honest L R := by
  rcases hash_resolveCandidate cfg s rel old with he | he
  · rw [he]
    exact ht
  · rw [he]
    exact ht.resolve rel

theorem hashes_resolveCandidate (cfg : Config) (s : State P H) (rel : P) (old : Bool) :
    (s.resolveCandidate cfg rel old).hash.localHashes = s.hash.localHashes ∧
      (s.resolveCandidate cfg rel old).hash.remoteHashes = s.hash.remoteHashes := by
  rcases hash_resolveCandidate cfg s rel old with he | he
  · rw [he]
    exact ⟨rfl, rfl⟩
  · rw [he]
    unfold HashStage.resolve
    split <;> exact ⟨rfl, rfl⟩

/-- A pass over candidates: it schedules no file of equal hashes, and resolves each candidate
that has both. -/
theorem resolveCandidates (cfg : Config) (old : P → Bool) (l : List P) {s : State P H}
    (ht : s.hash.Honest L R) :
    let s' := l.foldl (fun s rel => s.resolveCandidate cfg rel (old rel)) s
    s'.hash.Honest L R ∧ (∀ f, L f = R f → s.Untouched f → s'.Untouched f) ∧
      ∀ f ∈ l, f ∈ s.hash.hashRequested → s.hash.remoteHashes f ≠ none →
        s.hash.localHashes f ≠ none → f ∈ s'.hash.hashResolved := by
  induction l generalizing s with
  | nil => exact ⟨ht, fun f _ h => h, fun f hf => absurd hf List.not_mem_nil⟩
  | cons rel l ih =>
    obtain ⟨h1, h2, h3⟩ := ih (honest_resolveCandidate cfg ht rel (old rel))
    refine ⟨h1, ?_, ?_⟩
    · intro f hf hu
      exact h2 f hf (untouched_resolveCandidate cfg hu hf ht rel (old rel))
    · intro f hf hreq hrem hloc
      obtain ⟨hl, hr⟩ := hashes_resolveCandidate cfg s rel (old rel)
      have hmono := resolves_foldl (fun s rel => resolves_resolveCandidate cfg s rel (old rel)) l
        (s.resolveCandidate cfg rel (old rel))
      rcases List.mem_cons.1 hf with rfl | hf
      · exact hmono.resolved (resolved_resolveCandidate cfg s hreq hrem hloc (old f))
      · refine h3 f hf ?_ ?_ ?_
        · rw [(resolves_resolveCandidate cfg s rel (old rel)).requested]
          exact hreq
        · rw [hr]
          exact hrem
        · rw [hl]
          exact hloc

/-- No task waits and none is popped and not counted. -/
def State.AtRest (s : State P H) : Prop :=
  s.hash.hashTaskQueue = [] ∧ ∀ w ∈ s.hash.hashWorkers, w.2 ≠ .popped

instance (s : State P H) : Decidable s.AtRest := inferInstanceAs (Decidable (_ ∧ ∀ w ∈ _, _ ≠ _))

/-- When the counters are at rest and no task is outside of them, every worker has left. -/
theorem workers_left (hok : HashOk s) (hq : s.quiescent) (hrest : s.AtRest) :
    ∀ w ∈ s.hash.hashWorkers, w.2 = .left := by
  intro w hw
  have hsum := hok.workers
  rw [hq.2.2.2] at hsum
  have hzero := List.sum_eq_zero_iff_forall_eq_nat.1 hsum.symm (w.2.inFlight)
    (List.mem_map_of_mem (f := fun v : P × HashPhase => v.2.inFlight) hw)
  have hpop := hrest.2 w hw
  revert hzero hpop
  cases w.2 <;> simp [HashPhase.inFlight]

/-- A sweep of a stage at rest has nothing to force. -/
theorem stillUnresolved_eq_nil (cfg : Config) (hok : HashOk s) (ht : s.hash.Honest L R)
    (hq : s.quiescent) (hrest : s.AtRest) {unresolved : List P}
    (hu : unresolved.toFinset = s.hash.hashRequested \ s.hash.hashResolved) (old : P → Bool) :
    s.stillUnresolved cfg unresolved old = [] := by
  unfold stillUnresolved
  rw [if_pos hq, List.filter_eq_nil_iff]
  intro f hf
  have hreq : f ∈ s.hash.hashRequested := by
    have hf' := List.mem_toFinset.2 hf
    rw [hu] at hf'
    exact (Finset.mem_sdiff.1 hf').1
  -- every request is answered
  have hjobs : s.hash.hashJobs = [] := by
    have hc := hok.counted
    rw [hq.2.2.1] at hc
    exact List.eq_nil_of_length_eq_zero (by omega)
  have hrem : s.hash.remoteHashes f ≠ none := by
    rcases hok.placed f hreq with h1 | ⟨lane, h1⟩ | h1
    · rw [hq.2.1] at h1
      cases h1
    · rw [hjobs] at h1
      cases h1
    · exact h1
  -- every task is done
  have hloc : s.hash.localHashes f ≠ none := by
    have hleft := workers_left hok hq hrest
    rcases ht.tasks f hreq with h1 | h1 | h1 | h1 | h1
    · rw [hq.2.1] at h1
      cases h1
    · rw [hrest.1] at h1
      cases h1
    · cases hleft _ h1
    · cases hleft _ h1
    · exact h1
  have hall : f ∈ (s.sweepResolved cfg unresolved old).hash.hashResolved :=
    (resolveCandidates cfg old (s.hash.fallbackReadyQueue ++ unresolved)
      (s := { s with hash := { s.hash with fallbackReadyQueue := [] } })
      (ht.readyQueue [])).2.2 f (List.mem_append_right _ hf) hreq hrem hloc
  simpa using hall

end

/-! ### Runs -/

section

variable (L R : P → H)

/-- What the disk, the peer and the compare workers answer is true of the files, with the hash
`L f` of the local and `R f` of the remote copy: a worker hashes what it reads, the peer sends the
hash of its copy, a file that is transferred by its metadata differs, and a `FileRangeError`
answers a block that is on a stream. -/
def Truthful (s : State P H) : Event P H → Prop
  | .hashRecord i result => ∀ w ∈ s.hash.hashWorkers[i]?, w.2 = .counted → result = some (L w.1)
  | .hashResponse _ rel v => v = R rel
  | .drainCompare _ => ∀ r ∈ s.compare.results.head?, r.2 = .transferNow → L r.1 ≠ R r.1
  | .fileRangeError k _ => (s.fileRangeTag k).isSome = true
  | _ => True

/-- A sweep acts only on a stage at rest. -/
def SweepsAtRest (s : State P H) : Event P H → Prop
  | .sweep _ _ => s.quiescent → s.AtRest
  | _ => True

/-- No lane fails and every answer is true. -/
def Plain (s : State P H) (e : Event P H) : Prop := e.lostLanes = [] ∧ Truthful L R s e

/-- What holds in the runs without failures whose sweeps act at rest. -/
structure SweepInv (s : State P H) : Prop where
  up : s.pool.AllUp
  ok : HashOk s
  honest : s.hash.Honest L R
  untouched : ∀ f, L f = R f → s.Untouched f

end

instance (L R : P → H) (s : State P H) (e : Event P H) : Decidable (Truthful L R s e) := by
  apply Event.casesOn (motive := fun e => Decidable (Truthful L R s e)) e <;> intros <;>
    dsimp only [Truthful] <;> infer_instance

instance (s : State P H) (e : Event P H) : Decidable (SweepsAtRest s e) := by
  apply Event.casesOn (motive := fun e => Decidable (SweepsAtRest s e)) e <;> intros <;>
    dsimp only [SweepsAtRest] <;> infer_instance

instance (L R : P → H) (s : State P H) (e : Event P H) : Decidable (Plain L R s e) :=
  inferInstanceAs (Decidable (_ ∧ _))

variable {L R : P → H} {s : State P H} {e : Event P H}

theorem honest_sweep (cfg : Config) (ht : s.hash.Honest L R) (unresolved : List P)
    (old : P → Bool) : (s.sweepUnresolvedFallbackIfQuiescent cfg unresolved old).hash.Honest L R := by
  rw [sweep_eq]
  split
  · have h₁ : (s.sweepResolved cfg unresolved old).hash.Honest L R :=
      (resolveCandidates cfg old (s.hash.fallbackReadyQueue ++ unresolved)
        (s := { s with hash := { s.hash with fallbackReadyQueue := [] } }) (ht.readyQueue [])).1
    revert h₁
    generalize s.sweepResolved cfg unresolved old = s₁
    induction s.stillUnresolved cfg unresolved old generalizing s₁ with
    | nil => exact id
    | cons f l ih =>
      intro h₁
      refine ih (s₁.forceTransfer f) ?_
      rcases hash_forceTransfer s₁ f with he | he
      · rw [he]
        exact h₁
      · rw [he]
        exact h₁.resolve f
  · exact ht

theorem honest_exec (cfg : Config) (ht : s.hash.Honest L R) (htrue : Truthful L R s e) :
    (exec cfg s e).hash.Honest L R := by
  by_cases he : e.hashes = false
  · rw [hash_exec cfg s he]
    exact ht
  cases e with
  | drainCompare old =>
    simp only [exec, drainCompare]
    split
    · exact ht
    · rename_i r c _
      unfold handleCompareResult
      cases r.2 with
      | transferNow =>
        dsimp only
        rw [hash_enterOrSchedule]
        exact ht
      | skip => exact ht
      | needHash => exact ht.request r.1
  | resolveFallback old =>
    simp only [exec, resolveFallback]
    split
    · exact ht
    · rename_i rel rest _
      exact honest_resolveCandidate cfg
        (s := { s with hash := { s.hash with fallbackReadyQueue := rest } }) (ht.readyQueue rest) rel
        old
  | sweep unresolved old => exact honest_sweep cfg ht unresolved old
  | hashPop => exact ht.workerPop
  | hashCount i => exact ht.workerCount i
  | hashRecord i result => exact ht.workerRecord i htrue
  | hashLeave i => exact ht.workerLeave i
  | hashReady i => exact ht.workerReady i
  | hashResponse conn rel v =>
    have hv : v = R rel := htrue
    subst hv
    exact ht.response conn rel _
  | dispatchHashRequests lane sendOk reached =>
    simp only [exec, State.dispatchHashRequests]
    split
    · exact ht
    · split <;> exact ht.dispatch _ lane _
  | _ => exact absurd rfl he

/-- A drained result schedules no file of equal hashes. -/
theorem untouched_drainCompare (cfg : Config) {f : P} (h : s.Untouched f) (hf : L f = R f)
    {old : Bool} (htrue : Truthful L R s (.drainCompare old : Event P H)) :
    (s.drainCompare cfg old).Untouched f := by
  unfold drainCompare
  split
  · exact h
  · rename_i r c hd
    have hhead : s.compare.results.head? = some r := by
      unfold CompareStage.drainOne at hd
      split at hd
      · cases hd
      · rename_i hres
        cases hd
        rw [hres]
        rfl
    have h₁ : ({ s with compare := c } : State P H).Untouched f :=
      ⟨h.scheduled, h.delta, h.signature, h.block, h.blocks⟩
    unfold handleCompareResult
    cases hact : r.2 with
    | transferNow =>
      refine h₁.enterOrSchedule cfg ?_ old
      rintro rfl
      exact htrue r hhead hact hf
    | skip => exact h₁.count _ _
    | needHash => exact ⟨h.scheduled, h.delta, h.signature, h.block, h.blocks⟩

/-- A sweep at rest schedules no file of equal hashes. -/
theorem untouched_sweep (cfg : Config) (hs : SweepInv L R s) {f : P} (hf : L f = R f)
    {unresolved : List P} (hu : unresolved.toFinset = s.hash.hashRequested \ s.hash.hashResolved)
    (old : P → Bool) (hrest : s.quiescent → s.AtRest) :
    (s.sweepUnresolvedFallbackIfQuiescent cfg unresolved old).Untouched f := by
  have h := hs.untouched f hf
  rw [sweep_eq]
  split
  · rename_i hq
    rw [stillUnresolved_eq_nil cfg hs.ok hs.honest hq (hrest hq) hu old]
    exact (resolveCandidates cfg old (s.hash.fallbackReadyQueue ++ unresolved)
      (s := { s with hash := { s.hash with fallbackReadyQueue := [] } })
      (hs.honest.readyQueue [])).2.1 f hf ⟨h.scheduled, h.delta, h.signature, h.block, h.blocks⟩
  · exact h

/-- No event of a plain run picks a file of equal hashes for a transfer. -/
theorem untouched_exec (cfg : Config) (hs : SweepInv L R s) (hcan : Can s e) (hp : Plain L R s e)
    (hrest : SweepsAtRest s e) {f : P} (hf : L f = R f) : (exec cfg s e).Untouched f := by
  have h := hs.untouched f hf
  have same {s' : State P H} (hx : s'.xfer = s.xfer) (hd : s'.delta = s.delta)
      (hr : s'.range = s.range) (ht : s'.streams = s.streams) : s'.Untouched f := by
    constructor
    · rw [hx]; exact h.scheduled
    · rw [hd]; exact h.delta
    · rw [hd]; exact h.signature
    · rw [hr]; exact h.block
    · rw [ht]; exact h.blocks
  -- only the compare results, the fallbacks and the sweep pick a file, and these look at its hashes
  cases e with
  | drainCompare old => exact untouched_drainCompare cfg h hf hp.2
  | resolveFallback old =>
    simp only [exec, resolveFallback]
    split
    · exact h
    · rename_i rel rest _
      exact untouched_resolveCandidate cfg
        (s := { s with hash := { s.hash with fallbackReadyQueue := rest } })
        ⟨h.scheduled, h.delta, h.signature, h.block, h.blocks⟩ hf (hs.honest.readyQueue rest) rel old
  | sweep unresolved old => exact untouched_sweep cfg hs hf hcan.2 old hrest
  | dispatchHashRequests lane sendOk reached =>
    simp only [exec, State.dispatchHashRequests]
    split
    · exact h
    · split <;> exact same rfl rfl rfl rfl
  | refreshTuning =>
    refine h.beside (beside_xfer [] s _ s.io) ?_
    show f ∉ (s.xfer.refreshSmallBatchTuning cfg.streamLimit).scheduledTransfers
    rw [Transfers.scheduled_refresh]
    exact h.scheduled
  | rebalance =>
    refine h.beside (beside_xfer [] s _ s.io) ?_
    show f ∉ (s.xfer.rebalanceTransfersTowardBatch s.size).scheduledTransfers
    rw [Transfers.scheduled_rebalance]
    exact h.scheduled
  | startTransfer lane healthyAtStart openOk sendOk =>
    exact h.of_life (beside_tryStartTransfer (fun _ => List.mem_singleton_self lane) cfg s
      healthyAtStart openOk) (life_tryStartTransfer cfg s lane healthyAtStart openOk sendOk f)
  | drainIo => exact h.of_life (beside_drainIo [] s) (life_drainIo s f)
  | pumpSignatures lane sendOk reached => exact h.pumpDeltaSignatures cfg lane sendOk reached
  | planTake =>
    refine h.withDelta ?_ ?_
    · unfold DeltaStage.planTake
      split
      · exact h.delta
      · exact h.delta
    · unfold DeltaStage.planTake
      split
      · exact h.signature
      · exact h.signature
  | planPublish i misses =>
    refine h.withDelta ?_ ?_
    · unfold DeltaStage.planPublish
      split
      · exact h.delta
      · exact h.delta
    · unfold DeltaStage.planPublish
      split
      · exact h.signature
      · exact h.signature
  | applyPlan fin => exact h.applyDeltaPlanResult cfg fin
  | startDeltaRange lane sendOk => exact h.tryStartDeltaRange cfg lane sendOk
  | beginFileRangePlan openOk fin => exact h.beginFileRangePlan cfg openOk fin
  | startFileRange lane sendOk => exact h.tryStartFileRange cfg lane sendOk
  | fileBatchOpen k records =>
    simp only [exec, State.fileBatchOpen]
    split
    · rename_i requested b hk
      have hrange : (Stream.batch requested (BatchDownloadState.open records).1).ranges .block f =
          (Stream.batch requested b).ranges .block f := rfl
      exact (h.updateRange hk hrange).applyOuts _
    · exact h.unknown _ _
  | fileBatchChunk k payload =>
    exact h.of_life (beside_fileBatchChunk [] s k payload) (life_fileBatchChunk s k payload f)
  | fileBatchEnd k =>
    simp only [exec, State.fileBatchEnd]
    split
    · rename_i hk
      exact (h.close hk).applyOuts _
    · exact h.unknown _ _
  | fileChunk k => exact h.of_life (beside_fileChunk [] s k) (life_fileChunk s k f)
  | fileEnd k ok => exact h.of_life (beside_fileEnd [] s k ok) (life_fileEnd s k ok f)
  | fileError k =>
    simp only [exec, State.fileError]
    split
    · rename_i hk
      exact (h.close hk).applyOuts _
    · rename_i rel hk
      exact (h.close hk).retry rel
    · exact (h.withStreams h.blocks (s.pool.releaseSlot k.1)).count _ _
  | blockSigResponse conn rel => exact h.blockSigResponse conn rel
  | deltaRangeChunk k len =>
    simp only [exec, State.deltaRangeChunk]
    split
    · rename_i hk
      exact h.updateRange hk rfl
    · exact h.unknown _ _
  | deltaRangeEnd k fin => exact h.deltaRangeEnd cfg k fin
  | deltaError k rel => exact h.deltaError k rel
  | fileRangeData k len =>
    simp only [exec, State.fileRangeData]
    split
    · rename_i hk
      exact h.updateRange hk rfl
    · exact h.unknown _ _
  | fileRangeEnd k fin => exact h.fileRangeEnd k fin
  | fileRangeError k rel =>
    -- an error that names no block would send its file back to the queue
    obtain ⟨r, hr⟩ := Option.isSome_iff_exists.1 hp.2
    unfold fileRangeTag at hr
    split at hr
    · rename_i r' hk
      exact h.fileRangeError hk rel
    · cases hr
  | failoverScan order sigOrder dying dying' =>
    obtain ⟨rfl, rfl⟩ := List.append_eq_nil_iff.1 hp.1
    exact untouched_failoverScan h hs.up order sigOrder
  | backoff =>
    simp only [exec]
    split <;> exact same rfl rfl rfl rfl
  | loopTest =>
    simp only [exec, State.loopTest]
    split <;> exact same rfl rfl rfl rfl
  | recvDrainedAndClosed =>
    simp only [exec]
    split <;> exact same rfl rfl rfl rfl
  | manifestEntry | manifestDir | manifestEnd | compareFlush | compareTake | comparePublish
  | hashPop | hashCount | hashRecord | hashLeave | hashReady | hashResponse | ioTake | ioWrite
  | ioPublish | laneDown => exact same rfl rfl rfl rfl

theorem sweepInv_step (cfg : Config) (hs : SweepInv L R s) (hcan : Can s e) (hp : Plain L R s e)
    (hrest : SweepsAtRest s e) : SweepInv L R (exec cfg s e) where
  up := allUp_exec cfg hs.up hp.1
  ok := by
    have hlanes := (exec_onward cfg s e).1
    have hkept (i : ℕ) (hi : s.pool.healthy i = true) : (exec cfg s e).pool.healthy i = true := by
      refine hlanes.kept i ?_ hi
      rw [hp.1]
      exact List.not_mem_nil
    refine ok_exec cfg (hs.ok.lanes fun j hj => hkept j.1 (hs.ok.jobs j hj)) hcan ?_
    rintro lane sendOk reached rfl -
    cases sendOk with
    | true => exact ⟨rfl, hkept lane (hs.up lane hcan.1)⟩
    | false => cases hp.1
  honest := honest_exec cfg hs.honest hp.2
  untouched := fun f hf => untouched_exec cfg hs hcan hp hrest hf

theorem reach_sweepInv (cfg : Config)
    (h : (machine P H cfg).Reach (fun s e => Plain L R s e ∧ SweepsAtRest s e) s) :
    SweepInv L R s := by
  refine h.invariant ?_ ?_
  · refine ⟨allUp_start cfg, HashStage.Ok.empty _, HashStage.Honest.empty, ?_⟩
    intro f _
    exact ⟨Finset.notMem_empty f, AList.notMem_empty f, Finset.notMem_empty f, AList.notMem_empty f,
      rfl⟩
  · intro s e hs hcan hok
    exact sweepInv_step cfg hs hcan.2 hok.1 hok.2

/-- **The sweep is precise** in the runs without lane failures and hash errors in which, whenever
the four counters let a sweep act, no local hash task is queued and none is popped and not
counted. In every state reached a file whose two hashes are equal was never picked for a
transfer, and every sweep that such a run takes next forces only files that have no task in
the queue or with a worker that still hashes. -/
theorem sweep_precise (cfg : Config) (L R : P → H) {s : State P H}
    (h : (machine P H cfg).Reach (fun s e => Plain L R s e ∧ SweepsAtRest s e) s) :
    (∀ f, L f = R f → s.Untouched f) ∧
      ∀ unresolved old, Can s (.sweep unresolved old : Event P H) →
        SweepsAtRest s (.sweep unresolved old : Event P H) →
        ∀ f ∈ s.stillUnresolved cfg unresolved old,
          f ∉ s.hash.hashTaskQueue ∧ ∀ w ∈ s.hash.hashWorkers, w.1 = f → w.2 = .left := by
  have hs := reach_sweepInv cfg h
  refine ⟨hs.untouched, fun unresolved old hcan hrest f hf => ?_⟩
  by_cases hq : s.quiescent
  · rw [stillUnresolved_eq_nil cfg hs.ok hs.honest hq (hrest hq) hcan.2 old] at hf
    cases hf
  · unfold stillUnresolved at hf
    rw [if_neg hq] at hf
    cases hf

/-- The answer to the hash request of `listAndHash` is there before a worker has taken its task. -/
def answeredFirst : List (Event ℕ ℕ) := listAndHash ++ [.hashResponse 0 0 7]

/-- The worker hashes the file before the sweep. -/
def hashedFirst : List (Event ℕ ℕ) :=
  answeredFirst ++ [.hashPop, .hashCount 0, .hashRecord 0 (some 7), .hashLeave 0,
    .sweep [0] fun _ => false]

/-- In a run whose sweep waits for the worker the file stays untouched. -/
theorem sweep_precise_hashedFirst :
    ((machine ℕ ℕ twoLanes).run (State.start ℕ ℕ twoLanes) hashedFirst).Untouched 0 :=
  (sweep_precise twoLanes (fun _ => 7) (fun _ => 7) (Machine.reach_run (by decide))).1 0 rfl

/-- **The sweep forces a file whose task is still queued.** Both copies have the hash 7 and no
lane fails; the answer arrives, the four counters are at rest, and the sweep schedules the
file while its task waits in the queue. -/
theorem sweep_forces_queued : ∃ s, (machine ℕ ℕ twoLanes).Reach (Plain (fun _ => 7) fun _ => 7) s ∧
    Can s (.sweep [0] (fun _ => false) : Event ℕ ℕ) ∧ s.mode = .running ∧
    0 ∈ s.stillUnresolved twoLanes [0] (fun _ => false) ∧ 0 ∈ s.hash.hashTaskQueue ∧
    0 ∈ (exec twoLanes s (.sweep [0] fun _ => false)).xfer.scheduledTransfers :=
  ⟨(machine ℕ ℕ twoLanes).run (State.start ℕ ℕ twoLanes) answeredFirst,
    Machine.reach_run (by decide), by decide, by decide, by decide, by decide, by decide⟩

end FastClone.Client
