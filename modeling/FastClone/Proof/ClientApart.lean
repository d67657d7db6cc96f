import FastClone.Proof.ClientHash

/-!
# Steps apart from the compare stage and the signature window

Few steps of the client touch the compare stage or the window of signature requests. `Apart`
is what all others leave alone; `apart_exec` says which they are.
-/

set_option linter.unusedSectionVars false

namespace FastClone.Client

open State Runs

variable {P H : Type} [DecidableEq P] [DecidableEq H]

/-! ### Lanes not failed over -/

/-- The lane was not failed over. -/
def Pool.live (p : Pool) (i : ℕ) : Bool := p[i]?.any fun l => !l.drained

theorem live_modify (p : Pool) (i j : ℕ) (g : Lane → Lane) (hg : ∀ l, (g l).drained = l.drained) :
    Pool.live (p.modify i g) j = p.live j := by
  unfold Pool.live
  rw [List.getElem?_modify]
  cases p[j]? with
  | none => rfl
  | some l =>
    by_cases hij : i = j
    · simp [hij, hg]
    · simp [hij]

theorem live_markConnDown (p : Pool) (i j : ℕ) : (p.markConnDown i).live j = p.live j :=
  live_modify p i j _ fun _ => rfl

theorem live_acquireSlot (p : Pool) (i j : ℕ) : (p.acquireSlot i).live j = p.live j :=
  live_modify p i j _ fun _ => rfl

theorem live_releaseSlot (p : Pool) (i j : ℕ) : (p.releaseSlot i).live j = p.live j :=
  live_modify p i j _ fun _ => rfl

theorem live_markConnsDown (lanes : List ℕ) (p : Pool) (j : ℕ) :
    (lanes.foldl Pool.markConnDown p).live j = p.live j := by
  induction lanes generalizing p with
  | nil => rfl
  | cons i lanes ih => rw [List.foldl_cons, ih, live_markConnDown]

/-! ### Steps apart -/

/-- No lane is failed over, no signature request is sent, answered or given up and none counted,
the compare stage is left alone, and the loop is not left by its test. -/
structure Apart (s s' : State P H) : Prop where
  live : ∀ i, s'.pool.live i = s.pool.live i
  jobs : s'.delta.sigJobs = s.delta.sigJobs
  count : s'.delta.deltaSigInFlight = s.delta.deltaSigInFlight
  compare : s'.compare = s.compare
  mode : s'.mode = .completed → s.mode = .completed

namespace Apart

variable {s s₁ s' : State P H}

theorem refl (s : State P H) : Apart s s := ⟨fun _ => rfl, rfl, rfl, rfl, id⟩

theorem trans (h : Apart s s₁) (h' : Apart s₁ s') : Apart s s' where
  live := fun i => (h'.live i).trans (h.live i)
  jobs := h'.jobs.trans h.jobs
  count := h'.count.trans h.count
  compare := h'.compare.trans h.compare
  mode := fun hm => h.mode (h'.mode hm)

theorem foldl {α : Type} {step : State P H → α → State P H} (h : ∀ s a, Apart s (step s a))
    (l : List α) (s : State P H) : Apart s (l.foldl step s) := by
  induction l generalizing s with
  | nil => exact .refl s
  | cons a l ih => exact (h s a).trans (ih (step s a))

/-- What changes other delta fields at most. -/
theorem of_delta (hl : ∀ i, s'.pool.live i = s.pool.live i)
    (hj : s'.delta.sigJobs = s.delta.sigJobs)
    (hn : s'.delta.deltaSigInFlight = s.delta.deltaSigInFlight) (hc : s'.compare = s.compare)
    (hm : s'.mode = s.mode) : Apart s s' :=
  ⟨hl, hj, hn, hc, fun h => hm.symm.trans h⟩

/-- What touches the lanes, but fails none over, and no delta file. -/
theorem of_lanes (hl : ∀ i, s'.pool.live i = s.pool.live i) (hd : s'.delta = s.delta)
    (hc : s'.compare = s.compare) (hm : s'.mode = s.mode) : Apart s s' := by
  refine of_delta hl ?_ ?_ hc hm
  · rw [hd]
  · rw [hd]

/-- What touches neither the lanes nor the delta files. -/
theorem of_eq (hp : s'.pool = s.pool) (hd : s'.delta = s.delta) (hc : s'.compare = s.compare)
    (hm : s'.mode = s.mode) : Apart s s' :=
  of_lanes (fun i => by rw [hp]) hd hc hm

theorem retryOrFail (s : State P H) (rel : P) : Apart s (s.retryOrFail rel) :=
  of_eq rfl rfl rfl rfl

theorem applyOuts (s : State P H) (outs : List (BatchOut P)) : Apart s (s.applyOuts outs) := by
  refine foldl (fun s o => ?_) outs s
  cases o with
  | write task => exact of_eq rfl rfl rfl rfl
  | fail rel => exact of_eq rfl rfl rfl rfl
  | retry rel => exact retryOrFail s rel

theorem unknownStream (s : State P H) (conn : ℕ) (what : String) :
    Apart s (s.unknownStream conn what) := by
  unfold State.unknownStream
  split
  · exact ⟨fun _ => rfl, rfl, rfl, rfl, fun hm => by cases hm⟩
  · exact .refl s

theorem updateStream (s : State P H) (k : Key) (st : Stream P) :
    Apart s { s with streams := s.streams.update k st } :=
  of_eq rfl rfl rfl rfl

theorem closeStream (s : State P H) (k : Key) : Apart s (s.closeStream k) :=
  of_lanes (live_releaseSlot s.pool k.1) rfl rfl rfl

theorem enterFileRangeOrSchedule (cfg : Config) (s : State P H) (rel : P) :
    Apart s (s.enterFileRangeOrSchedule cfg rel) := by
  unfold State.enterFileRangeOrSchedule
  cases he : s.tryEnterFileRange cfg rel with
  | none => exact of_eq rfl rfl rfl rfl
  | some s' =>
    obtain ⟨book, -, rfl⟩ := tryEnterFileRange_eq_some he
    exact of_eq rfl rfl rfl rfl

theorem enterOrSchedule (cfg : Config) (s : State P H) (rel : P) (old : Bool) :
    Apart s (s.enterOrSchedule cfg rel old) := by
  unfold State.enterOrSchedule
  cases he : s.tryEnterDelta cfg rel old with
  | none => exact enterFileRangeOrSchedule cfg s rel
  | some s' =>
    obtain ⟨-, book, -, rfl⟩ := tryEnterDelta_eq_some he
    exact of_delta (fun _ => rfl) rfl rfl rfl rfl

theorem resolveCandidate (cfg : Config) (s : State P H) (rel : P) (old : Bool) :
    Apart s (s.resolveCandidate cfg rel old) := by
  unfold State.resolveCandidate
  split
  · exact .refl s
  · split
    · exact .refl s
    · split
      · exact .refl s
      · dsimp only
        split
        · have h := enterOrSchedule cfg s rel old
          exact ⟨h.live, h.jobs, h.count, h.compare, h.mode⟩
        · exact of_eq rfl rfl rfl rfl

theorem resolveFallback (cfg : Config) (s : State P H) (old : Bool) :
    Apart s (s.resolveFallback cfg old) := by
  unfold State.resolveFallback
  split
  · exact .refl s
  · rename_i rel rest _
    have h₁ : Apart s { s with hash := { s.hash with fallbackReadyQueue := rest } } :=
      of_eq rfl rfl rfl rfl
    exact h₁.trans (resolveCandidate cfg _ rel old)

theorem forceTransfer (s : State P H) (rel : P) : Apart s (s.forceTransfer rel) := by
  unfold State.forceTransfer
  split
  · exact .refl s
  · exact of_eq rfl rfl rfl rfl

theorem sweep (cfg : Config) (s : State P H) (unresolved : List P) (old : P → Bool) :
    Apart s (s.sweepUnresolvedFallbackIfQuiescent cfg unresolved old) := by
  unfold sweepUnresolvedFallbackIfQuiescent
  split
  · extract_lets ready src s₁ s₂
    have h₁ : Apart s s₁ := of_eq rfl rfl rfl rfl
    have h₂ : Apart s₁ s₂ := foldl (fun s rel => resolveCandidate cfg s rel (old rel)) ready s₁
    exact (h₁.trans h₂).trans (foldl forceTransfer unresolved s₂)
  · exact .refl s

theorem startBatch (cfg : Config) (s : State P H) (q : Transfers.Queue) (lane : ℕ) (sendOk : Bool) :
    Apart s (s.startBatch cfg q lane sendOk) := by
  unfold State.startBatch
  split
  · extract_lets n batchPaths s₁
    split
    · exact of_eq rfl rfl rfl rfl
    · split
      · exact of_lanes (live_acquireSlot s.pool lane) rfl rfl rfl
      · have h₁ : Apart s
            { s₁ with
              streams := s₁.streams.skipId lane
              pool := s₁.pool.markConnDown lane } := of_lanes (live_markConnDown s.pool lane) rfl rfl rfl
        exact h₁.trans (foldl retryOrFail _ _)
  · exact .refl s

theorem startDownload (cfg : Config) (s : State P H) (q : Transfers.Queue)
    (globalSlotCap lane : ℕ) (openOk sendOk : Bool) :
    Apart s (s.startDownload cfg q globalSlotCap lane openOk sendOk) := by
  unfold State.startDownload
  extract_lets reservedBatchSlots
  split
  · exact .refl s
  · split
    · exact .refl s
    · extract_lets isLarge
      split
      · split
        · exact of_eq rfl rfl rfl rfl
        · cases sendOk with
          | true => exact of_lanes (live_acquireSlot s.pool lane) rfl rfl rfl
          | false => exact of_lanes (live_markConnDown s.pool lane) rfl rfl rfl
      · exact .refl s

theorem tryStartTransfer (cfg : Config) (s : State P H) (lane healthyAtStart : ℕ)
    (openOk sendOk : Bool) : Apart s (s.tryStartTransfer cfg lane healthyAtStart openOk sendOk) := by
  unfold State.tryStartTransfer
  extract_lets globalSlotCap
  split
  · exact .refl s
  · split
    · exact .refl s
    · split
      · exact .refl s
      · exact startBatch cfg s _ lane sendOk
      · exact startBatch cfg s _ lane sendOk
      · exact startDownload cfg s _ _ lane openOk sendOk
      · exact startDownload cfg s _ _ lane openOk sendOk

theorem finalizeDelta (cfg : Config) (s : State P H) (rel : P) (fin : TempFinalizeResult) :
    Apart s (s.finalizeDelta cfg rel fin) := by
  unfold State.finalizeDelta
  split
  · exact .refl s
  · extract_lets book
    split
    · exact of_delta (fun _ => rfl) rfl rfl rfl rfl
    · have h₁ : Apart s { s with delta := { s.delta with book := book.abandon rel } } :=
        of_delta (fun _ => rfl) rfl rfl rfl rfl
      exact h₁.trans (enterFileRangeOrSchedule cfg _ rel)

theorem finalizeFileRange (s : State P H) (rel : P) (fin : TempFinalizeResult) :
    Apart s (s.finalizeFileRange rel fin) := by
  unfold State.finalizeFileRange
  split
  · exact .refl s
  · extract_lets book
    split <;> exact of_eq rfl rfl rfl rfl

theorem planTake (s : State P H) : Apart s { s with delta := s.delta.planTake } := by
  unfold DeltaStage.planTake
  split
  · exact .refl s
  · exact of_delta (fun _ => rfl) rfl rfl rfl rfl

theorem planPublish (s : State P H) (i : ℕ) (ranges : Option (List Spans.Span)) :
    Apart s { s with delta := s.delta.planPublish i ranges } := by
  unfold DeltaStage.planPublish
  split
  · exact .refl s
  · exact of_delta (fun _ => rfl) rfl rfl rfl rfl

theorem applyDeltaPlanResult (cfg : Config) (s : State P H) (fin : TempFinalizeResult) :
    Apart s (s.applyDeltaPlanResult cfg fin) := by
  unfold State.applyDeltaPlanResult
  split
  · exact .refl s
  · rename_i r d hd
    obtain ⟨-, -, -, hjobs, hflight, -⟩ := drainPlan_eq_some hd
    have withBook (book : RangeBook P) : Apart s { s with delta := { d with book := book } } :=
      of_delta (fun _ => rfl) hjobs hflight rfl rfl
    split
    · exact withBook d.book
    · split
      · exact (withBook _).trans (enterFileRangeOrSchedule cfg _ r.rel)
      · extract_lets s₁
        split
        · exact (withBook _).trans (finalizeDelta cfg s₁ r.rel fin)
        · exact withBook _

theorem tryStartDeltaRange (cfg : Config) (s : State P H) (lane : ℕ) (sendOk : Bool) :
    Apart s (s.tryStartDeltaRange cfg lane sendOk) := by
  unfold State.tryStartDeltaRange
  split
  · exact .refl s
  · extract_lets popped
    split
    · exact of_delta (fun _ => rfl) rfl rfl rfl rfl
    · split
      · split
        · exact of_delta (live_acquireSlot s.pool lane) rfl rfl rfl rfl
        · exact of_lanes (live_markConnDown s.pool lane) rfl rfl rfl
      · exact .refl s

theorem beginFileRangePlan (cfg : Config) (s : State P H) (openOk : Bool)
    (fin : TempFinalizeResult) : Apart s (s.beginFileRangePlan cfg openOk fin) := by
  unfold State.beginFileRangePlan
  split
  · exact .refl s
  · rename_i rel rest _
    extract_lets src s₁
    have h₁ : Apart s s₁ := of_eq rfl rfl rfl rfl
    split
    · exact h₁
    · split
      · exact h₁
      · split
        · exact of_eq rfl rfl rfl rfl
        · extract_lets plan s₂
          have h₂ : Apart s s₂ := of_eq rfl rfl rfl rfl
          split
          · exact h₂.trans (finalizeFileRange s₂ rel fin)
          · exact h₂

theorem tryStartFileRange (cfg : Config) (s : State P H) (lane : ℕ) (sendOk : Bool) :
    Apart s (s.tryStartFileRange cfg lane sendOk) := by
  unfold State.tryStartFileRange
  split
  · exact .refl s
  · extract_lets popped
    split
    · exact of_eq rfl rfl rfl rfl
    · split
      · split
        · exact of_lanes (live_acquireSlot s.pool lane) rfl rfl rfl
        · exact of_lanes (live_markConnDown s.pool lane) rfl rfl rfl
      · exact .refl s

theorem deltaRangeEnd (cfg : Config) (s : State P H) (k : Key) (fin : TempFinalizeResult) :
    Apart s (s.deltaRangeEnd cfg k fin) := by
  unfold State.deltaRangeEnd
  split
  · rename_i r hk
    extract_lets s₁
    have h₁ : Apart s s₁ := closeStream s k
    split
    · exact h₁
    · extract_lets s₂
      have h₂ : Apart s s₂ := h₁.trans (of_delta (fun _ => rfl) rfl rfl rfl rfl)
      split
      · exact h₂.trans (finalizeDelta cfg s₂ r.rel fin)
      · exact h₂
  · exact unknownStream s _ _

theorem fileRangeEnd (s : State P H) (k : Key) (fin : TempFinalizeResult) :
    Apart s (s.fileRangeEnd k fin) := by
  unfold State.fileRangeEnd
  split
  · rename_i r hk
    extract_lets s₁
    have h₁ : Apart s s₁ := closeStream s k
    split
    · exact h₁
    · extract_lets s₂
      have h₂ : Apart s s₂ := h₁.trans (of_eq rfl rfl rfl rfl)
      split
      · exact h₂.trans (finalizeFileRange s₂ r.rel fin)
      · exact h₂
  · exact unknownStream s _ _

theorem fileRangeError (s : State P H) (k : Key) (rel : P) :
    Apart s (s.fileRangeError k rel) := by
  have hfor (s : State P H) (rel : P) : Apart s (s.fileRangeErrorFor rel) := by
    unfold fileRangeErrorFor
    split <;> exact of_eq rfl rfl rfl rfl
  unfold State.fileRangeError
  split
  · exact (closeStream s k).trans (hfor _ _)
  · exact hfor s rel

end Apart

/-- The events of the compare stage and of the signature window. -/
def Event.apart : Event P H → Bool
  | .manifestEntry _ _ | .compareFlush | .compareTake | .comparePublish _ _ | .drainCompare _
  | .pumpSignatures _ _ _ | .blockSigResponse _ _ | .deltaError _ _ | .failoverScan _ _ _ _
  | .loopTest => false
  | _ => true

theorem apart_exec (cfg : Config) (s : State P H) {e : Event P H} (he : e.apart = true) :
    Apart s (exec cfg s e) := by
  cases e with
  | manifestEntry | compareFlush | compareTake | comparePublish | drainCompare | pumpSignatures
  | blockSigResponse | deltaError | failoverScan | loopTest => cases he
  | resolveFallback old => exact .resolveFallback cfg s old
  | sweep unresolved old => exact .sweep cfg s unresolved old
  | dispatchHashRequests lane sendOk reached =>
    simp only [exec, State.dispatchHashRequests]
    split
    · exact .refl s
    · split
      · exact .of_eq rfl rfl rfl rfl
      · exact .of_lanes (live_markConnDown s.pool lane) rfl rfl rfl
  | startTransfer lane healthyAtStart openOk sendOk =>
    exact .tryStartTransfer cfg s lane healthyAtStart openOk sendOk
  | drainIo =>
    simp only [exec, State.drainIo]
    split
    · exact .refl s
    · split <;> exact .of_eq rfl rfl rfl rfl
  | planTake => exact .planTake s
  | planPublish i misses => exact .planPublish s i _
  | applyPlan fin => exact .applyDeltaPlanResult cfg s fin
  | startDeltaRange lane sendOk => exact .tryStartDeltaRange cfg s lane sendOk
  | beginFileRangePlan openOk fin => exact .beginFileRangePlan cfg s openOk fin
  | startFileRange lane sendOk => exact .tryStartFileRange cfg s lane sendOk
  | fileBatchOpen k records =>
    simp only [exec, State.fileBatchOpen]
    split
    · exact (Apart.updateStream s k _).trans (.applyOuts _ _)
    · exact .unknownStream s _ _
  | fileBatchChunk k payload =>
    simp only [exec, State.fileBatchChunk]
    split
    · split
      · exact (Apart.updateStream s k _).trans (.applyOuts _ _)
      · exact ⟨fun _ => rfl, rfl, rfl, rfl, fun hm => by cases hm⟩
    · exact .unknownStream s _ _
  | fileBatchEnd k =>
    simp only [exec, State.fileBatchEnd]
    split
    · exact (Apart.closeStream s k).trans (.applyOuts _ _)
    · exact .unknownStream s _ _
  | fileChunk k =>
    simp only [exec, State.fileChunk]
    split
    · exact .refl s
    · exact .unknownStream s _ _
  | fileEnd k ok =>
    simp only [exec, State.fileEnd]
    split
    · split <;> exact (Apart.closeStream s k).trans (.of_eq rfl rfl rfl rfl)
    · exact .unknownStream s _ _
  | fileError k =>
    simp only [exec, State.fileError]
    split
    · exact (Apart.closeStream s k).trans (.applyOuts _ _)
    · exact (Apart.closeStream s k).trans (.of_eq rfl rfl rfl rfl)
    · exact .of_lanes (live_releaseSlot s.pool k.1) rfl rfl rfl
  | deltaRangeChunk k len =>
    simp only [exec, State.deltaRangeChunk]
    split
    · exact .updateStream s k _
    · exact .unknownStream s _ _
  | deltaRangeEnd k fin => exact .deltaRangeEnd cfg s k fin
  | fileRangeData k len =>
    simp only [exec, State.fileRangeData]
    split
    · exact .updateStream s k _
    · exact .unknownStream s _ _
  | fileRangeEnd k fin => exact .fileRangeEnd s k fin
  | fileRangeError k rel => exact .fileRangeError s k rel
  | laneDown lane => exact .of_lanes (live_markConnDown s.pool lane) rfl rfl rfl
  | backoff =>
    simp only [exec]
    split
    · exact .of_eq rfl rfl rfl rfl
    · exact .refl s
  | recvDrainedAndClosed =>
    simp only [exec]
    split
    · exact ⟨fun _ => rfl, rfl, rfl, rfl, fun hm => by cases hm⟩
    · exact .refl s
  | manifestDir | manifestEnd | hashPop | hashCount | hashRecord | hashLeave | hashReady
  | hashResponse | refreshTuning | rebalance | ioTake | ioWrite | ioPublish =>
    exact .of_eq rfl rfl rfl rfl

end FastClone.Client
