import FastClone.Proof.ClientFrame
import FastClone.Proof.ClientAccounting

/-!
# No hash request is orphaned

A flush of `dispatchHashRequests` counts its requests before the result of the send is
known, and no failover path knows of hash requests. `HashStage.Ok` is what holds as long as
no lane dies with requests in flight and no flush is lost (`KeepsHashes`): every requested
file is pending, in flight on a healthy lane or answered, and the counters differ by what is
in flight. From there the stage can be brought to rest.
-/

set_option linter.unusedSectionVars false

namespace FastClone.Client

open State Runs

variable {P H : Type} [DecidableEq P] [DecidableEq H]

/-- 1 for a worker between the two atomic updates of `localHashInFlight`. -/
def HashPhase.inFlight : HashPhase → ℕ
  | .counted | .recorded => 1
  | _ => 0

/-- A weight of phases, added over the workers. -/
def HashStage.weigh (h : HashStage P H) (w : HashPhase → ℕ) : ℕ :=
  (h.hashWorkers.map fun v => w v.2).sum

/-- Every request is pending, in flight on a healthy lane or answered; what is sent is answered or
in flight; `localHashInFlight` counts the workers that hash. -/
structure HashStage.Ok (healthy : ℕ → Bool) (h : HashStage P H) : Prop where
  jobs : ∀ j ∈ h.hashJobs, healthy j.1 = true
  counted : h.hashRequestsSent = h.hashResponsesReceived + h.hashJobs.length
  placed : ∀ f ∈ h.hashRequested,
    f ∈ h.pendingHashRequests ∨ (∃ lane, (lane, f) ∈ h.hashJobs) ∨ h.remoteHashes f ≠ none
  workers : h.localHashInFlight = h.weigh HashPhase.inFlight

namespace HashStage.Ok

variable {healthy healthy' : ℕ → Bool} {h : HashStage P H}

theorem empty (healthy : ℕ → Bool) : (HashStage.empty P H).Ok healthy where
  jobs := by
    intro j hj
    cases hj
  counted := rfl
  placed := by
    intro f hf
    exact absurd hf (Finset.notMem_empty f)
  workers := rfl

theorem lanes (hok : h.Ok healthy) (hl : ∀ j ∈ h.hashJobs, healthy' j.1 = true) :
    h.Ok healthy' where
  jobs := hl
  counted := hok.counted
  placed := hok.placed
  workers := hok.workers

theorem request (hok : h.Ok healthy) (rel : P) : (h.request rel).Ok healthy := by
  unfold HashStage.request
  split
  · exact hok
  · refine ⟨hok.jobs, hok.counted, fun f hf => ?_, hok.workers⟩
    rcases Finset.mem_insert.1 hf with rfl | hf
    · exact .inl (by simp)
    · rcases hok.placed f hf with h1 | h1
      · exact .inl (List.mem_append_left _ h1)
      · exact .inr h1

/-- A flush that reaches the server on a healthy lane. -/
theorem dispatch (hok : h.Ok healthy) {lane : ℕ} (hl : healthy lane = true) (window : ℕ) :
    (h.dispatch window lane 256).Ok healthy := by
  have hn : h.flushSize window ≤ 256 ∧ h.flushSize window ≤ h.pendingHashRequests.length := by
    unfold HashStage.flushSize
    omega
  have htake : (h.pendingHashRequests.take (h.flushSize window)).take 256 =
      h.pendingHashRequests.take (h.flushSize window) := by
    rw [List.take_take, Nat.min_eq_right hn.1]
  unfold HashStage.dispatch
  dsimp only
  rw [htake]
  refine ⟨fun j hj => ?_, ?_, fun f hf => ?_, hok.workers⟩
  · rcases List.mem_append.1 hj with hj | hj
    · exact hok.jobs j hj
    · obtain ⟨f, -, rfl⟩ := List.mem_map.1 hj
      exact hl
  · have hc := hok.counted
    show h.hashRequestsSent + h.flushSize window = h.hashResponsesReceived +
      (h.hashJobs ++ (h.pendingHashRequests.take (h.flushSize window)).map fun f => (lane, f)).length
    rw [List.length_append, List.length_map, List.length_take, Nat.min_eq_left hn.2]
    omega
  · rcases hok.placed f hf with h1 | ⟨l, h1⟩ | h1
    · rw [← List.take_append_drop (h.flushSize window) h.pendingHashRequests] at h1
      rcases List.mem_append.1 h1 with h1 | h1
      · exact .inr (.inl ⟨lane, List.mem_append_right _ (List.mem_map_of_mem h1)⟩)
      · exact .inl h1
    · exact .inr (.inl ⟨l, List.mem_append_left _ h1⟩)
    · exact .inr (.inr h1)

theorem response (hok : h.Ok healthy) {lane : ℕ} {rel : P} (hj : (lane, rel) ∈ h.hashJobs) (v : H)
    (toFallback : Bool) : (h.response lane rel v toFallback).Ok healthy := by
  refine ⟨fun j hj' => hok.jobs j (List.mem_of_mem_erase hj'), ?_, fun f hf => ?_, hok.workers⟩
  · have hc := hok.counted
    have hlen := List.length_erase_of_mem hj
    have hpos := List.length_pos_of_mem hj
    show h.hashRequestsSent = h.hashResponsesReceived + 1 + (h.hashJobs.erase (lane, rel)).length
    omega
  · by_cases hfr : f = rel
    · subst hfr
      exact .inr (.inr (by simp [HashStage.response]))
    · rcases hok.placed f hf with h1 | ⟨l, h1⟩ | h1
      · exact .inl h1
      · refine .inr (.inl ⟨l, (List.mem_erase_of_ne ?_).2 h1⟩)
        intro he
        exact hfr (congrArg Prod.snd he)
      · refine .inr (.inr ?_)
        simpa [HashStage.response, Function.update_of_ne hfr] using h1

theorem resolve (hok : h.Ok healthy) (rel : P) : (h.resolve rel).Ok healthy := by
  unfold HashStage.resolve
  split
  · exact ⟨hok.jobs, hok.counted, hok.placed, hok.workers⟩
  · exact hok

theorem readyQueue (hok : h.Ok healthy) (q : List P) :
    HashStage.Ok healthy { h with fallbackReadyQueue := q } :=
  ⟨hok.jobs, hok.counted, hok.placed, hok.workers⟩

theorem workerPop (hok : h.Ok healthy) : h.workerPop.Ok healthy := by
  unfold HashStage.workerPop
  split
  · exact hok
  · refine ⟨hok.jobs, hok.counted, hok.placed, ?_⟩
    have h2 := hok.workers
    simpa [HashStage.weigh, HashPhase.inFlight] using h2

/-- A worker changes its phase. -/
theorem weigh_setPhase {i : ℕ} {v : P × HashPhase} (hi : h.hashWorkers[i]? = some v)
    (p : HashPhase) (w : HashPhase → ℕ) :
    (h.setPhase i p).weigh w + w v.2 = h.weigh w + w p := by
  show ((h.hashWorkers.modify i fun w => (w.1, p)).map fun v => w v.2).sum + w v.2 =
    (h.hashWorkers.map fun v => w v.2).sum + w p
  generalize h.hashWorkers = l at hi
  induction l generalizing i with
  | nil => simp at hi
  | cons u l ih =>
    cases i with
    | zero =>
      have hu : u = v := by simpa using hi
      subst hu
      simp only [List.modify_zero_cons, List.map_cons, List.sum_cons]
      omega
    | succ i =>
      have h1 := ih (i := i) (by simpa using hi)
      simp only [List.modify_succ_cons, List.map_cons, List.sum_cons]
      omega

theorem workerCount (hok : h.Ok healthy) (i : ℕ) : (h.workerCount i).Ok healthy := by
  unfold HashStage.workerCount
  split
  · rename_i f hi
    refine ⟨hok.jobs, hok.counted, hok.placed, ?_⟩
    have h1 : (h.setPhase i .counted).weigh HashPhase.inFlight + 0 =
        h.weigh HashPhase.inFlight + 1 := weigh_setPhase hi .counted _
    have h2 := hok.workers
    show h.localHashInFlight + 1 = (h.setPhase i .counted).weigh HashPhase.inFlight
    omega
  · exact hok

theorem workerRecord (hok : h.Ok healthy) (i : ℕ) (result : Option H) :
    (h.workerRecord i result).Ok healthy := by
  unfold HashStage.workerRecord
  split
  · rename_i f hi
    refine ⟨hok.jobs, hok.counted, hok.placed, ?_⟩
    have h1 : (h.setPhase i .recorded).weigh HashPhase.inFlight + 1 =
        h.weigh HashPhase.inFlight + 1 := weigh_setPhase hi .recorded _
    have h2 := hok.workers
    show h.localHashInFlight = (h.setPhase i .recorded).weigh HashPhase.inFlight
    omega
  · exact hok

theorem workerLeave (hok : h.Ok healthy) (i : ℕ) : (h.workerLeave i).Ok healthy := by
  unfold HashStage.workerLeave
  split
  · rename_i f hi
    refine ⟨hok.jobs, hok.counted, hok.placed, ?_⟩
    have h1 : (h.setPhase i .left).weigh HashPhase.inFlight + 1 =
        h.weigh HashPhase.inFlight + 0 := weigh_setPhase hi .left _
    have h2 := hok.workers
    show h.localHashInFlight - 1 = (h.setPhase i .left).weigh HashPhase.inFlight
    omega
  · exact hok

theorem workerReady (hok : h.Ok healthy) (i : ℕ) : (h.workerReady i).Ok healthy := by
  unfold HashStage.workerReady
  split
  · rename_i f hi
    have h1 := IoPool.sum_eraseIdx (fun v : P × HashPhase => v.2.inFlight) h.hashWorkers i _ hi
    refine ⟨hok.jobs, hok.counted, hok.placed, ?_⟩
    have h2 := hok.workers
    have h3 : HashPhase.inFlight .left = 0 := rfl
    unfold HashStage.weigh at h2 ⊢
    dsimp only at h1 ⊢
    omega
  · exact hok

end HashStage.Ok

/-! ### Steps -/

/-- What the hash stage of a state has to satisfy. -/
def HashOk (s : State P H) : Prop := s.hash.Ok s.pool.healthy

theorem hash_resolveCandidate (cfg : Config) (s : State P H) (rel : P) (old : Bool) :
    (s.resolveCandidate cfg rel old).hash = s.hash ∨
      (s.resolveCandidate cfg rel old).hash = s.hash.resolve rel := by
  rcases s.resolveCandidate_cases cfg rel old with h | ⟨-, -, h, -⟩
  · exact .inl (by rw [h])
  · exact .inr h

theorem hash_forceTransfer (s : State P H) (rel : P) :
    (s.forceTransfer rel).hash = s.hash ∨ (s.forceTransfer rel).hash = s.hash.resolve rel := by
  unfold State.forceTransfer
  split
  · exact .inl rfl
  · exact .inr rfl

/-- A loop whose steps leave the hash stage alone or resolve one file. -/
theorem ok_foldl {α : Type} {healthy : ℕ → Bool} {step : State P H → α → State P H}
    (hstep : ∀ s a, (step s a).hash = s.hash ∨ ∃ rel, (step s a).hash = s.hash.resolve rel)
    (l : List α) {s : State P H} (h : s.hash.Ok healthy) : (l.foldl step s).hash.Ok healthy := by
  induction l generalizing s with
  | nil => exact h
  | cons a l ih =>
    refine ih ?_
    rcases hstep s a with he | ⟨rel, he⟩
    · rwa [he]
    · rw [he]
      exact h.resolve rel

theorem ok_sweep {healthy : ℕ → Bool} (cfg : Config) {s : State P H} (h : s.hash.Ok healthy)
    (unresolved : List P) (old : P → Bool) :
    (s.sweepUnresolvedFallbackIfQuiescent cfg unresolved old).hash.Ok healthy := by
  unfold State.sweepUnresolvedFallbackIfQuiescent
  split
  · extract_lets ready src s₁ s₂
    have h₁ : s₁.hash.Ok healthy := h.readyQueue []
    have h₂ : s₂.hash.Ok healthy := ok_foldl (fun s rel =>
      (hash_resolveCandidate cfg s rel (old rel)).imp_right fun he => ⟨rel, he⟩) ready h₁
    exact ok_foldl (fun s rel => (hash_forceTransfer s rel).imp_right fun he => ⟨rel, he⟩)
      unresolved h₂
  · exact h

theorem ok_drainCompare {healthy : ℕ → Bool} (cfg : Config) {s : State P H} (h : s.hash.Ok healthy)
    (old : Bool) : (s.drainCompare cfg old).hash.Ok healthy := by
  unfold State.drainCompare
  split
  · exact h
  · rename_i r c _
    unfold State.handleCompareResult
    cases r.2 with
    | transferNow =>
      dsimp only
      rw [hash_enterOrSchedule]
      exact h
    | skip => exact h
    | needHash => exact h.request r.1

theorem ok_resolveFallback {healthy : ℕ → Bool} (cfg : Config) {s : State P H}
    (h : s.hash.Ok healthy) (old : Bool) : (s.resolveFallback cfg old).hash.Ok healthy := by
  unfold State.resolveFallback
  split
  · exact h
  · rename_i rel rest _
    have h₁ := h.readyQueue rest
    rcases hash_resolveCandidate cfg
      { s with hash := { s.hash with fallbackReadyQueue := rest } } rel old with he | he
    · rw [he]
      exact h₁
    · rw [he]
      exact h₁.resolve rel

/-- A flush is sent whole on a healthy lane. -/
def FlushesWell (cfg : Config) (s : State P H) : Event P H → Prop
  | .dispatchHashRequests lane sendOk _ =>
    s.hash.flushSize cfg.maxInFlightHashRequests ≠ 0 → sendOk = true ∧ s.pool.healthy lane = true
  | _ => True

/-- As long as a lane stays healthy, the step takes no lane down that carries an unanswered hash
request, and no flush of hash requests fails or goes out on a lane that is down. -/
def KeepsHashes (cfg : Config) (s : State P H) (e : Event P H) : Prop :=
  (∃ i ∈ List.range s.pool.length, s.pool.healthy i = true ∧ i ∉ e.lostLanes) →
    (∀ j ∈ s.hash.hashJobs, j.1 ∉ e.lostLanes) ∧ FlushesWell cfg s e

instance (cfg : Config) (s : State P H) (e : Event P H) : Decidable (FlushesWell cfg s e) := by
  apply Event.casesOn (motive := fun e => Decidable (FlushesWell cfg s e)) e <;> intros <;>
    dsimp only [FlushesWell] <;> infer_instance

instance (cfg : Config) (s : State P H) (e : Event P H) : Decidable (KeepsHashes cfg s e) :=
  inferInstanceAs (Decidable (_ → _ ∧ _))

/-- The events of the hash stage: the others leave it alone. -/
def Event.hashes : Event P H → Bool
  | .drainCompare _ | .dispatchHashRequests _ _ _ | .hashPop | .hashCount _ | .hashRecord _ _
  | .hashLeave _ | .hashReady _ | .hashResponse _ _ _ | .resolveFallback _ | .sweep _ _ => true
  | _ => false

theorem hash_exec (cfg : Config) (s : State P H) {e : Event P H} (he : e.hashes = false) :
    (exec cfg s e).hash = s.hash := by
  cases e with
  | drainCompare | dispatchHashRequests | hashPop | hashCount | hashRecord | hashLeave | hashReady
  | hashResponse | resolveFallback | sweep => cases he
  | startTransfer lane healthyAtStart openOk sendOk =>
    exact (beside_tryStartTransfer (fun _ => List.mem_singleton_self lane) cfg s
      healthyAtStart openOk).hash
  | drainIo => exact (beside_drainIo [] s).hash
  | pumpSignatures lane sendOk reached =>
    exact (offHash_pumpDeltaSignatures (fun _ => List.mem_singleton_self lane) cfg s reached).hash
  | applyPlan fin => exact (offHash_applyDeltaPlanResult [] cfg s fin).hash
  | startDeltaRange lane sendOk =>
    exact (offHash_tryStartDeltaRange (fun _ => List.mem_singleton_self lane) cfg s).hash
  | beginFileRangePlan openOk fin => exact (offHash_beginFileRangePlan [] cfg s openOk fin).hash
  | startFileRange lane sendOk =>
    exact (offHash_tryStartFileRange (fun _ => List.mem_singleton_self lane) cfg s).hash
  | fileBatchOpen k records => exact (beside_fileBatchOpen [] s k records).hash
  | fileBatchChunk k payload => exact (beside_fileBatchChunk [] s k payload).hash
  | fileBatchEnd k => exact (beside_fileBatchEnd [] s k).hash
  | fileChunk k => exact (beside_fileChunk [] s k).hash
  | fileEnd k ok => exact (beside_fileEnd [] s k ok).hash
  | fileError k => exact (beside_fileError [] s k).hash
  | blockSigResponse conn rel => exact (offHash_blockSigResponse [] s conn rel).hash
  | deltaRangeChunk k len => exact (offHash_deltaRangeChunk [] s k len).hash
  | deltaRangeEnd k fin => exact (offHash_deltaRangeEnd [] cfg s k fin).hash
  | deltaError k rel => exact (offHash_deltaError [] s k rel).hash
  | fileRangeData k len => exact (offHash_fileRangeData [] s k len).hash
  | fileRangeEnd k fin => exact (offHash_fileRangeEnd [] s k fin).hash
  | fileRangeError k rel => exact (offHash_fileRangeError [] s k rel).hash
  | failoverScan order sigOrder dying dying' =>
    exact (failoverScan_links s order sigOrder dying dying').2.2.2.2
  | backoff =>
    simp only [exec]
    split <;> rfl
  | loopTest =>
    simp only [exec, State.loopTest]
    split <;> rfl
  | recvDrainedAndClosed =>
    simp only [exec]
    split <;> rfl
  | manifestEntry | manifestDir | manifestEnd | compareFlush | compareTake | comparePublish
  | refreshTuning | rebalance | ioTake | ioWrite | ioPublish | planTake | planPublish | laneDown =>
    rfl

/-- Every event leaves the hash stage in order, unless it is a flush that gets lost. -/
theorem ok_exec (cfg : Config) {healthy : ℕ → Bool} {s : State P H} {e : Event P H}
    (h : s.hash.Ok healthy) (hcan : Can s e)
    (hw : ∀ lane sendOk reached, e = .dispatchHashRequests lane sendOk reached →
      s.hash.flushSize cfg.maxInFlightHashRequests ≠ 0 → sendOk = true ∧ healthy lane = true) :
    (exec cfg s e).hash.Ok healthy := by
  by_cases he : e.hashes = false
  · rw [hash_exec cfg s he]
    exact h
  cases e with
  | drainCompare old => exact ok_drainCompare cfg h old
  | resolveFallback old => exact ok_resolveFallback cfg h old
  | sweep unresolved old => exact ok_sweep cfg h unresolved old
  | hashPop => exact h.workerPop
  | hashCount i => exact h.workerCount i
  | hashRecord i result => exact h.workerRecord i result
  | hashLeave i => exact h.workerLeave i
  | hashReady i => exact h.workerReady i
  | hashResponse conn rel v => exact h.response hcan v _
  | dispatchHashRequests lane sendOk reached =>
    simp only [exec, State.dispatchHashRequests]
    split
    · exact h
    · rename_i hn
      obtain ⟨rfl, hl⟩ := hw lane sendOk reached rfl hn
      exact h.dispatch hl _
  | _ => exact absurd rfl he

/-- The invariant of the runs that keep their hash requests: once every lane is down nothing is
said any more. -/
def HashOkOrNone (s : State P H) : Prop := HashOk s ∨ ∀ i, s.pool.healthy i = false

theorem mem_range_healthy {p : Pool} {i : ℕ} (h : p.healthy i = true) :
    i ∈ List.range p.length := by
  rw [List.mem_range]
  by_contra hi
  rw [Pool.healthy, List.getElem?_eq_none (by omega)] at h
  cases h

theorem hashOkOrNone_step (cfg : Config) (s : State P H) (e : Event P H) (hs : HashOkOrNone s)
    (hcan : Can s e) (hk : KeepsHashes cfg s e) : HashOkOrNone (exec cfg s e) := by
  have hlanes := (exec_onward cfg s e).1
  by_cases hlive : ∃ i, (exec cfg s e).pool.healthy i = true
  · obtain ⟨i, hi⟩ := hlive
    have hb := hlanes.fell i hi
    have hok : HashOk s := by
      rcases hs with hs | hnone
      · exact hs
      · rw [hnone] at hb
        cases hb
    left
    by_cases hn : i ∈ e.lostLanes
    · -- a failed send that was not made: the lane it names is still healthy
      have hkept := (healthy_after cfg s e hi).resolve_left fun h => h hn
      refine ok_exec cfg (hok.lanes fun j hj => hkept j.1 (hok.jobs j hj)) hcan ?_
      rintro lane sendOk reached rfl hflush
      cases sendOk with
      | true => cases hn
      | false =>
        have hil : i = lane := List.mem_singleton.1 hn
        have hdown : (exec cfg s (.dispatchHashRequests lane false reached)).pool =
            s.pool.markConnDown lane := by
          simp only [exec, State.dispatchHashRequests, if_neg hflush]
          rfl
        rw [hdown, Pool.healthy_markConnDown, hil] at hi
        simp at hi
    · obtain ⟨hjobs, hw⟩ := hk ⟨i, mem_range_healthy hb, hb, hn⟩
      refine ok_exec cfg (hok.lanes fun j hj => hlanes.kept j.1 (hjobs j hj) (hok.jobs j hj)) hcan ?_
      rintro lane sendOk reached rfl hflush
      obtain ⟨rfl, hl⟩ := hw hflush
      exact ⟨rfl, hlanes.kept lane List.not_mem_nil hl⟩
  · exact .inr fun i => Bool.eq_false_of_not_eq_true fun hi => hlive ⟨i, hi⟩

theorem reach_hashOkOrNone (cfg : Config) {s : State P H}
    (h : (machine P H cfg).Reach (KeepsHashes cfg) s) : HashOkOrNone s := by
  refine h.invariant (.inl (HashStage.Ok.empty _)) ?_
  intro s e hs hcan hk
  exact hashOkOrNone_step cfg s e hs hcan.2 hk

/-! ### Bringing the stage to rest -/

/-- The client runs, has a healthy lane, and its hash stage is in order. -/
structure HashRuns (s : State P H) : Prop where
  running : s.mode = .running
  live : ∃ i, s.pool.healthy i = true
  ok : HashOk s

/-- With a healthy lane `controlConn` answers one. -/
theorem healthy_controlConn {p : Pool} (h : ∃ i, p.healthy i = true) :
    p.healthy p.controlConn = true := by
  obtain ⟨i, hi⟩ := h
  unfold Pool.controlConn
  split
  · assumption
  · obtain ⟨l, hl, hh⟩ := (Option.any_eq_true _ _).1 hi
    cases hf : p.findIdx? Lane.healthy with
    | none =>
      have := List.findIdx?_eq_none_iff.1 hf l (List.mem_of_getElem? hl)
      rw [hh] at this
      cases this
    | some k =>
      obtain ⟨hk, hlane, -⟩ := List.findIdx?_eq_some_iff_getElem.1 hf
      simp only [Option.getD_some, Pool.healthy, List.getElem?_eq_getElem hk, Option.any_some]
      exact hlane

/-- An event that takes no lane down and is no flush keeps the hash requests. -/
theorem keepsHashes_of_quiet (cfg : Config) {s : State P H} {e : Event P H} (hl : e.lostLanes = [])
    (hw : FlushesWell cfg s e) : KeepsHashes cfg s e := by
  intro _
  rw [hl]
  exact ⟨fun _ _ => List.not_mem_nil, hw⟩

/-- From `h` to `h'` files are resolved and nothing else. -/
structure Resolves (h h' : HashStage P H) : Prop where
  sent : h'.hashRequestsSent = h.hashRequestsSent
  received : h'.hashResponsesReceived = h.hashResponsesReceived
  requested : h'.hashRequested = h.hashRequested
  resolved : h.hashResolved ⊆ h'.hashResolved

theorem Resolves.refl (h : HashStage P H) : Resolves h h := ⟨rfl, rfl, rfl, Finset.Subset.refl _⟩

theorem Resolves.trans {h₁ h₂ h₃ : HashStage P H} (h : Resolves h₁ h₂) (h' : Resolves h₂ h₃) :
    Resolves h₁ h₃ :=
  ⟨h'.sent.trans h.sent, h'.received.trans h.received, h'.requested.trans h.requested,
    h.resolved.trans h'.resolved⟩

theorem resolves_resolve (h : HashStage P H) (rel : P) : Resolves h (h.resolve rel) := by
  unfold HashStage.resolve
  split
  · exact ⟨rfl, rfl, rfl, Finset.subset_insert _ _⟩
  · exact .refl h

theorem resolves_foldl {α : Type} {step : State P H → α → State P H}
    (hstep : ∀ s a, Resolves s.hash (step s a).hash) (l : List α) (s : State P H) :
    Resolves s.hash (l.foldl step s).hash := by
  induction l generalizing s with
  | nil => exact .refl _
  | cons a l ih => exact (hstep s a).trans (ih (step s a))

theorem resolves_resolveCandidate (cfg : Config) (s : State P H) (rel : P) (old : Bool) :
    Resolves s.hash (s.resolveCandidate cfg rel old).hash := by
  rcases hash_resolveCandidate cfg s rel old with he | he
  · rw [he]
    exact .refl _
  · rw [he]
    exact resolves_resolve _ _

theorem resolves_forceTransfer (s : State P H) (rel : P) :
    Resolves s.hash (s.forceTransfer rel).hash := by
  rcases hash_forceTransfer s rel with he | he
  · rw [he]
    exact .refl _
  · rw [he]
    exact resolves_resolve _ _

theorem resolved_forceTransfer {s : State P H} {rel : P} (hr : rel ∈ s.hash.hashRequested) :
    rel ∈ (s.forceTransfer rel).hash.hashResolved := by
  unfold State.forceTransfer
  split
  · assumption
  · rename_i hn
    show rel ∈ (s.hash.resolve rel).hashResolved
    unfold HashStage.resolve
    rw [dif_pos ⟨hr, hn⟩]
    exact Finset.mem_insert_self _ _

/-- The forced transfers resolve every file they name. -/
theorem resolved_forceTransfers (l : List P) (s : State P H) {rel : P} (hrel : rel ∈ l)
    (hr : rel ∈ s.hash.hashRequested) : rel ∈ (l.foldl forceTransfer s).hash.hashResolved := by
  induction l generalizing s with
  | nil => cases hrel
  | cons a l ih =>
    have h1 := resolves_foldl resolves_forceTransfer l (s.forceTransfer a)
    rcases List.mem_cons.1 hrel with rfl | hrel
    · exact h1.resolved (resolved_forceTransfer hr)
    · refine ih (s.forceTransfer a) hrel ?_
      rw [(resolves_forceTransfer s a).requested]
      exact hr

variable [Inhabited H]

/-- The first unanswered request is answered. -/
theorem leads_response (cfg : Config) {s : State P H} (hs : HashRuns s) {j : ℕ × P}
    (hj : j ∈ s.hash.hashJobs) : (machine P H cfg).Leads (KeepsHashes cfg) (fun s' => HashRuns s' ∧
      s'.hash.pendingHashRequests = s.hash.pendingHashRequests ∧
      s'.hash.hashJobs.length + 1 = s.hash.hashJobs.length) s := by
  have hpos := List.length_pos_of_mem hj
  refine .step (e := .hashResponse j.1 j.2 default) ⟨hs.running, hj⟩
    (keepsHashes_of_quiet cfg rfl trivial) (.here ⟨⟨hs.running, hs.live, ?_⟩, rfl, ?_⟩)
  · exact hs.ok.response hj default _
  · show (s.hash.hashJobs.erase j).length + 1 = _
    rw [List.length_erase_of_mem hj]
    omega

/-- With nothing in flight the window is open, and a flush goes out on a healthy lane. -/
theorem leads_flush (cfg : Config) {s : State P H} (hs : HashRuns s) (hj : s.hash.hashJobs = [])
    (hp : s.hash.pendingHashRequests ≠ []) :
    (machine P H cfg).Leads (KeepsHashes cfg) (fun s' => HashRuns s' ∧
      ∃ n, 0 < n ∧ s'.hash.pendingHashRequests.length + n = s.hash.pendingHashRequests.length ∧
        s'.hash.hashJobs.length = n) s := by
  have hc := hs.ok.counted
  rw [hj, List.length_nil] at hc
  have hpend := List.length_pos_of_ne_nil hp
  have hlane := healthy_controlConn hs.live
  have hlt : s.pool.controlConn < s.pool.length := List.mem_range.1 (mem_range_healthy hlane)
  have hw := cfg.hash_pos
  have hn : 0 < s.hash.flushSize cfg.maxInFlightHashRequests ∧
      s.hash.flushSize cfg.maxInFlightHashRequests ≤ s.hash.pendingHashRequests.length ∧
      s.hash.flushSize cfg.maxInFlightHashRequests ≤ 256 := by
    unfold HashStage.flushSize
    omega
  have hnext : (machine P H cfg).next s (.dispatchHashRequests s.pool.controlConn true 0) =
      { s with hash := s.hash.dispatch cfg.maxInFlightHashRequests s.pool.controlConn 256 } := by
    simp only [machine, exec, State.dispatchHashRequests, if_neg (Nat.ne_of_gt hn.1), if_true]
  refine .step (e := .dispatchHashRequests s.pool.controlConn true 0) ⟨hs.running, hlt, .inl rfl⟩
    (keepsHashes_of_quiet cfg rfl fun _ => ⟨rfl, hlane⟩) (.here ?_)
  rw [hnext]
  refine ⟨⟨hs.running, hs.live, hs.ok.dispatch hlane _⟩, _, hn.1, ?_, ?_⟩
  · simp only [HashStage.dispatch, List.length_drop]
    omega
  · simp only [HashStage.dispatch, hj, List.nil_append, List.length_map, List.length_take]
    omega

/-- Every request is sent and answered. -/
theorem leads_answered (cfg : Config) {s : State P H} (hs : HashRuns s) :
    (machine P H cfg).Leads (KeepsHashes cfg)
      (fun s' => HashRuns s' ∧ s'.hash.pendingHashRequests = [] ∧ s'.hash.hashJobs = []) s := by
  have hmeasure : (machine P H cfg).Leads (KeepsHashes cfg) (fun s' => HashRuns s' ∧
      2 * s'.hash.pendingHashRequests.length + s'.hash.hashJobs.length = 0) s := by
    refine Machine.leads_of_measure
      (fun s => 2 * s.hash.pendingHashRequests.length + s.hash.hashJobs.length) ?_ hs
    intro s hs hne
    cases hj : s.hash.hashJobs with
    | cons j jobs =>
      have hmem : j ∈ s.hash.hashJobs := by
        rw [hj]
        exact List.mem_cons_self
      refine (leads_response cfg hs hmem).bind fun s' hs' => .here ⟨hs'.1, ?_⟩
      rw [hs'.2.1, ← hj]
      have := hs'.2.2
      omega
    | nil =>
      have hp : s.hash.pendingHashRequests ≠ [] := by
        intro h0
        rw [hj, h0] at hne
        exact hne rfl
      refine (leads_flush cfg hs hj hp).bind fun s' hs' => .here ⟨hs'.1, ?_⟩
      obtain ⟨-, n, hn, h1, h2⟩ := hs'
      rw [List.length_nil]
      omega
  refine hmeasure.bind fun s' hs' => .here ⟨hs'.1, ?_, ?_⟩
  · exact List.eq_nil_of_length_eq_zero (by omega)
  · exact List.eq_nil_of_length_eq_zero (by omega)

/-- How far a worker is from giving its slot back. -/
def HashPhase.toGo : HashPhase → ℕ
  | .counted => 2
  | .recorded => 1
  | _ => 0

/-- Every request is answered and no request waits. -/
structure HashRests (s : State P H) : Prop extends HashRuns s where
  pending : s.hash.pendingHashRequests = []
  jobs : s.hash.hashJobs = []

/-- A worker that hashes records its result, and one that has recorded it leaves. -/
theorem leads_worker (cfg : Config) {s : State P H} (hs : HashRests s) {i : ℕ} {v : P × HashPhase}
    (hi : s.hash.hashWorkers[i]? = some v) (hv : v.2.toGo ≠ 0) :
    (machine P H cfg).Leads (KeepsHashes cfg) (fun s' => HashRests s' ∧
      s'.hash.weigh HashPhase.toGo < s.hash.weigh HashPhase.toGo) s := by
  obtain ⟨f, p⟩ := v
  cases p with
  | popped => exact absurd rfl hv
  | left => exact absurd rfl hv
  | counted =>
    have hr : s.hash.workerRecord i none =
        { s.hash.setPhase i .recorded with
          localHashFailed := insert f s.hash.localHashFailed
          failed_sub := Finset.insert_subset
            (s.hash.workers_sub (f, .counted) (List.mem_of_getElem? hi)) s.hash.failed_sub } := by
      unfold HashStage.workerRecord
      split
      · rename_i f' hi'
        rw [hi] at hi'
        cases hi'
        rfl
      · rename_i hno
        exact absurd hi (hno f)
    have hw : (s.hash.workerRecord i none).weigh HashPhase.toGo + 2 =
        s.hash.weigh HashPhase.toGo + 1 := by
      rw [hr]
      exact HashStage.Ok.weigh_setPhase hi .recorded HashPhase.toGo
    refine .step (e := .hashRecord i none) ⟨hs.running, trivial⟩
      (keepsHashes_of_quiet cfg rfl trivial)
      (.here ⟨⟨⟨hs.running, hs.live, hs.ok.workerRecord i none⟩, ?_, ?_⟩, ?_⟩)
    · show (s.hash.workerRecord i none).pendingHashRequests = []
      rw [hr]
      exact hs.pending
    · show (s.hash.workerRecord i none).hashJobs = []
      rw [hr]
      exact hs.jobs
    · show (s.hash.workerRecord i none).weigh HashPhase.toGo < _
      omega
  | recorded =>
    have hl : s.hash.workerLeave i =
        { s.hash.setPhase i .left with localHashInFlight := s.hash.localHashInFlight - 1 } := by
      unfold HashStage.workerLeave
      rw [hi]
    have hw : (s.hash.workerLeave i).weigh HashPhase.toGo + 1 =
        s.hash.weigh HashPhase.toGo + 0 := by
      rw [hl]
      exact HashStage.Ok.weigh_setPhase hi .left HashPhase.toGo
    refine .step (e := .hashLeave i) ⟨hs.running, trivial⟩ (keepsHashes_of_quiet cfg rfl trivial)
      (.here ⟨⟨⟨hs.running, hs.live, hs.ok.workerLeave i⟩, ?_, ?_⟩, ?_⟩)
    · show (s.hash.workerLeave i).pendingHashRequests = []
      rw [hl]
      exact hs.pending
    · show (s.hash.workerLeave i).hashJobs = []
      rw [hl]
      exact hs.jobs
    · show (s.hash.workerLeave i).weigh HashPhase.toGo < _
      omega

/-- Every worker that hashes comes to its end. -/
theorem leads_workersDone (cfg : Config) {s : State P H} (hs : HashRests s) :
    (machine P H cfg).Leads (KeepsHashes cfg)
      (fun s' => HashRests s' ∧ s'.hash.localHashInFlight = 0) s := by
  have hmeasure : (machine P H cfg).Leads (KeepsHashes cfg) (fun s' => HashRests s' ∧
      s'.hash.weigh HashPhase.toGo = 0) s := by
    refine Machine.leads_of_measure (fun s => s.hash.weigh HashPhase.toGo) ?_ hs
    intro s hs hne
    obtain ⟨v, hv, hgo⟩ : ∃ v ∈ s.hash.hashWorkers, v.2.toGo ≠ 0 := by
      by_contra hno
      push Not at hno
      refine hne (List.sum_eq_zero fun n hn => ?_)
      obtain ⟨v, hv, rfl⟩ := List.mem_map.1 hn
      exact hno v hv
    obtain ⟨i, hi⟩ := List.mem_iff_getElem?.1 hv
    exact leads_worker cfg hs hi hgo
  refine hmeasure.bind fun s' hs' => .here ⟨hs'.1, ?_⟩
  have hzero := List.sum_eq_zero_iff_forall_eq_nat.1 hs'.2
  rw [hs'.1.ok.workers]
  refine List.sum_eq_zero fun n hn => ?_
  obtain ⟨v, hv, rfl⟩ := List.mem_map.1 hn
  have h0 := hzero _ (List.mem_map_of_mem hv)
  revert h0
  cases v.2 <;> simp [HashPhase.toGo, HashPhase.inFlight]

/-- A sweep of a stage at rest resolves every file. -/
theorem sweep_resolves (cfg : Config) {s : State P H} (hs : HashRests s)
    (h0 : s.hash.localHashInFlight = 0) (hlt : s.hash.fallbackResolved < s.hash.fallbackCount)
    {unresolved : List P}
    (hu : unresolved.toFinset = s.hash.hashRequested \ s.hash.hashResolved) (old : P → Bool) :
    Resolves s.hash (s.sweepUnresolvedFallbackIfQuiescent cfg unresolved old).hash ∧
      (s.sweepUnresolvedFallbackIfQuiescent cfg unresolved old).hash.fallbackResolved =
        (s.sweepUnresolvedFallbackIfQuiescent cfg unresolved old).hash.fallbackCount := by
  have hc := hs.ok.counted
  rw [hs.jobs, List.length_nil] at hc
  unfold State.sweepUnresolvedFallbackIfQuiescent
  rw [if_pos ⟨hlt, hs.pending, hc, h0⟩]
  extract_lets ready src s₁ s₂
  have h₁ : Resolves s.hash s₁.hash := ⟨rfl, rfl, rfl, Finset.Subset.refl _⟩
  have h₂ : Resolves s₁.hash s₂.hash :=
    resolves_foldl (fun s rel => resolves_resolveCandidate cfg s rel (old rel)) ready s₁
  have h₃ := resolves_foldl resolves_forceTransfer unresolved s₂
  refine ⟨(h₁.trans h₂).trans h₃, ?_⟩
  have hall : (unresolved.foldl forceTransfer s₂).hash.hashRequested ⊆
      (unresolved.foldl forceTransfer s₂).hash.hashResolved := by
    intro f hf
    have hf₂ : f ∈ s₂.hash.hashRequested := by rwa [← h₃.requested]
    by_cases hres : f ∈ s.hash.hashResolved
    · exact h₃.resolved (h₂.resolved hres)
    · have hreq : f ∈ s.hash.hashRequested := by
        rwa [h₂.requested] at hf₂
      refine resolved_forceTransfers unresolved s₂ ?_ hf₂
      rw [← List.mem_toFinset, hu, Finset.mem_sdiff]
      exact ⟨hreq, hres⟩
  rw [HashStage.resolved_eq, HashStage.count_eq, Finset.Subset.antisymm hall
    (HashStage.resolved_sub _)]

/-- The hash stage can be brought to rest with every file resolved. -/
theorem leads_resolved (cfg : Config) {s : State P H} (hs : HashRuns s) :
    (machine P H cfg).Leads (KeepsHashes cfg)
      (fun s' => s'.hash.hashRequestsSent = s'.hash.hashResponsesReceived ∧
        s'.hash.fallbackResolved = s'.hash.fallbackCount) s := by
  refine (leads_answered cfg hs).bind fun s₁ h₁ => ?_
  refine (leads_workersDone cfg ⟨h₁.1, h₁.2.1, h₁.2.2⟩).bind fun s₂ h₂ => ?_
  obtain ⟨hr, h0⟩ := h₂
  have hc := hr.ok.counted
  rw [hr.jobs, List.length_nil, Nat.add_zero] at hc
  by_cases hlt : s₂.hash.fallbackResolved < s₂.hash.fallbackCount
  · have hu : (s₂.hash.hashRequested \ s₂.hash.hashResolved).toList.toFinset =
        s₂.hash.hashRequested \ s₂.hash.hashResolved := Finset.toList_toFinset _
    obtain ⟨h1, h2⟩ := sweep_resolves cfg hr h0 hlt hu fun _ => false
    refine .step (e := .sweep (s₂.hash.hashRequested \ s₂.hash.hashResolved).toList fun _ => false)
      ⟨hr.running, Finset.nodup_toList _, hu⟩ (keepsHashes_of_quiet cfg rfl trivial) (.here ⟨?_, h2⟩)
    exact h1.sent.trans (hc.trans h1.received.symm)
  · refine .here ⟨hc, ?_⟩
    have hle : s₂.hash.fallbackResolved ≤ s₂.hash.fallbackCount := by
      rw [HashStage.resolved_eq, HashStage.count_eq]
      exact Finset.card_le_card s₂.hash.resolved_sub
    omega

/-- A file whose hash was asked for is pending, in flight on a healthy lane or answered. -/
def HashPlaced (s : State P H) (f : P) : Prop :=
  f ∈ s.hash.pendingHashRequests ∨
    (∃ j ∈ s.hash.hashJobs, j.2 = f ∧ s.pool.healthy j.1 = true) ∨ s.hash.remoteHashes f ≠ none

instance (s : State P H) (f : P) : Decidable (HashPlaced s f) :=
  inferInstanceAs (Decidable (_ ∨ (∃ j ∈ _, _ ∧ _) ∨ _))

/-- **No hash request is orphaned** in a run in which, while a lane stays healthy, no lane goes
down with unanswered hash requests and no flush of them gets lost. In every state reached with
a healthy lane each requested file that is not resolved is pending, in flight on a healthy
lane or answered; and from there a run of the same kind makes the two counters equal and
resolves every file, so that the completion test no longer waits for the hash stage. -/
theorem no_orphaned_hash (cfg : Config) {s : State P H}
    (h : (machine P H cfg).Reach (KeepsHashes cfg) s) (hlive : ∃ i, s.pool.healthy i = true) :
    (∀ f ∈ s.hash.hashRequested, f ∉ s.hash.hashResolved → HashPlaced s f) ∧
      (s.mode = .running → (machine P H cfg).Leads (KeepsHashes cfg)
        (fun s' => s'.hash.hashRequestsSent = s'.hash.hashResponsesReceived ∧
          s'.hash.fallbackResolved = s'.hash.fallbackCount) s) := by
  have hok : HashOk s := by
    rcases reach_hashOkOrNone cfg h with hok | hnone
    · exact hok
    · obtain ⟨i, hi⟩ := hlive
      rw [hnone] at hi
      cases hi
  refine ⟨fun f hf _ => ?_, fun hrun => leads_resolved cfg ⟨hrun, hlive, hok⟩⟩
  rcases hok.placed f hf with h1 | ⟨lane, h1⟩ | h1
  · exact .inl h1
  · exact .inr (.inl ⟨(lane, f), h1, rfl, hok.jobs _ h1⟩)
  · exact .inr (.inr h1)

/-- The manifest lists one file whose hash is asked for; the flush goes out on the primary. -/
def listAndHash : List (Event ℕ ℕ) :=
  [.manifestEntry 0 ⟨2, 0⟩, .manifestEnd, .compareFlush, .compareTake,
    .comparePublish 0 fun _ => .needHash, .drainCompare false, .dispatchHashRequests 0 true 0]

/-- After `listAndHash` the request is in flight on the primary. -/
theorem no_orphaned_hash_listAndHash :
    HashPlaced ((machine ℕ ℕ twoLanes).run (State.start ℕ ℕ twoLanes) listAndHash) 0 :=
  (no_orphaned_hash twoLanes (Machine.reach_run (by decide)) ⟨0, by decide⟩).1 0 (by decide)
    (by decide)

/-- The primary dies with the request in flight; the scan runs. -/
def orphanedHash : List (Event ℕ ℕ) := listAndHash ++ [.laneDown 0, .failoverScan [] [] [] []]

/-- **A hash request dies with its lane.** Lane 1 is healthy, the file is not resolved, and its
request is neither pending nor in flight on a healthy lane nor answered. -/
theorem orphaned_with_its_lane : ∃ s, (machine ℕ ℕ twoLanes).Reach (fun _ _ => True) s ∧
    s.mode = .running ∧ s.pool.healthy 1 = true ∧ 0 ∈ s.hash.hashRequested ∧
    0 ∉ s.hash.hashResolved ∧ ¬ HashPlaced s 0 ∧
    s.hash.hashRequestsSent ≠ s.hash.hashResponsesReceived :=
  ⟨(machine ℕ ℕ twoLanes).run (State.start ℕ ℕ twoLanes) orphanedHash,
    Machine.reach_run (by decide), by decide, by decide, by decide, by decide, by decide, by decide⟩

end FastClone.Client
