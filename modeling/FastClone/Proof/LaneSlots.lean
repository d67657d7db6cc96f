import FastClone.Proof.ClientAccounting
import FastClone.Proof.ClientFrame
import FastClone.Spec.LaneSlots

/-!
# Every healthy lane counts its streams

`Settles` is what every step does that opens no stream, `SlotStep` adds the four dispatch loops (`slotStep_exec`). The one
handler that can break the accounts is that of `FileError`, which releases a slot also where no stream ends
(`accounted_iff`). `pickConnection_canPick` and `exists_pickConnection` tie `canPick` to `SelectLeastLoadedLane`.
-/

set_option linter.unusedSectionVars false

namespace FastClone.Client

open State Runs Table

variable {P H : Type} [DecidableEq P] [DecidableEq H]

/-! ### Counters of the lanes -/

namespace Pool

theorem inFlight_modify (p : Pool) (i j : ℕ) (g : Lane → Lane) :
    inFlight (p.modify i g) j = if i = j then (p[j]?.map fun l => (g l).inFlight).getD 0 else p.inFlight j := by
  unfold inFlight
  rw [List.getElem?_modify]
  cases p[j]? with
  | none => simp
  | some l => by_cases hij : i = j <;> simp [hij]

theorem inFlight_markConnDown (p : Pool) (i j : ℕ) : (p.markConnDown i).inFlight j = p.inFlight j := by
  unfold markConnDown
  rw [inFlight_modify, ite_eq_right_iff]
  intro _
  rfl

theorem inFlight_markConnsDown (lanes : List ℕ) (p : Pool) (j : ℕ) :
    (lanes.foldl markConnDown p).inFlight j = p.inFlight j := by
  induction lanes generalizing p with
  | nil => rfl
  | cons i lanes ih => rw [List.foldl_cons, ih, inFlight_markConnDown]

theorem inFlight_acquireSlot {p : Pool} {i : ℕ} (hi : p.healthy i = true) (j : ℕ) :
    (p.acquireSlot i).inFlight j = p.inFlight j + if i = j then 1 else 0 := by
  unfold acquireSlot
  rw [inFlight_modify]
  by_cases hij : i = j
  · subst hij
    unfold healthy at hi
    unfold inFlight
    cases hp : p[i]? with
    | none => rw [hp] at hi; cases hi
    | some l => simp
  · simp [hij]

theorem inFlight_releaseSlot (p : Pool) (i j : ℕ) :
    (p.releaseSlot i).inFlight j = p.inFlight j - if i = j then 1 else 0 := by
  unfold releaseSlot
  rw [inFlight_modify]
  by_cases hij : i = j
  · subst hij
    unfold inFlight
    cases p[i]? <;> simp
  · simp [hij]

theorem healthy_acquireSlot (p : Pool) (i j : ℕ) : (p.acquireSlot i).healthy j = p.healthy j :=
  healthy_modify p i j _ fun _ => rfl

theorem healthy_releaseSlot (p : Pool) (i j : ℕ) : (p.releaseSlot i).healthy j = p.healthy j :=
  healthy_modify p i j _ fun _ => rfl

end Pool

/-! ### Streams of a lane -/

namespace Streams

theorem onLane_eq_total (s : Streams P) (lane : ℕ) :
    s.onLane lane = total (fun k _ => if k.1 = lane then 1 else 0) s.table := by
  unfold onLane total AList.keys List.keys
  generalize s.table.entries = l
  induction l with
  | nil => rfl
  | cons e l ih =>
    rw [List.map_cons, List.countP_cons, ih, List.map_cons, List.sum_cons, Nat.add_comm]
    simp only [beq_iff_eq]

theorem onLane_openNext (s : Streams P) (lane : ℕ) (st : Stream P) (j : ℕ) :
    (s.openNext lane st).onLane j = s.onLane j + if lane = j then 1 else 0 := by
  rw [onLane_eq_total, onLane_eq_total, Nat.add_comm]
  exact total_insert_new (nextKey_free s lane) st

theorem onLane_close {s : Streams P} {k : Key} {st : Stream P} (h : s.find k = some st) (j : ℕ) :
    s.onLane j = (s.close k).onLane j + if k.1 = j then 1 else 0 := by
  rw [onLane_eq_total, onLane_eq_total, Nat.add_comm]
  exact total_erase h

/-- Closing a key of another lane. -/
theorem onLane_close_ne (s : Streams P) {k : Key} {j : ℕ} (hk : k.1 ≠ j) : (s.close k).onLane j = s.onLane j := by
  cases h : s.find k with
  | none => rw [close_absent h]
  | some st => rw [onLane_close h j, if_neg hk, Nat.add_zero]

theorem onLane_update (s : Streams P) (k : Key) (st : Stream P) (j : ℕ) : (s.update k st).onLane j = s.onLane j := by
  unfold update
  split
  · rename_i hk
    obtain ⟨old, hold⟩ := Option.isSome_iff_exists.1 (AList.lookup_isSome.2 hk)
    rw [onLane_eq_total, onLane_eq_total, total_insert, total_erase hold]
  · rfl

theorem find_close_none {s : Streams P} {j : Key} (k : Key) (h : s.find j = .none) : (s.close k).find j = .none := by
  by_cases hj : j = k
  · rw [hj]
    exact AList.lookup_erase _ _
  · rw [find_close_ne hj, h]

theorem find_update_none {s : Streams P} {k j : Key} (st : Stream P) (h : s.find j = .none) :
    (s.update k st).find j = .none := by
  unfold update
  split
  · rename_i hk
    have hne : j ≠ k := by
      rintro rfl
      rw [find, AList.lookup_eq_none] at h
      exact h hk
    exact (AList.lookup_insert_ne hne).trans h
  · exact h

theorem find_openNext_ne {s : Streams P} {lane : ℕ} {st : Stream P} {k : Key} (h : k ≠ s.nextKey lane) :
    (s.openNext lane st).find k = s.find k := AList.lookup_insert_ne h

theorem find_openNext (s : Streams P) (lane : ℕ) (st : Stream P) : (s.openNext lane st).find (s.nextKey lane) = some st :=
  AList.lookup_insert _

end Streams

/-! ### Steps that open no stream -/

/-- Accounts that were right stay right, and no stream is opened. -/
structure Settles (s s' : State P H) : Prop where
  slots : ∀ i, s'.pool.healthy i = true → s.pool.healthy i = true ∧
    (s.pool.inFlight i = s.streams.onLane i → s'.pool.inFlight i = s'.streams.onLane i)
  closed : ∀ k, s.streams.find k = none → s'.streams.find k = none
  limit : 0 < s.activeStreamLimit → 0 < s'.activeStreamLimit

namespace Settles

variable {s s₁ s' : State P H}

theorem refl (s : State P H) : Settles s s := ⟨fun _ h => ⟨h, id⟩, fun _ => id, id⟩

theorem trans (h : Settles s s₁) (h' : Settles s₁ s') : Settles s s' where
  slots := fun i hi =>
    ⟨(h.slots i (h'.slots i hi).1).1, fun heq => (h'.slots i hi).2 ((h.slots i (h'.slots i hi).1).2 heq)⟩
  closed := fun k hk => h'.closed k (h.closed k hk)
  limit := fun hpos => h'.limit (h.limit hpos)

theorem foldl {α : Type} {step : State P H → α → State P H} (h : ∀ s a, Settles s (step s a))
    (l : List α) (s : State P H) : Settles s (l.foldl step s) := by
  induction l generalizing s with
  | nil => exact .refl s
  | cons a l ih => exact (h s a).trans (ih (step s a))

/-- What touches neither lanes nor streams. -/
theorem of_eq (hp : s'.pool = s.pool) (ht : s'.streams = s.streams)
    (hl : s'.activeStreamLimit = s.activeStreamLimit) : Settles s s' := by
  refine ⟨fun i hi => ?_, fun k hk => ?_, fun hpos => ?_⟩
  · rw [hp] at hi
    rw [hp, ht]
    exact ⟨hi, id⟩
  · rw [ht]
    exact hk
  · rw [hl]
    exact hpos

/-- A lane goes down; an id may be lost with it. -/
theorem of_down (lane : ℕ) (hp : s'.pool = s.pool.markConnDown lane)
    (ht : s'.streams.table = s.streams.table) (hl : s'.activeStreamLimit = s.activeStreamLimit) : Settles s s' := by
  refine ⟨fun i hi => ?_, fun k hk => ?_, fun hpos => ?_⟩
  · rw [hp, Pool.healthy_markConnDown, Bool.and_eq_true] at hi
    rw [hp, Pool.inFlight_markConnDown]
    unfold Streams.onLane
    rw [ht]
    exact ⟨hi.1, id⟩
  · unfold Streams.find
    rw [ht]
    exact hk
  · rw [hl]
    exact hpos

theorem retryOrFail (s : State P H) (rel : P) : Settles s (s.retryOrFail rel) := of_eq rfl rfl rfl

theorem applyOuts (s : State P H) (outs : List (BatchOut P)) : Settles s (s.applyOuts outs) := by
  refine foldl (fun s o => ?_) outs s
  cases o with
  | write task => exact of_eq rfl rfl rfl
  | fail rel => exact of_eq rfl rfl rfl
  | retry rel => exact retryOrFail s rel

theorem unknownStream (s : State P H) (conn : ℕ) (what : String) : Settles s (s.unknownStream conn what) := by
  unfold State.unknownStream
  split <;> exact of_eq rfl rfl rfl

theorem updateStream (s : State P H) (k : Key) (st : Stream P) :
    Settles s { s with streams := s.streams.update k st } := by
  refine ⟨fun i hi => ⟨hi, fun heq => ?_⟩, fun j hj => Streams.find_update_none st hj, id⟩
  exact heq.trans (s.streams.onLane_update k st i).symm

/-- The end of a stream gives its slot back. -/
theorem closeStream {s : State P H} {k : Key} {st : Stream P} (hk : s.streams.find k = some st) :
    Settles s (s.closeStream k) := by
  unfold State.closeStream
  refine ⟨fun i hi => ?_, fun j hj => Streams.find_close_none k hj, id⟩
  dsimp only at hi ⊢
  rw [Pool.healthy_releaseSlot] at hi
  rw [Pool.inFlight_releaseSlot]
  have hclose := Streams.onLane_close hk i
  exact ⟨hi, fun heq => by omega⟩

theorem enterFileRangeOrSchedule (cfg : Config) (s : State P H) (rel : P) :
    Settles s (s.enterFileRangeOrSchedule cfg rel) := by
  unfold State.enterFileRangeOrSchedule
  cases he : s.tryEnterFileRange cfg rel with
  | none => exact of_eq rfl rfl rfl
  | some s' =>
    obtain ⟨book, -, rfl⟩ := tryEnterFileRange_eq_some he
    exact of_eq rfl rfl rfl

theorem enterOrSchedule (cfg : Config) (s : State P H) (rel : P) (old : Bool) :
    Settles s (s.enterOrSchedule cfg rel old) := by
  unfold State.enterOrSchedule
  cases he : s.tryEnterDelta cfg rel old with
  | none => exact enterFileRangeOrSchedule cfg s rel
  | some s' =>
    obtain ⟨-, book, -, rfl⟩ := tryEnterDelta_eq_some he
    exact of_eq rfl rfl rfl

theorem drainCompare (cfg : Config) (s : State P H) (old : Bool) : Settles s (s.drainCompare cfg old) := by
  unfold State.drainCompare
  split
  · exact .refl s
  · rename_i r c _
    have h₁ : Settles s { s with compare := c } := of_eq rfl rfl rfl
    unfold handleCompareResult
    split
    · exact h₁.trans (enterOrSchedule cfg _ r.1 old)
    · exact of_eq rfl rfl rfl
    · exact of_eq rfl rfl rfl

theorem resolveCandidate (cfg : Config) (s : State P H) (rel : P) (old : Bool) :
    Settles s (s.resolveCandidate cfg rel old) := by
  unfold State.resolveCandidate
  split
  · exact .refl s
  · split
    · exact .refl s
    · split
      · exact .refl s
      · dsimp only
        split
        · exact (enterOrSchedule cfg s rel old).trans (of_eq rfl rfl rfl)
        · exact of_eq rfl rfl rfl

theorem resolveFallback (cfg : Config) (s : State P H) (old : Bool) : Settles s (s.resolveFallback cfg old) := by
  unfold State.resolveFallback
  split
  · exact .refl s
  · rename_i rel rest _
    have h₁ : Settles s { s with hash := { s.hash with fallbackReadyQueue := rest } } := of_eq rfl rfl rfl
    exact h₁.trans (resolveCandidate cfg _ rel old)

theorem forceTransfer (s : State P H) (rel : P) : Settles s (s.forceTransfer rel) := by
  unfold State.forceTransfer
  split <;> exact of_eq rfl rfl rfl

theorem sweep (cfg : Config) (s : State P H) (unresolved : List P) (old : P → Bool) :
    Settles s (s.sweepUnresolvedFallbackIfQuiescent cfg unresolved old) := by
  unfold sweepUnresolvedFallbackIfQuiescent
  split
  · extract_lets ready src s₁ s₂
    have h₁ : Settles s s₁ := of_eq rfl rfl rfl
    have h₂ : Settles s₁ s₂ := foldl (fun s rel => resolveCandidate cfg s rel (old rel)) ready s₁
    exact (h₁.trans h₂).trans (foldl forceTransfer unresolved s₂)
  · exact .refl s

theorem dispatchHashRequests (cfg : Config) (s : State P H) (lane : ℕ) (sendOk : Bool) (reached : ℕ) :
    Settles s (s.dispatchHashRequests cfg lane sendOk reached) := by
  unfold State.dispatchHashRequests
  split
  · exact .refl s
  · split
    · exact of_eq rfl rfl rfl
    · exact of_down lane rfl rfl rfl

theorem pumpDeltaSignatures (cfg : Config) (s : State P H) (lane : ℕ) (sendOk : Bool) (reached : ℕ) :
    Settles s (s.pumpDeltaSignatures cfg lane sendOk reached) := by
  unfold State.pumpDeltaSignatures
  extract_lets room r
  split
  · exact of_eq rfl rfl rfl
  · split
    · exact of_eq rfl rfl rfl
    · exact of_down lane rfl rfl rfl

theorem finalizeDelta (cfg : Config) (s : State P H) (rel : P) (fin : TempFinalizeResult) :
    Settles s (s.finalizeDelta cfg rel fin) := by
  unfold State.finalizeDelta
  split
  · exact .refl s
  · extract_lets book
    split
    · exact of_eq rfl rfl rfl
    · have h₁ : Settles s { s with delta := { s.delta with book := book.abandon rel } } := of_eq rfl rfl rfl
      exact h₁.trans (enterFileRangeOrSchedule cfg _ rel)

theorem finalizeFileRange (s : State P H) (rel : P) (fin : TempFinalizeResult) :
    Settles s (s.finalizeFileRange rel fin) := by
  unfold State.finalizeFileRange
  split
  · exact .refl s
  · extract_lets book
    split <;> exact of_eq rfl rfl rfl

theorem applyDeltaPlanResult (cfg : Config) (s : State P H) (fin : TempFinalizeResult) :
    Settles s (s.applyDeltaPlanResult cfg fin) := by
  unfold State.applyDeltaPlanResult
  split
  · exact .refl s
  · rename_i r d _
    have withDelta (d : DeltaStage P) : Settles s { s with delta := d } := of_eq rfl rfl rfl
    split
    · exact withDelta d
    · split
      · exact (withDelta _).trans (enterFileRangeOrSchedule cfg _ r.rel)
      · extract_lets s₁
        split
        · exact (withDelta _).trans (finalizeDelta cfg s₁ r.rel fin)
        · exact withDelta _

theorem beginFileRangePlan (cfg : Config) (s : State P H) (openOk : Bool) (fin : TempFinalizeResult) :
    Settles s (s.beginFileRangePlan cfg openOk fin) := by
  unfold State.beginFileRangePlan
  split
  · exact .refl s
  · rename_i rel rest _
    extract_lets src s₁
    have h₁ : Settles s s₁ := of_eq rfl rfl rfl
    split
    · exact h₁
    · split
      · exact h₁
      · split
        · exact of_eq rfl rfl rfl
        · extract_lets plan s₂
          have h₂ : Settles s s₂ := of_eq rfl rfl rfl
          split
          · exact h₂.trans (finalizeFileRange s₂ rel fin)
          · exact h₂

/-! ### Frames -/

theorem fileBatchOpen (s : State P H) (k : Key) (records : List (BatchFileRecord P)) :
    Settles s (s.fileBatchOpen k records) := by
  unfold State.fileBatchOpen
  split
  · exact (updateStream s k _).trans (applyOuts _ _)
  · exact unknownStream s _ _

theorem fileBatchChunk (s : State P H) (k : Key) (payload : List UInt8) : Settles s (s.fileBatchChunk k payload) := by
  unfold State.fileBatchChunk
  split
  · split
    · exact (updateStream s k _).trans (applyOuts _ _)
    · exact of_eq rfl rfl rfl
  · exact unknownStream s _ _

theorem fileBatchEnd (s : State P H) (k : Key) : Settles s (s.fileBatchEnd k) := by
  unfold State.fileBatchEnd
  split
  · rename_i hk
    exact (closeStream hk).trans (applyOuts _ _)
  · exact unknownStream s _ _

theorem fileEnd (s : State P H) (k : Key) (ok : Bool) : Settles s (s.fileEnd k ok) := by
  unfold State.fileEnd
  split
  · rename_i hk
    split <;> exact (closeStream hk).trans (of_eq rfl rfl rfl)
  · exact unknownStream s _ _

theorem blockSigResponse (s : State P H) (conn : ℕ) (rel : P) : Settles s (s.blockSigResponse conn rel) := by
  unfold State.blockSigResponse
  extract_lets d
  split
  · exact of_eq rfl rfl rfl
  · split <;> exact of_eq rfl rfl rfl

theorem deltaRangeEnd (cfg : Config) (s : State P H) (k : Key) (fin : TempFinalizeResult) :
    Settles s (s.deltaRangeEnd cfg k fin) := by
  unfold State.deltaRangeEnd
  split
  · rename_i r hk
    extract_lets s₁
    have h₁ : Settles s s₁ := closeStream hk
    split
    · exact h₁
    · extract_lets s₂
      have h₂ : Settles s s₂ := h₁.trans (of_eq rfl rfl rfl)
      split
      · exact h₂.trans (finalizeDelta cfg s₂ r.rel fin)
      · exact h₂
  · exact unknownStream s _ _

theorem deltaErrorFor (s : State P H) (tagged : Bool) (rel : P) : Settles s (s.deltaErrorFor tagged rel) := by
  unfold State.deltaErrorFor
  extract_lets st wasManaged releases src d
  split <;> exact of_eq rfl rfl rfl

theorem deltaError (s : State P H) (k : Key) (rel : P) : Settles s (s.deltaError k rel) := by
  unfold State.deltaError
  split
  · rename_i r hr
    unfold deltaTag at hr
    split at hr
    · rename_i hk
      exact (closeStream hk).trans (deltaErrorFor _ _ _)
    · cases hr
  · have h₁ (jobs : List (ℕ × P)) : Settles s { s with delta := { s.delta with sigJobs := jobs } } := of_eq rfl rfl rfl
    exact (h₁ _).trans (deltaErrorFor _ _ _)

theorem fileRangeEnd (s : State P H) (k : Key) (fin : TempFinalizeResult) : Settles s (s.fileRangeEnd k fin) := by
  unfold State.fileRangeEnd
  split
  · rename_i r hk
    extract_lets s₁
    have h₁ : Settles s s₁ := closeStream hk
    split
    · exact h₁
    · extract_lets s₂
      have h₂ : Settles s s₂ := h₁.trans (of_eq rfl rfl rfl)
      split
      · exact h₂.trans (finalizeFileRange s₂ r.rel fin)
      · exact h₂
  · exact unknownStream s _ _

theorem fileRangeError (s : State P H) (k : Key) (rel : P) : Settles s (s.fileRangeError k rel) := by
  have hfor (s : State P H) (rel : P) : Settles s (s.fileRangeErrorFor rel) := by
    unfold fileRangeErrorFor
    split <;> exact of_eq rfl rfl rfl
  unfold State.fileRangeError
  split
  · rename_i hk
    exact (closeStream hk).trans (hfor _ _)
  · exact hfor s rel

/-- The `FileError` of a stream that is open, of a dead lane, or of a lane without slots. -/
theorem fileError {s : State P H} {k : Key} (h : KnownError s (.fileError k)) : Settles s (s.fileError k) := by
  unfold State.fileError
  split
  · rename_i hk
    exact (closeStream hk).trans (applyOuts _ _)
  · rename_i hk
    exact (closeStream hk).trans (of_eq rfl rfl rfl)
  · rename_i hbatch hdownload
    refine ⟨fun i hi => ?_, fun _ => id, id⟩
    show _ ∧ (_ → (s.pool.releaseSlot k.1).inFlight i = _)
    replace hi : (s.pool.releaseSlot k.1).healthy i = true := hi
    rw [Pool.healthy_releaseSlot] at hi
    refine ⟨hi, fun heq => ?_⟩
    rw [Pool.inFlight_releaseSlot]
    by_cases hki : k.1 = i
    · -- then the lane has no slot to lose
      have hzero : s.pool.inFlight i = 0 := by
        by_contra hne
        have hknown := h (hki ▸ hi) (hki ▸ Nat.pos_of_ne_zero hne)
        cases hfind : s.streams.find k with
        | none => rw [hfind] at hknown; cases hknown
        | some st =>
          rw [hfind] at hknown
          cases st with
          | download rel => exact hdownload _ hfind
          | batch requested b => exact hbatch _ _ hfind
          | deltaRange => cases hknown
          | fileRange => cases hknown
      rw [hzero, Nat.zero_sub]
      exact hzero.symm.trans heq
    · rw [if_neg hki]
      exact heq

/-! ### Failover -/

/-- Draining a stream of a lane that is down. -/
theorem drainStream {s : State P H} {k : Key} (hk : s.pool.healthy k.1 = false) : Settles s (s.drainStream k) := by
  obtain ⟨hp, ht⟩ := s.drainStream_frame k
  refine ⟨fun i hi => ?_, fun j hj => ?_, fun hpos => ?_⟩
  · rw [hp] at hi
    have hne : k.1 ≠ i := by
      rintro rfl
      rw [hk] at hi
      cases hi
    rw [hp, ht, Streams.onLane_close_ne _ hne]
    exact ⟨hi, id⟩
  · rw [ht]
    exact Streams.find_close_none k hj
  · unfold State.drainStream
    split
    · exact hpos
    · exact hpos
    · exact (applyOuts _ _).limit hpos
    · exact hpos
    · exact hpos

theorem drainStreams {lane : ℕ} (keys : List Key) (hkeys : ∀ k ∈ keys, k.1 = lane) {s : State P H}
    (hlane : s.pool.healthy lane = false) :
    Settles s (keys.foldl State.drainStream s) ∧ (keys.foldl State.drainStream s).pool = s.pool := by
  induction keys generalizing s with
  | nil => exact ⟨.refl s, rfl⟩
  | cons k keys ih =>
    have hp := (s.drainStream_frame k).1
    obtain ⟨h, hpool⟩ := ih (fun j hj => hkeys j (List.mem_cons_of_mem _ hj)) (s := s.drainStream k)
      (by rw [hp]; exact hlane)
    exact ⟨(drainStream (by rw [hkeys k List.mem_cons_self]; exact hlane)).trans h, hpool.trans hp⟩

/-- What is changed of a lane that is down. -/
theorem of_deadLane {lane : ℕ} (hlane : s.pool.healthy lane = false) (g : Lane → Lane)
    (hg : ∀ l, (g l).healthy = l.healthy) : Settles s { s with pool := s.pool.modify lane g } := by
  refine ⟨fun i hi => ?_, fun _ => id, id⟩
  replace hi : Pool.healthy (s.pool.modify lane g) i = true := hi
  rw [healthy_modify s.pool lane i g hg] at hi
  have hne : lane ≠ i := by
    rintro rfl
    rw [hlane] at hi
    cases hi
  dsimp only
  rw [Pool.inFlight_modify, if_neg hne]
  exact ⟨hi, id⟩

theorem drainLane (order : List Key) (s : State P H) (lane : ℕ) : Settles s (s.drainLane order lane) := by
  unfold State.drainLane
  split
  · rename_i hdead
    extract_lets s₁
    have hlane : s.pool.healthy lane = false := by
      unfold Pool.healthy
      cases hl : s.pool[lane]? with
      | none => rfl
      | some l =>
        rw [hl, Option.any_some, Bool.and_eq_true, Bool.not_eq_true'] at hdead
        exact hdead.1
    have hkeys : ∀ k ∈ s.laneKeys order lane, k.1 = lane := by
      intro k hk
      obtain ⟨kind, -, hk⟩ := List.mem_flatMap.1 hk
      have hlane := (List.mem_filter.1 hk).2
      rw [Bool.and_eq_true] at hlane
      exact beq_iff_eq.1 hlane.1
    obtain ⟨h₁, hp⟩ := drainStreams _ hkeys hlane
    exact h₁.trans (of_deadLane (by rw [hp]; exact hlane) _ fun _ => rfl)
  · exact .refl s

theorem lanesDown (s : State P H) (lanes : List ℕ) : Settles s (s.lanesDown lanes) := by
  unfold State.lanesDown
  refine ⟨fun i hi => ?_, fun _ => id, id⟩
  dsimp only at hi ⊢
  rw [Pool.healthy_markConnsDown, Bool.and_eq_true] at hi
  rw [Pool.inFlight_markConnsDown]
  exact ⟨hi.1, id⟩

theorem requeueSignature (s : State P H) (rel : P) : Settles s (s.requeueSignature rel) := by
  unfold State.requeueSignature
  split
  · exact .refl s
  · split <;> exact of_eq rfl rfl rfl

theorem failoverScan (s : State P H) (order : List Key) (sigOrder : List P) (lost lost' : List ℕ) :
    Settles s (s.failoverScan order sigOrder lost lost') := by
  unfold State.failoverScan
  extract_lets newlyDown s₁ s₂ s₃ s₄
  have h₁ : Settles s s₁ := foldl (drainLane order) _ s
  have h₂ : Settles s₁ s₂ := lanesDown s₁ lost
  have h₃ : Settles s₂ s₃ := by
    show Settles s₂ (if _ then _ else _)
    split
    · exact foldl requeueSignature sigOrder s₂
    · exact .refl s₂
  have h₄ : Settles s₃ s₄ := lanesDown s₃ lost'
  have h := ((h₁.trans h₂).trans h₃).trans h₄
  split
  · exact h.trans (of_eq rfl rfl rfl)
  · exact h

end Settles

/-! ### Dispatch -/

/-- A step with which accounts stay right, and that opens streams only where they are admitted. -/
structure SlotStep (cfg : Config) (s s' : State P H) : Prop where
  slots : ∀ i, s'.pool.healthy i = true → s.pool.healthy i = true ∧
    (s.pool.inFlight i = s.streams.onLane i → s'.pool.inFlight i = s'.streams.onLane i)
  admitted : Admitted cfg s s'
  limit : 0 < s.activeStreamLimit → 0 < s'.activeStreamLimit

theorem SlotStep.of_settles {cfg : Config} {s s' : State P H} (h : Settles s s') : SlotStep cfg s s' where
  slots := h.slots
  admitted := fun k st hk hnone => by rw [h.closed k hnone] at hk; cases hk
  limit := h.limit

theorem lane_of_canPick {p : Pool} {laneCap lane : ℕ} {forcePrimary : Bool}
    (h : p.canPick laneCap forcePrimary lane = true) : p.healthy lane = true ∧ p.inFlight lane < laneCap := by
  unfold Pool.canPick at h
  split at h
  · rename_i hprimary
    rw [Bool.and_eq_true] at h hprimary
    rw [beq_iff_eq.1 h.1]
    exact ⟨hprimary.2, of_decide_eq_true h.2⟩
  · rw [Bool.and_eq_true] at h
    exact ⟨h.1, of_decide_eq_true h.2⟩

theorem admits_of_canPick {cfg : Config} {s : State P H} {lane : ℕ} (st : Stream P) {forcePrimary : Bool}
    (h : s.pool.canPick (s.laneCap cfg (!st.isFileRange)) forcePrimary lane = true) : Admits cfg s lane st := by
  obtain ⟨hhealthy, hlt⟩ := lane_of_canPick h
  refine ⟨hhealthy, lt_of_lt_of_eq hlt ?_⟩
  unfold laneCap reservedSlots
  cases st.isFileRange with
  | true => rfl
  | false => cases s.blockModeActive cfg <;> rfl

/-- A stream is opened; if the request cannot be sent its lane is down at once. -/
theorem SlotStep.of_open {cfg : Config} {s s' : State P H} {lane : ℕ} {st : Stream P} (hadmits : Admits cfg s lane st)
    (ht : s'.streams = s.streams.openNext lane st)
    (hp : s'.pool = s.pool.acquireSlot lane ∨ s'.pool = s.pool.markConnDown lane)
    (hl : s'.activeStreamLimit = s.activeStreamLimit) : SlotStep cfg s s' := by
  refine ⟨fun i hi => ?_, fun k st' hk hnone => ?_, fun hpos => hl ▸ hpos⟩
  · rw [ht, Streams.onLane_openNext]
    rcases hp with hp | hp
    · rw [hp, Pool.healthy_acquireSlot] at hi
      rw [hp, Pool.inFlight_acquireSlot hadmits.1]
      exact ⟨hi, fun heq => by rw [heq]⟩
    · rw [hp, Pool.healthy_markConnDown, Bool.and_eq_true] at hi
      have hne : i ≠ lane := of_decide_eq_true hi.2
      rw [hp, Pool.inFlight_markConnDown, if_neg (Ne.symm hne)]
      exact ⟨hi.1, id⟩
  · rw [ht] at hk
    by_cases hkey : k = s.streams.nextKey lane
    · subst hkey
      rw [Streams.find_openNext] at hk
      cases hk
      exact hadmits
    · rw [Streams.find_openNext_ne hkey, hnone] at hk
      cases hk

theorem slotStep_startBatch (cfg : Config) (s : State P H) (q : Transfers.Queue) (lane : ℕ) (sendOk : Bool) :
    SlotStep cfg s (s.startBatch cfg q lane sendOk) := by
  unfold startBatch
  split
  · rename_i hpick
    extract_lets n batchPaths s₁
    split
    · exact .of_settles (.of_eq rfl rfl rfl)
    · split
      · exact .of_open (admits_of_canPick (.batch batchPaths {}) hpick) rfl (.inl rfl) rfl
      · have h₁ : Settles s
            { s₁ with
              streams := s₁.streams.skipId lane
              pool := s₁.pool.markConnDown lane } := .of_down lane rfl rfl rfl
        exact .of_settles (h₁.trans (.foldl .retryOrFail batchPaths _))
  · exact .of_settles (.refl s)

theorem slotStep_startDownload (cfg : Config) (s : State P H) (q : Transfers.Queue) (globalSlotCap lane : ℕ)
    (openOk sendOk : Bool) : SlotStep cfg s (s.startDownload cfg q globalSlotCap lane openOk sendOk) := by
  unfold startDownload
  extract_lets reservedBatchSlots
  split
  · exact .of_settles (.refl s)
  · split
    · exact .of_settles (.refl s)
    · rename_i rel rest _
      extract_lets isLarge
      split
      · rename_i hpick
        split
        · exact .of_settles (.of_eq rfl rfl rfl)
        · refine .of_open (admits_of_canPick (.download rel) hpick) rfl ?_ rfl
          cases sendOk with
          | true => exact .inl rfl
          | false => exact .inr rfl
      · exact .of_settles (.refl s)

theorem slotStep_tryStartTransfer (cfg : Config) (s : State P H) (lane healthyAtStart : ℕ) (openOk sendOk : Bool) :
    SlotStep cfg s (s.tryStartTransfer cfg lane healthyAtStart openOk sendOk) := by
  unfold tryStartTransfer
  extract_lets globalSlotCap
  split
  · exact .of_settles (.refl s)
  · split
    · exact .of_settles (.refl s)
    · split
      · exact .of_settles (.refl s)
      · exact slotStep_startBatch cfg s _ lane sendOk
      · exact slotStep_startBatch cfg s _ lane sendOk
      · exact slotStep_startDownload cfg s _ _ lane openOk sendOk
      · exact slotStep_startDownload cfg s _ _ lane openOk sendOk

theorem slotStep_tryStartDeltaRange (cfg : Config) (s : State P H) (lane : ℕ) (sendOk : Bool) :
    SlotStep cfg s (s.tryStartDeltaRange cfg lane sendOk) := by
  unfold tryStartDeltaRange
  split
  · exact .of_settles (.refl s)
  · rename_i t rest _
    extract_lets popped
    split
    · exact .of_settles (.of_eq rfl rfl rfl)
    · split
      · rename_i hpick
        split
        · exact .of_open (admits_of_canPick (.deltaRange ⟨t.rel, t.offset, t.length, 0⟩) hpick) rfl (.inl rfl) rfl
        · exact .of_settles (.of_down lane rfl rfl rfl)
      · exact .of_settles (.refl s)

theorem slotStep_tryStartFileRange (cfg : Config) (s : State P H) (lane : ℕ) (sendOk : Bool) :
    SlotStep cfg s (s.tryStartFileRange cfg lane sendOk) := by
  unfold tryStartFileRange
  split
  · exact .of_settles (.refl s)
  · rename_i t rest _
    extract_lets popped
    split
    · exact .of_settles (.of_eq rfl rfl rfl)
    · split
      · rename_i hpick
        split
        · exact .of_open (admits_of_canPick (.fileRange ⟨t.rel, t.offset, t.length, 0⟩) hpick) rfl (.inl rfl) rfl
        · exact .of_settles (.of_down lane rfl rfl rfl)
      · exact .of_settles (.refl s)

/-! ### Every event -/

/-- What an event does to the slots, if it is no `FileError` of a stream that is not there. -/
theorem slotStep_exec (cfg : Config) {s : State P H} {e : Event P H} (h : KnownError s e) :
    SlotStep cfg s (exec cfg s e) := by
  cases e with
  | startTransfer lane healthyAtStart openOk sendOk => exact slotStep_tryStartTransfer cfg s lane _ openOk sendOk
  | startDeltaRange lane sendOk => exact slotStep_tryStartDeltaRange cfg s lane sendOk
  | startFileRange lane sendOk => exact slotStep_tryStartFileRange cfg s lane sendOk
  | drainCompare old => exact .of_settles (.drainCompare cfg s old)
  | dispatchHashRequests lane sendOk reached => exact .of_settles (.dispatchHashRequests cfg s lane sendOk reached)
  | resolveFallback old => exact .of_settles (.resolveFallback cfg s old)
  | sweep unresolved old => exact .of_settles (.sweep cfg s unresolved old)
  | backoff =>
    refine .of_settles ?_
    simp only [exec]
    split
    · exact ⟨fun i hi => ⟨hi, id⟩, fun _ => id, fun _ => lt_of_lt_of_le (by decide) (le_max_left 4 _)⟩
    · exact .refl s
  | drainIo =>
    refine .of_settles ?_
    simp only [exec, State.drainIo]
    split
    · exact .refl s
    · split <;> exact .of_eq rfl rfl rfl
  | pumpSignatures lane sendOk reached => exact .of_settles (.pumpDeltaSignatures cfg s lane sendOk reached)
  | applyPlan fin => exact .of_settles (.applyDeltaPlanResult cfg s fin)
  | beginFileRangePlan openOk fin => exact .of_settles (.beginFileRangePlan cfg s openOk fin)
  | fileBatchOpen k records => exact .of_settles (.fileBatchOpen s k records)
  | fileBatchChunk k payload => exact .of_settles (.fileBatchChunk s k payload)
  | fileBatchEnd k => exact .of_settles (.fileBatchEnd s k)
  | fileChunk k =>
    refine .of_settles ?_
    simp only [exec, State.fileChunk]
    split
    · exact .refl s
    · exact .unknownStream s _ _
  | fileEnd k ok => exact .of_settles (.fileEnd s k ok)
  | fileError k => exact .of_settles (.fileError h)
  | blockSigResponse conn rel => exact .of_settles (.blockSigResponse s conn rel)
  | deltaRangeChunk k len =>
    refine .of_settles ?_
    simp only [exec, State.deltaRangeChunk]
    split
    · exact .updateStream s k _
    · exact .unknownStream s _ _
  | deltaRangeEnd k fin => exact .of_settles (.deltaRangeEnd cfg s k fin)
  | deltaError k rel => exact .of_settles (.deltaError s k rel)
  | fileRangeData k len =>
    refine .of_settles ?_
    simp only [exec, State.fileRangeData]
    split
    · exact .updateStream s k _
    · exact .unknownStream s _ _
  | fileRangeEnd k fin => exact .of_settles (.fileRangeEnd s k fin)
  | fileRangeError k rel => exact .of_settles (.fileRangeError s k rel)
  | laneDown lane => exact .of_settles (.lanesDown s [lane])
  | failoverScan order sigOrder lost lost' => exact .of_settles (.failoverScan s order sigOrder lost lost')
  | loopTest =>
    refine .of_settles ?_
    simp only [exec, State.loopTest]
    split <;> exact .of_eq rfl rfl rfl
  | recvDrainedAndClosed =>
    refine .of_settles ?_
    simp only [exec]
    split <;> exact .of_eq rfl rfl rfl
  | manifestEntry | manifestDir | manifestEnd | compareFlush | compareTake | comparePublish | hashPop | hashCount
  | hashRecord | hashLeave | hashReady | hashResponse | refreshTuning | rebalance | ioTake | ioWrite | ioPublish
  | planTake | planPublish => exact .of_settles (.of_eq rfl rfl rfl)

/-! ### The choice of a lane -/

section Select

variable {W : Type} (less : LaneLoad W → LaneLoad W → Bool) {streamLimit : ℕ}

/-- The lane is a candidate. -/
def LaneLoad.Eligible (streamLimit : ℕ) (c : LaneLoad W) : Prop := c.healthy = true ∧ c.inFlight < streamLimit

theorem considerLane_skip {c : LaneLoad W × ℕ} (h : ¬ c.1.Eligible streamLimit) (best : Option (LaneLoad W × ℕ)) :
    considerLane less streamLimit best c = best := by
  unfold considerLane
  refine if_pos ?_
  rw [Bool.or_eq_true, Bool.not_eq_true', decide_eq_true_iff]
  by_contra hno
  push Not at hno
  exact h ⟨by simpa using hno.1, hno.2⟩

theorem considerLane_take {c : LaneLoad W × ℕ} (h : c.1.Eligible streamLimit) (best : Option (LaneLoad W × ℕ)) :
    considerLane less streamLimit best c = some c ∨ best ≠ none ∧ considerLane less streamLimit best c = best := by
  unfold considerLane
  rw [if_neg (by simp [h.1, h.2])]
  cases best with
  | none => exact .inl rfl
  | some b =>
    dsimp only
    split
    · exact .inl rfl
    · exact .inr ⟨nofun, rfl⟩

/-- The best of the lanes seen is a candidate among them. -/
theorem considerLanes_spec (streamLimit : ℕ) (l : List (LaneLoad W × ℕ)) (best : Option (LaneLoad W × ℕ)) :
    (∀ c, l.foldl (considerLane less streamLimit) best = some c → best = some c ∨ c ∈ l ∧ c.1.Eligible streamLimit) ∧
      ((best ≠ none ∨ ∃ c ∈ l, c.1.Eligible streamLimit) → l.foldl (considerLane less streamLimit) best ≠ none) := by
  induction l generalizing best with
  | nil => exact ⟨fun c hc => .inl hc, fun h => h.elim id fun ⟨c, hc, _⟩ => by cases hc⟩
  | cons x l ih =>
    rw [List.foldl_cons]
    obtain ⟨hmem, hsome⟩ := ih (considerLane less streamLimit best x)
    by_cases hx : x.1.Eligible streamLimit
    · have htake := considerLane_take less hx best
      refine ⟨fun c hc => ?_, fun _ => hsome (.inl ?_)⟩
      · rcases hmem c hc with hc | ⟨hc, hok⟩
        · rcases htake with heq | ⟨-, heq⟩
          · rw [heq] at hc
            cases hc
            exact .inr ⟨List.mem_cons_self, hx⟩
          · exact .inl (heq ▸ hc)
        · exact .inr ⟨List.mem_cons_of_mem _ hc, hok⟩
      · rcases htake with heq | ⟨hne, heq⟩
        · rw [heq]
          nofun
        · rwa [heq]
    · rw [considerLane_skip less hx] at hmem hsome ⊢
      refine ⟨fun c hc => ?_, fun h => hsome (h.imp_right ?_)⟩
      · exact (hmem c hc).imp_right fun h => ⟨List.mem_cons_of_mem _ h.1, h.2⟩
      · rintro ⟨c, hc, hok⟩
        rcases List.mem_cons.1 hc with rfl | hc
        · exact absurd hok hx
        · exact ⟨c, hc, hok⟩

end Select

section Pick

variable {W : Type} {less : LaneLoad W → LaneLoad W → Bool} {one auxWeight : W} {wanControlReserve : Bool}

theorem laneLoads_getElem? (s : State P H) (i : ℕ) : (s.laneLoads one auxWeight wanControlReserve)[i]? =
    s.pool[i]?.map fun l =>
      { healthy := l.healthy
        inFlight := l.inFlight
        weight := if i = 0 then one else auxWeight
        bias := s.laneBias wanControlReserve (i == 0) } := List.getElem?_mapIdx

/-- The load of a lane says what the lane says. -/
theorem load_of_getElem? {s : State P H} {i : ℕ} {c : LaneLoad W}
    (h : (s.laneLoads one auxWeight wanControlReserve)[i]? = some c) :
    c.healthy = s.pool.healthy i ∧ c.inFlight = s.pool.inFlight i := by
  rw [laneLoads_getElem?] at h
  obtain ⟨l, hl, rfl⟩ := Option.map_eq_some_iff.1 h
  unfold Pool.healthy Pool.inFlight
  rw [hl]
  exact ⟨rfl, rfl⟩

theorem load_of_healthy {s : State P H} {i : ℕ} (h : s.pool.healthy i = true) :
    ∃ c, (s.laneLoads one auxWeight wanControlReserve)[i]? = some c := by
  rw [laneLoads_getElem?]
  unfold Pool.healthy at h
  cases hl : s.pool[i]? with
  | none => rw [hl] at h; cases h
  | some l => exact ⟨_, rfl⟩

/-- `pickConnection` answers a lane that `canPick` allows. -/
theorem pickConnection_canPick {cfg : Config} {s : State P H} {forcePrimary reserve : Bool} {i : ℕ}
    (h : s.pickConnection less one auxWeight wanControlReserve cfg forcePrimary reserve = some i) :
    s.pool.canPick (s.laneCap cfg reserve) forcePrimary i = true := by
  unfold pickConnection selectLeastLoadedLane at h
  split at h
  · cases h
  · rename_i primary rest hlanes
    obtain ⟨hhealthy, hload⟩ := load_of_getElem? (i := 0) (by rw [hlanes]; rfl : _ = some primary)
    unfold Pool.canPick
    rw [← hhealthy, ← hload]
    split at h
    · rename_i hprimary
      split at h
      · rename_i hlt
        cases h
        rw [if_pos hprimary, decide_eq_true hlt]
        rfl
      · cases h
    · rename_i hprimary
      rw [if_neg hprimary]
      obtain ⟨c, hc, rfl⟩ := Option.map_eq_some_iff.1 h
      rcases (considerLanes_spec less _ _ none).1 c hc with hnone | ⟨hmem, hok⟩
      · cases hnone
      · obtain ⟨hi, hf⟩ := load_of_getElem? (List.mem_zipIdx_iff_getElem?.1 hmem)
        rw [← hi, ← hf, hok.1, decide_eq_true hok.2]
        rfl

/-- Below the cap of a lane that may be picked some lane is picked. -/
theorem exists_pickConnection {cfg : Config} {s : State P H} {forcePrimary reserve : Bool} {i : ℕ}
    (h : s.pool.canPick (s.laneCap cfg reserve) forcePrimary i = true) :
    ∃ picked, s.pickConnection less one auxWeight wanControlReserve cfg forcePrimary reserve = some picked := by
  obtain ⟨hhealthy, hlt⟩ := lane_of_canPick h
  obtain ⟨c, hc⟩ : ∃ c, (s.laneLoads one auxWeight wanControlReserve)[i]? = some c := load_of_healthy hhealthy
  obtain ⟨hch, hcf⟩ := load_of_getElem? hc
  unfold pickConnection selectLeastLoadedLane
  split
  · rename_i hlanes
    rw [hlanes] at hc
    cases hc
  · rename_i primary rest hlanes
    obtain ⟨hprimary, hload⟩ := load_of_getElem? (i := 0) (by rw [hlanes]; rfl : _ = some primary)
    split
    · -- the primary is the lane that may be picked
      rename_i hforced
      unfold Pool.canPick at h
      rw [← hprimary, if_pos hforced, Bool.and_eq_true, ← hload] at h
      exact ⟨0, if_pos (of_decide_eq_true h.2)⟩
    · have hsome := (considerLanes_spec less (s.laneCap cfg reserve) _ none).2
        (.inr ⟨(c, i), List.mem_zipIdx_iff_getElem?.2 hc, hch.trans hhealthy, hcf ▸ hlt⟩)
      obtain ⟨best, hbest⟩ := Option.ne_none_iff_exists'.1 hsome
      exact ⟨best.2, by rw [hbest]; rfl⟩

end Pick

/-! ### Limits -/

theorem reserved_lt {streamLimit : ℕ} (h : 0 < streamLimit) : computeFileRangeReservedSlots streamLimit < streamLimit := by
  unfold computeFileRangeReservedSlots
  split
  · omega
  · extract_lets r r'
    split <;> omega

theorem reservedSlots_lt {s : State P H} (cfg : Config) (h : 0 < s.activeStreamLimit) :
    s.reservedSlots cfg < s.activeStreamLimit := by
  unfold reservedSlots
  split
  · exact reserved_lt h
  · exact h

theorem laneCap_reserve (cfg : Config) (s : State P H) :
    s.laneCap cfg true = s.activeStreamLimit - s.reservedSlots cfg := by
  unfold laneCap reservedSlots
  cases s.blockModeActive cfg <;> rfl

theorem notStarved (cfg : Config) {s : State P H} (h : 0 < s.activeStreamLimit) : NotStarved cfg s := by
  intro W less one auxWeight wanControlReserve forcePrimary lane hhealthy hidle hforced
  have hroom : s.pool.inFlight lane < s.laneCap cfg true := by
    have hlt := reservedSlots_lt cfg h
    rw [hidle, laneCap_reserve]
    omega
  refine exists_pickConnection (i := lane) ?_
  unfold Pool.canPick
  split
  · rename_i hprimary
    rw [Bool.and_eq_true] at hprimary
    rw [hforced hprimary.1] at hroom ⊢
    rw [decide_eq_true hroom]
    rfl
  · rw [hhealthy, decide_eq_true hroom]
    rfl

/-! ### Runs -/

/-- A `FileError` of a stream that is not there takes a slot from its lane, and nothing else. -/
theorem of_unknownError {s : State P H} {e : Event P H} (h : ¬ KnownError s e) :
    ∃ k, e = .fileError k ∧ s.pool.healthy k.1 = true ∧ 0 < s.pool.inFlight k.1 ∧
      s.fileError k = { s with pool := s.pool.releaseSlot k.1 }.count none .failed := by
  cases e with
  | fileError k =>
    unfold KnownError at h
    push Not at h
    obtain ⟨hhealthy, hpos, hfind⟩ := h
    refine ⟨k, rfl, hhealthy, hpos, ?_⟩
    unfold State.fileError
    split
    · rename_i hk
      rw [hk] at hfind
      exact absurd rfl hfind
    · rename_i hk
      rw [hk] at hfind
      exact absurd rfl hfind
    · rfl
  | _ => exact absurd trivial h

theorem step_admitted (cfg : Config) (s : State P H) (e : Event P H) :
    Admitted cfg s (exec cfg s e) ∧ (0 < s.activeStreamLimit → 0 < (exec cfg s e).activeStreamLimit) := by
  by_cases h : KnownError s e
  · exact ⟨(slotStep_exec cfg h).admitted, (slotStep_exec cfg h).limit⟩
  · obtain ⟨k, rfl, -, -, heq⟩ := of_unknownError h
    show Admitted cfg s (s.fileError k) ∧ (_ → 0 < (s.fileError k).activeStreamLimit)
    rw [heq]
    refine ⟨fun j st hj hnone => ?_, id⟩
    replace hj : s.streams.find j = some st := hj
    rw [hnone] at hj
    cases hj

/-- The accounts stay right exactly through the steps that are no such `FileError`. -/
theorem accounted_iff (cfg : Config) {s : State P H} (hs : Accounted s) (e : Event P H) :
    KnownError s e ↔ Accounted (exec cfg s e) := by
  constructor
  · intro h lane hlane
    obtain ⟨hhealthy, hkept⟩ := (slotStep_exec cfg h).slots lane hlane
    exact hkept (hs lane hhealthy)
  · intro hnext
    by_contra h
    obtain ⟨k, rfl, hhealthy, hpos, heq⟩ := of_unknownError h
    have hlane := hnext k.1
    replace hlane : (s.fileError k).pool.healthy k.1 = true →
      (s.fileError k).pool.inFlight k.1 = (s.fileError k).streams.onLane k.1 := hlane
    rw [heq] at hlane
    replace hlane : (s.pool.releaseSlot k.1).healthy k.1 = true →
      (s.pool.releaseSlot k.1).inFlight k.1 = s.streams.onLane k.1 := hlane
    rw [Pool.healthy_releaseSlot, Pool.inFlight_releaseSlot, if_pos rfl] at hlane
    have hbefore := hs k.1 hhealthy
    have hafter := hlane hhealthy
    omega

theorem accounted_start (cfg : Config) : Accounted (State.start P H cfg) := by
  intro lane _
  unfold Pool.inFlight State.start Streams.onLane Streams.none
  dsimp only
  rw [List.getElem?_replicate]
  split <;> rfl

/-- **The slots of the lanes.** In every run the reserved slots are fewer than the limit, streams are opened only where they
are admitted and idle lanes can be picked; in the runs without a `FileError` of a stream that is not there, and only in
these, every healthy lane counts its streams. -/
theorem lane_slots (cfg : Config) :
    (∀ s, (machine P H cfg).Reach (fun _ _ => True) s →
      s.reservedSlots cfg < s.activeStreamLimit ∧ NotStarved cfg s ∧
        ∀ e, (machine P H cfg).can s e → Admitted cfg s (exec cfg s e)) ∧
    ∀ s, (machine P H cfg).Reach KnownError s →
      Accounted s ∧ ∀ e, (machine P H cfg).can s e → (KnownError s e ↔ Accounted (exec cfg s e)) := by
  constructor
  · intro s h
    have hlimit : 0 < s.activeStreamLimit := by
      refine h.invariant (I := fun s => 0 < s.activeStreamLimit) (cfg.streamLimit_pos.trans_le cfg.streamLimit_le) ?_
      intro s e hs _ _
      exact (step_admitted cfg s e).2 hs
    exact ⟨reservedSlots_lt cfg hlimit, notStarved cfg hlimit, fun e _ => (step_admitted cfg s e).1⟩
  · intro s h
    have haccounted : Accounted s := by
      refine h.invariant (accounted_start cfg) ?_
      intro s e hs _ hok
      exact (accounted_iff cfg hs e).1 hok
    exact ⟨haccounted, fun e _ => accounted_iff cfg haccounted e⟩

/-- The small file of the manifest goes out in a batch on lane 1. -/
def batchOnLane : List (Event ℕ ℕ) := listAndSchedule 2 ++ [.startTransfer 1 2 true true]

/-- Lane 1 counts the batch. -/
theorem lane_slots_batchOnLane :
    ((machine ℕ ℕ twoLanes).run (State.start ℕ ℕ twoLanes) batchOnLane).pool.inFlight 1 =
      ((machine ℕ ℕ twoLanes).run (State.start ℕ ℕ twoLanes) batchOnLane).streams.onLane 1 :=
  ((lane_slots twoLanes).2 _ (Machine.reach_run (by decide))).1 1 (by decide)

/-- **A slot is lost.** A `FileError` names a stream that lane 1 never had: the batch is still open on the lane, and the
lane counts no stream. -/
theorem slot_lost : ∃ s, (machine ℕ ℕ twoLanes).Reach (fun _ _ => True) s ∧ s.mode = .running ∧
    s.pool.healthy 1 = true ∧ s.streams.onLane 1 = 1 ∧ s.pool.inFlight 1 = 0 ∧ ¬ Accounted s := by
  refine ⟨(machine ℕ ℕ twoLanes).run (State.start ℕ ℕ twoLanes) (batchOnLane ++ [.fileError (1, 9)]),
    Machine.reach_run (by decide), by decide, by decide, by decide, by decide, fun h => ?_⟩
  exact absurd (h 1 (by decide)) (by decide)

end FastClone.Client
