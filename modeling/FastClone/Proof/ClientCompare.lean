import FastClone.Proof.ClientApart

/-!
# The compare stage at the end of the loop

An entry of the manifest passes through the delay list, the producer's buffer, the task
queue, a worker and the result list. The completion test reads `issued - drained` and nothing
of these five; `CompareStage.issued_eq` ties the two counters to four of them, and the refill
that runs before the test takes care of the delay list.
-/

set_option linter.unusedSectionVars false

namespace FastClone.Client

open State Runs

variable {P H : Type} [DecidableEq P] [DecidableEq H]

namespace CompareStage

/-- No entry is in the delay list, the buffer, the queue, with a worker or in the results. -/
structure Drained (c : CompareStage P) : Prop where
  delayed : c.delayedCompareEntries = []
  buffer : c.dispatchBuffer = []
  tasks : c.tasks = []
  workers : c.working.flatten = []
  results : c.results = []

/-- The entries that the stage was given so far. -/
def received (c : CompareStage P) : ℕ := c.delayedCompareEntries.length + c.issued

theorem drained_of_idle {c : CompareStage P} (h : c.inFlight = 0)
    (hd : c.delayedCompareEntries = []) : c.Drained := by
  have he := c.issued_eq
  unfold inFlight at h
  exact
    { delayed := hd
      buffer := List.eq_nil_of_length_eq_zero (by omega)
      tasks := List.eq_nil_of_length_eq_zero (by omega)
      workers := List.eq_nil_of_length_eq_zero (by omega)
      results := List.eq_nil_of_length_eq_zero (by omega) }

/-- All that a drained stage was given was taken out again. -/
theorem Drained.received_eq {c : CompareStage P} (h : c.Drained) : c.received = c.drained := by
  have he := c.issued_eq
  rw [h.buffer, h.tasks, h.workers, h.results] at he
  unfold received
  rw [h.delayed]
  simpa using he

theorem received_offer (n : ℕ) (c : CompareStage P) (rel : P) :
    (c.offer n rel).received = c.received + 1 := by
  unfold offer received
  split
  · simp only [List.length_append, List.length_singleton]
    omega
  · simp only [enqueue]
    omega

theorem received_refill (n : ℕ) (c : CompareStage P) : (c.refill n).received = c.received := by
  have hgo : ∀ (rest : List P) (c : CompareStage P),
      (refill.go n rest c).received = rest.length + c.issued := by
    intro rest
    induction rest with
    | nil =>
      intro c
      rfl
    | cons rel rest ih =>
      intro c
      unfold refill.go
      split
      · rw [ih]
        simp only [enqueue, List.length_cons]
        omega
      · rfl
  exact hgo c.delayedCompareEntries c

theorem received_workerPublish (c : CompareStage P) (i : ℕ) (act : P → CompareAction) :
    (c.workerPublish i act).received = c.received := by
  unfold workerPublish
  split <;> rfl

theorem received_drainOne {c c' : CompareStage P} {r : P × CompareAction}
    (h : c.drainOne = some (r, c')) : c'.received = c.received := by
  unfold drainOne at h
  split at h
  · cases h
  · cases h
    rfl

end CompareStage

/-! ### The steps of the signature window -/

theorem compare_pumpDeltaSignatures (cfg : Config) (s : State P H) (lane : ℕ) (sendOk : Bool)
    (reached : ℕ) : (s.pumpDeltaSignatures cfg lane sendOk reached).compare = s.compare ∧
      (s.pumpDeltaSignatures cfg lane sendOk reached).mode = s.mode := by
  unfold pumpDeltaSignatures
  extract_lets room r
  split
  · exact ⟨rfl, rfl⟩
  · split <;> exact ⟨rfl, rfl⟩

theorem compare_blockSigResponse (s : State P H) (conn : ℕ) (rel : P) :
    (s.blockSigResponse conn rel).compare = s.compare ∧
      (s.blockSigResponse conn rel).mode = s.mode := by
  unfold blockSigResponse
  extract_lets d
  split
  · exact ⟨rfl, rfl⟩
  · split <;> exact ⟨rfl, rfl⟩

theorem compare_deltaError (s : State P H) (k : Key) (rel : P) :
    (s.deltaError k rel).compare = s.compare ∧ (s.deltaError k rel).mode = s.mode := by
  have hfor (s : State P H) (tagged : Bool) (rel : P) :
      (s.deltaErrorFor tagged rel).compare = s.compare ∧
        (s.deltaErrorFor tagged rel).mode = s.mode := by
    unfold deltaErrorFor
    extract_lets st wasManaged releases src d
    split <;> exact ⟨rfl, rfl⟩
  unfold deltaError
  split
  · exact hfor (s.closeStream k) _ _
  · exact hfor _ _ _

theorem compare_foldl {α : Type} {step : State P H → α → State P H}
    (h : ∀ s a, (step s a).compare = s.compare ∧ (step s a).mode = s.mode) (l : List α)
    (s : State P H) : (l.foldl step s).compare = s.compare ∧ (l.foldl step s).mode = s.mode := by
  induction l generalizing s with
  | nil => exact ⟨rfl, rfl⟩
  | cons a l ih =>
    obtain ⟨h1, h2⟩ := ih (step s a)
    obtain ⟨h3, h4⟩ := h s a
    exact ⟨h1.trans h3, h2.trans h4⟩

theorem compare_failoverScan (s : State P H) (order : List Key) (sigOrder : List P)
    (lost lost' : List ℕ) : (s.failoverScan order sigOrder lost lost').compare = s.compare ∧
      (s.failoverScan order sigOrder lost lost').mode = s.mode := by
  have outs (s : State P H) (l : List (BatchOut P)) :
      (s.applyOuts l).compare = s.compare ∧ (s.applyOuts l).mode = s.mode := by
    refine compare_foldl (fun s o => ?_) l s
    cases o <;> exact ⟨rfl, rfl⟩
  have stream (s : State P H) (k : Key) :
      (s.drainStream k).compare = s.compare ∧ (s.drainStream k).mode = s.mode := by
    unfold drainStream
    split
    · exact ⟨rfl, rfl⟩
    · exact ⟨rfl, rfl⟩
    · exact outs { s with streams := s.streams.close k } _
    · exact ⟨rfl, rfl⟩
    · exact ⟨rfl, rfl⟩
  have lane (s : State P H) (i : ℕ) :
      (s.drainLane order i).compare = s.compare ∧ (s.drainLane order i).mode = s.mode := by
    unfold drainLane
    split
    · exact compare_foldl stream (s.laneKeys order i) s
    · exact ⟨rfl, rfl⟩
  have signature (s : State P H) (rel : P) :
      (s.requeueSignature rel).compare = s.compare ∧ (s.requeueSignature rel).mode = s.mode := by
    unfold requeueSignature
    split
    · exact ⟨rfl, rfl⟩
    · split <;> exact ⟨rfl, rfl⟩
  unfold failoverScan
  extract_lets newlyDown s₁ s₂ s₃ s₄
  have h₁ : s₁.compare = s.compare ∧ s₁.mode = s.mode := compare_foldl lane _ s
  have h₃ : s₃.compare = s.compare ∧ s₃.mode = s.mode := by
    unfold s₃
    split
    · obtain ⟨hc, hm⟩ := compare_foldl signature sigOrder s₂
      exact ⟨hc.trans h₁.1, hm.trans h₁.2⟩
    · exact h₁
  split
  · exact h₃
  · exact h₃

/-! ### Runs -/

/-- The event brings an entry of the manifest. -/
def Event.isEntry : Event P H → Bool
  | .manifestEntry _ _ => true
  | _ => false

/-- The stage was given `n` entries, and is drained if the loop was left by its test. -/
structure CompareCounted (n : ℕ) (s : State P H) : Prop where
  received : s.compare.received = n
  drained : s.mode = .completed → s.compare.Drained

/-- The refill before the test leaves nothing delayed in an idle pipeline. -/
theorem drained_of_loopTest (cfg : Config) {s : State P H} (hrun : s.mode = .running)
    (h : (s.loopTest cfg).mode = .completed) : (s.loopTest cfg).compare.Drained := by
  unfold loopTest at h ⊢
  dsimp only at h ⊢
  split at h
  · rename_i hc
    rw [if_pos hc]
    simp only [complete, Bool.and_eq_true, beq_iff_eq] at hc
    obtain ⟨⟨⟨⟨⟨⟨⟨⟨⟨⟨⟨-, hidle⟩, -⟩, -⟩, -⟩, -⟩, -⟩, -⟩, -⟩, -⟩, -⟩, -⟩ := hc
    refine CompareStage.drained_of_idle hidle ?_
    rcases s.compare.refill_delayed (n := cfg.maxInFlightCompareTasks) with hd | hd
    · exact hd
    · have h0 : (s.compare.refill cfg.maxInFlightCompareTasks).inFlight = 0 := hidle
      have hpos := cfg.compare_pos
      omega
  · rw [hrun] at h
    cases h

theorem counted_drainCompare (cfg : Config) {s : State P H} {n : ℕ} (hs : CompareCounted n s)
    (hrun : s.mode = .running) (old : Bool) : CompareCounted n (s.drainCompare cfg old) := by
  unfold drainCompare
  split
  · exact hs
  · rename_i r c hd
    have hrec := (CompareStage.received_drainOne hd).trans hs.received
    have hopen {m : Mode} (hm : m = s.mode) : m ≠ .completed := by
      rw [hm, hrun]
      rintro ⟨⟩
    unfold handleCompareResult
    cases r.2 with
    | transferNow =>
      have hapart := Apart.enterOrSchedule cfg ({ s with compare := c } : State P H) r.1 old
      refine ⟨(congrArg CompareStage.received hapart.compare).trans hrec, fun hm => ?_⟩
      exact absurd (hapart.mode hm) (hopen rfl)
    | skip => exact ⟨hrec, fun hm => absurd hm (hopen rfl)⟩
    | needHash => exact ⟨hrec, fun hm => absurd hm (hopen rfl)⟩

theorem counted_step (cfg : Config) {s : State P H} {n : ℕ} (hs : CompareCounted n s)
    (hrun : s.mode = .running) (e : Event P H) :
    CompareCounted (n + if e.isEntry then 1 else 0) (exec cfg s e) := by
  have hopen : s.mode ≠ .completed := by
    rw [hrun]
    rintro ⟨⟩
  by_cases he : e.apart = true
  · have hapart := apart_exec cfg s he
    have hno : e.isEntry = false := by
      cases e with
      | manifestEntry => cases he
      | _ => rfl
    rw [hno]
    refine ⟨(congrArg CompareStage.received hapart.compare).trans hs.received, fun hm => ?_⟩
    exact absurd (hapart.mode hm) hopen
  cases e with
  | manifestEntry rel e =>
    refine ⟨?_, fun hm => absurd hm hopen⟩
    show (s.compare.offer cfg.maxInFlightCompareTasks rel).received = n + 1
    rw [CompareStage.received_offer, hs.received]
  | compareFlush => exact ⟨hs.received, fun hm => absurd hm hopen⟩
  | compareTake => exact ⟨hs.received, fun hm => absurd hm hopen⟩
  | comparePublish i act =>
    refine ⟨?_, fun hm => absurd hm hopen⟩
    exact (CompareStage.received_workerPublish s.compare i act).trans hs.received
  | drainCompare old => exact counted_drainCompare cfg hs hrun old
  | pumpSignatures lane sendOk reached =>
    have hk := compare_pumpDeltaSignatures cfg s lane sendOk reached
    exact ⟨(congrArg CompareStage.received hk.1).trans hs.received, fun hm => absurd (hk.2 ▸ hm) hopen⟩
  | blockSigResponse conn rel =>
    have hk := compare_blockSigResponse s conn rel
    exact ⟨(congrArg CompareStage.received hk.1).trans hs.received, fun hm => absurd (hk.2 ▸ hm) hopen⟩
  | deltaError k rel =>
    have hk := compare_deltaError s k rel
    exact ⟨(congrArg CompareStage.received hk.1).trans hs.received, fun hm => absurd (hk.2 ▸ hm) hopen⟩
  | failoverScan order sigOrder lost lost' =>
    have hk := compare_failoverScan s order sigOrder lost lost'
    exact ⟨(congrArg CompareStage.received hk.1).trans hs.received, fun hm => absurd (hk.2 ▸ hm) hopen⟩
  | loopTest =>
    refine ⟨?_, drained_of_loopTest cfg hrun⟩
    have hc : (exec cfg s .loopTest).compare =
        (s.compare.refill cfg.maxInFlightCompareTasks).flush := by
      simp only [exec, loopTest]
      split <;> rfl
    rw [hc]
    exact (CompareStage.received_refill _ s.compare).trans hs.received
  | _ => exact absurd rfl he

theorem counted_run (cfg : Config) (es : List (Event P H)) {s : State P H} {n : ℕ}
    (hs : CompareCounted n s) (hes : (machine P H cfg).Allows (fun _ _ => True) s es) :
    CompareCounted (n + es.countP Event.isEntry) ((machine P H cfg).run s es) := by
  induction es generalizing s n with
  | nil => exact hs
  | cons e es ih =>
    have h := ih (counted_step cfg hs hes.1.1 e) hes.2.2
    rw [List.countP_cons, Nat.add_comm (es.countP _), ← Nat.add_assoc]
    exact h

/-- **The compare stage is drained when the loop ends.** After any run that leaves the loop by its
completion test no entry is in the delay list, the buffer, the queue, with a worker or in the
results, and as many results were drained as entries came in. -/
theorem compare_drained (cfg : Config) {es : List (Event P H)}
    (hes : (machine P H cfg).Allows (fun _ _ => True) (State.start P H cfg) es)
    (hexit : ((machine P H cfg).run (State.start P H cfg) es).mode = .completed) :
    ((machine P H cfg).run (State.start P H cfg) es).compare.Drained ∧
      ((machine P H cfg).run (State.start P H cfg) es).compare.drained =
        es.countP Event.isEntry := by
  have hstart : CompareCounted 0 (State.start P H cfg) := ⟨rfl, fun hm => by cases hm⟩
  have h := counted_run cfg es hstart hes
  have hd := h.drained hexit
  refine ⟨hd, ?_⟩
  rw [← hd.received_eq, h.received, Nat.zero_add]

/-- One file that needs no transfer, up to the end of the loop. -/
def unchangedRun : List (Event ℕ ℕ) :=
  [.manifestEntry 0 ⟨2, 0⟩, .manifestEnd, .compareFlush, .compareTake,
    .comparePublish 0 fun _ => .skip, .drainCompare false, .loopTest]

/-- The only entry of `unchangedRun` was drained. -/
theorem compare_drained_unchangedRun :
    ((machine ℕ ℕ twoLanes).run (State.start ℕ ℕ twoLanes) unchangedRun).compare.drained = 1 :=
  (compare_drained twoLanes (by decide) (by decide)).2

end FastClone.Client
