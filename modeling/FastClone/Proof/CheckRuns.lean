import FastClone.Proof.CheckEngine

/-!
# Runs of the check engine

`Control` is what the main thread knows where it stands: in front of a blocking `recv` a frame is wanted, and
behind a loop that was not broken off there is nothing left. With `Inv` it gives the two results:
`recv_expected`, that nothing blocks on a peer that owes nothing, and `check_exact`, that a run without the
partial flag has recorded each file once and rightly. Both need a manifest that names no path twice: the engine
looks a response up by its path, and with two requests for one path it miscounts (`samePath_waits`).
-/

namespace FastClone.CheckEngine

open FastClone.Delta FastClone.Wire FastClone.Compare
open FastClone.ComparePipeline (ComparePipelineConfig ComparedItem)

variable {o : CheckOptions} {s s' : State}

/-! ### Where the main thread stands -/

/-- Where `pump` may return to. -/
def Pc.plain : Pc → Bool
  | .swapReady false | .tune | .more _ => true
  | _ => false

/-- Inside the loop, and not in front of `recv`. -/
def Pc.quiet : Pc → Bool
  | .pump next => next.plain
  | .recv _ => false
  | pc => !pc.ending

theorem Pc.quiet_of_plain {pc : Pc} (h : pc.plain = true) : pc.quiet = true := by
  cases pc with
  | swapReady last => cases last <;> first | rfl | cases h
  | _ => first | rfl | cases h

theorem Pc.not_ending_of_quiet {pc : Pc} (h : pc.quiet = true) : pc.ending = false := by
  cases pc with
  | swapReady last => cases last <;> first | rfl | cases h
  | drainReady last done => cases last <;> first | rfl | cases h
  | _ => first | rfl | cases h

/-- The exit code of a full comparison. -/
def CompareCounters.code (c : CompareCounters) : ExitCode :=
  if c.diff = 0 ∧ c.missing = 0 ∧ c.extraLocal = 0 then .identical else .diffFound

/-- None of the three ways to break off. -/
def State.intact (s : State) : Prop := s.userInterrupted = false ∧ s.disconnected = false ∧ s.localReadFailed = false

structure Control (o : CheckOptions) (s : State) : Prop where
  recv : ∀ n, s.pc = .recv n → s.stillWant o = true
  pumps : ∀ next, s.pc = .pump next → next.plain = true
  lost : s.disconnected = false → s.lost = []
  ended : s.pc.ending = true → s.intact → s.goesOn = false
  exit : ∀ code, s.exit = some code →
    s.pc = .finished ∧ (s.partialRun = false → s.intact ∧ code = s.counters.code)

theorem Control.no_exit (h : Control o s) (hpc : s.pc ≠ .finished) : s.exit = none := by
  cases hexit : s.exit with
  | none => rfl
  | some code => exact absurd (h.exit code hexit).1 hpc

/-- The main thread goes on in its loop. -/
theorem Control.goto (h : Control o s) (hs : s.pc ≠ .finished) (hpc : s'.pc.quiet = true)
    (hdisconnected : s'.disconnected = s.disconnected) (hlost : s'.lost = s.lost) (hexit : s'.exit = s.exit) :
    Control o s' := by
  refine ⟨fun n hn => ?_, fun next hn => ?_, ?_, fun hending => ?_, fun code hcode => ?_⟩
  · rw [hn] at hpc
    cases hpc
  · rw [hn] at hpc
    exact hpc
  · rw [hdisconnected, hlost]
    exact h.lost
  · rw [Pc.not_ending_of_quiet hpc] at hending
    cases hending
  · rw [hexit, h.no_exit hs] at hcode
    cases hcode

/-- The main thread leaves its loop, or goes on behind it. -/
theorem Control.finish (h : Control o s) (hs : s.pc ≠ .finished) (hpc : s'.pc.ending = true)
    (hlost : s'.disconnected = false → s'.lost = []) (hover : s'.intact → s'.goesOn = false)
    (hexit : s'.exit = s.exit) : Control o s' := by
  refine ⟨fun n hn => ?_, fun next hn => ?_, hlost, fun _ => hover, fun code hcode => ?_⟩
  · rw [hn] at hpc
    cases hpc
  · rw [hn] at hpc
    cases hpc
  · rw [hexit, h.no_exit hs] at hcode
    cases hcode

/-- The steps of the other threads. -/
theorem Control.other (h : Control o s) (hpc : s'.pc = s.pc) (hwant : s'.stillWant o = s.stillWant o)
    (hgoes : s'.goesOn = s.goesOn) (hlost : s'.lost = s.lost) (hintact : s'.intact ↔ s.intact)
    (hdisconnected : s'.disconnected = s.disconnected) (hexit : s'.exit = s.exit) (hwhole : s'.partialRun = s.partialRun)
    (hcounters : s'.counters = s.counters) : Control o s' := by
  refine ⟨fun n hn => ?_, fun next hn => h.pumps next (hpc ▸ hn), ?_, fun hending hs => ?_, fun code hcode => ?_⟩
  · rw [hwant]
    exact h.recv n (hpc ▸ hn)
  · rw [hdisconnected, hlost]
    exact h.lost
  · rw [hgoes]
    exact h.ended (hpc ▸ hending) (hintact.1 hs)
  · obtain ⟨hfinished, hcode⟩ := h.exit code (hexit ▸ hcode)
    refine ⟨hpc.trans hfinished, fun hfull => ?_⟩
    obtain ⟨hs, heq⟩ := hcode (hwhole ▸ hfull)
    exact ⟨hintact.2 hs, hcounters ▸ heq⟩

/-! ### What the functions leave alone -/

/-- Nothing but the counters, the report and the queue for the hashes. -/
structure Beside (s s' : State) : Prop where
  pc : s'.pc = s.pc
  pipe : s'.pipe = s.pipe
  manifestDone : s'.manifestDone = s.manifestDone
  userInterrupted : s'.userInterrupted = s.userInterrupted
  disconnected : s'.disconnected = s.disconnected
  localReadFailed : s'.localReadFailed = s.localReadFailed
  lost : s'.lost = s.lost
  exit : s'.exit = s.exit
  partialRun : s'.partialRun = s.partialRun
  requested : s'.requested = s.requested

theorem Beside.trans {s₁ s₂ s₃ : State} (h : Beside s₁ s₂) (h' : Beside s₂ s₃) : Beside s₁ s₃ :=
  ⟨h'.pc.trans h.pc, h'.pipe.trans h.pipe, h'.manifestDone.trans h.manifestDone,
    h'.userInterrupted.trans h.userInterrupted, h'.disconnected.trans h.disconnected,
    h'.localReadFailed.trans h.localReadFailed, h'.lost.trans h.lost, h'.exit.trans h.exit,
    h'.partialRun.trans h.partialRun, h'.requested.trans h.requested⟩

theorem beside_foldl {α : Type} {f : State → α → State} (hf : ∀ s a, Beside s (f s a)) (s : State) (l : List α) :
    Beside s (l.foldl f s) := by
  induction l generalizing s with
  | nil => exact ⟨rfl, rfl, rfl, rfl, rfl, rfl, rfl, rfl, rfl, rfl⟩
  | cons a l ih => exact (hf s a).trans (ih (f s a))

theorem beside_record (s : State) (r : Record) : Beside s (s.record o r) :=
  ⟨rfl, rfl, rfl, rfl, rfl, rfl, rfl, rfl, rfl, rfl⟩

theorem beside_route (s : State) (item : ComparedItem) : Beside s (s.route o item) := by
  unfold State.route
  split
  · exact ⟨rfl, rfl, rfl, rfl, rfl, rfl, rfl, rfl, rfl, rfl⟩
  · exact beside_record s _

theorem goesOn_records (s : State) (l : List Record) : (l.foldl (State.record o) s).goesOn = s.goesOn := by
  induction l generalizing s with
  | nil => rfl
  | cons r l ih => exact ih (s.record o r)

/-- Of the flags `finalizePaired` sets only the one that reports a failed read. -/
theorem finalizePaired_flags (s : State) (rel : Bytes) (need : HashNeed) (lr : LocalResult) (serverHash : Hash) :
    (s.finalizePaired o rel need lr serverHash).disconnected = s.disconnected ∧
      (s.finalizePaired o rel need lr serverHash).lost = s.lost ∧
        (s.finalizePaired o rel need lr serverHash).exit = s.exit ∧
          (s.finalizePaired o rel need lr serverHash).requested = s.requested := by
  cases lr <;> exact ⟨rfl, rfl, rfl, rfl⟩

theorem awaiting_none (hgoes : s.goesOn = false) (rel : Bytes) :
    s.awaiting.lookup rel = none := by
  have hempty : s.awaiting.entries = [] := by
    simp only [State.goesOn, Bool.or_eq_false_iff, Bool.not_eq_false', List.isEmpty_iff] at hgoes
    exact hgoes.2
  rw [AList.lookup, hempty]
  rfl

/-! ### Each step -/

theorem control_loop (h : Control o s) (hpc : s.pc = .loop) (interrupted : Bool) : Control o (s.loop interrupted) := by
  have hs : s.pc ≠ .finished := by rw [hpc]; nofun
  unfold State.loop
  split
  · split
    · exact h.finish hs rfl h.lost (fun hi => by cases hi.1) rfl
    · exact h.goto hs rfl rfl rfl rfl
  · rename_i hover
    exact h.finish hs rfl h.lost (fun _ => Bool.eq_false_of_not_eq_true hover) rfl

theorem control_drainCompare (h : Control o s) (hpc : s.pc = .drainCompare) : Control o (s.drainCompare o) := by
  have hbeside := beside_foldl (beside_route (o := o)) { s with pipe := s.pipe.drain } (State.hashFirst s.pipe.results)
  refine h.goto (by rw [hpc]; nofun) ?_ hbeside.disconnected hbeside.lost hbeside.exit
  show Pc.quiet (if s.pipe.results = [] then .swapReady false else .pump (.swapReady false)) = true
  split <;> rfl

/-- Inside the loop a failed read breaks it off; behind it there is nothing to pair. -/
theorem control_drainReady (h : Control o s) {last : Bool} {done : List Bytes}
    (hpc : s.pc = .drainReady last done) : Control o (s.drainReady o last done) := by
  have hs : s.pc ≠ .finished := by rw [hpc]; nofun
  cases last with
  | false =>
    cases done with
    | nil =>
      show Control o { s with pc := if s.localReadFailed then .stop else .refill }
      split
      · rename_i hfailed
        exact h.finish hs rfl h.lost (fun hi => by rw [hfailed] at hi; cases hi.2.2) rfl
      · exact h.goto hs rfl rfl rfl rfl
    | cons rel done =>
      unfold State.drainReady
      dsimp only
      split
      · rename_i need serverHash lr hl hsh hr
        obtain ⟨hdisconnected, hlost, hexit, -⟩ := finalizePaired_flags (o := o) s rel need lr serverHash
        split
        · -- the hash of this file was the failed read
          rename_i hfailed
          have hstop : (s.finalizePaired o rel need lr serverHash).afterReady false = .stop := if_pos hfailed
          rw [hstop]
          refine h.finish hs rfl ?_ (fun hi => by rw [hfailed] at hi; cases hi.2.2) hexit
          show (s.finalizePaired o rel need lr serverHash).disconnected = false → _
          rw [hdisconnected, hlost]
          exact h.lost
        · exact h.goto hs rfl hdisconnected hlost hexit
      · exact h.goto hs rfl rfl rfl rfl
  | true =>
    have hending : s.pc.ending = true := by rw [hpc]; rfl
    cases done with
    | nil => exact h.finish hs rfl h.lost (h.ended hending) rfl
    | cons rel done =>
      by_cases hi : s.intact
      · -- every request was answered before the loop ended
        have hnone := awaiting_none (h.ended hending hi) rel
        unfold State.drainReady
        dsimp only
        rw [hnone]
        exact h.finish hs rfl h.lost (h.ended hending) rfl
      · unfold State.drainReady
        dsimp only
        split
        · rename_i need serverHash lr hl hsh hr
          obtain ⟨hdisconnected, hlost, hexit, -⟩ := finalizePaired_flags (o := o) s rel need lr serverHash
          refine h.finish hs ?_ ?_ (fun hi' => ?_) hexit
          · show Pc.ending (if _ then .outcome else .drainReady true done) = true
            split <;> rfl
          · show (s.finalizePaired o rel need lr serverHash).disconnected = false → _
            rw [hdisconnected, hlost]
            exact h.lost
          · refine absurd ?_ hi
            cases lr with
            | hashed hash => exact hi'
            | failed => cases hi'.2.2
        · exact h.finish hs rfl h.lost (fun hi' => absurd hi' hi) rfl

theorem control_refill (h : Control o s) (hpc : s.pc = .refill) : Control o (s.refill o) := by
  have hs : s.pc ≠ .finished := by rw [hpc]; nofun
  unfold State.refill
  split
  · split
    · exact h.goto hs (by show s.pc.quiet = true; rw [hpc]; rfl) rfl rfl rfl
    · exact h.goto hs rfl rfl rfl rfl
  · exact h.goto hs rfl rfl rfl rfl

theorem control_pump (h : Control o s) (room : Bool) {next : Pc} (hpc : s.pc = .pump next) :
    Control o (s.pump room next) := by
  have hs : s.pc ≠ .finished := by rw [hpc]; nofun
  have hplain := h.pumps next hpc
  unfold State.pump
  split
  · split
    · exact h.goto hs (by show s.pc.quiet = true; rw [hpc]; exact hplain) rfl rfl rfl
    · exact h.goto hs (Pc.quiet_of_plain hplain) rfl rfl rfl
  · exact h.goto hs (Pc.quiet_of_plain hplain) rfl rfl rfl

/-- In front of `recv` the condition has just been read. -/
theorem control_more (h : Control o s) {batched : ℕ} (hpc : s.pc = .more batched) : Control o (s.more o batched) := by
  have hs : s.pc ≠ .finished := by rw [hpc]; nofun
  by_cases hwant : batched < kRecvBatch ∧ s.stillWant o = true
  · have heq : s.more o batched = { s with pc := .recv batched } := by
      unfold State.more
      rw [if_pos hwant]
    rw [heq]
    refine ⟨fun _ _ => hwant.2, nofun, h.lost, nofun, fun code hcode => ?_⟩
    have hnone := h.no_exit hs
    rw [show ({ s with pc := .recv batched } : State).exit = s.exit from rfl, hnone] at hcode
    cases hcode
  · have heq : s.more o batched = { s with pc := .loop } := by
      unfold State.more
      rw [if_neg hwant]
    rw [heq]
    exact h.goto hs rfl rfl rfl rfl

theorem control_frame (h : Control o s) (f : Frame) (window : ℕ) {batched : ℕ} (hpc : s.pc = .recv batched) :
    Control o (s.frame o f window batched) := by
  have hs : s.pc ≠ .finished := by rw [hpc]; nofun
  cases f with
  | manifestEntry remote =>
    have hfields : (s.manifestEntry o remote).disconnected = s.disconnected ∧
        (s.manifestEntry o remote).lost = s.lost ∧ (s.manifestEntry o remote).exit = s.exit := by
      unfold State.manifestEntry
      split
      · exact ⟨rfl, rfl, rfl⟩
      · dsimp only
        split <;> exact ⟨rfl, rfl, rfl⟩
    exact h.goto hs rfl hfields.1 hfields.2.1 hfields.2.2
  | manifestProgress => exact h.goto hs rfl rfl rfl rfl
  | manifestEnd => exact h.goto hs rfl rfl rfl rfl
  | unexpected => exact h.goto hs rfl rfl rfl rfl
  | hashResponse rel hash =>
    show Control o (s.handleHashResponse o rel hash window batched)
    unfold State.handleHashResponse
    dsimp only
    split
    · exact h.goto hs rfl rfl rfl rfl
    · rename_i need hl
      split
      · rename_i lr hr
        obtain ⟨hdisconnected, hlost, hexit, -⟩ := finalizePaired_flags (o := o)
          { s with
            inFlight := s.inFlight - 1
            hashWindow := window
            unanswered := s.unanswered.erase rel
            answers := s.answers ++ [(rel, hash)] } rel need lr hash
        refine h.goto hs ?_ hdisconnected hlost hexit
        show Pc.quiet (if _ then .loop else .pump (.more (batched + 1))) = true
        split <;> rfl
      · exact h.goto hs rfl rfl rfl rfl

theorem control_outcome (h : Control o s) (extras : List (Bytes × Option FileEntry)) (hpc : s.pc = .outcome) :
    Control o (s.outcome o extras) := by
  have hending : s.pc.ending = true := by rw [hpc]; rfl
  have hover := h.ended hending
  unfold State.outcome
  dsimp only
  split
  · rename_i hi
    exact ⟨nofun, nofun, h.lost, fun _ => hover, fun _ _ => ⟨rfl, nofun⟩⟩
  · rename_i hinterrupted
    split
    · exact ⟨nofun, nofun, h.lost, fun _ => hover, fun _ _ => ⟨rfl, nofun⟩⟩
    · rename_i hdisconnected
      split
      · exact ⟨nofun, nofun, h.lost, fun _ => hover, fun _ _ => ⟨rfl, nofun⟩⟩
      · rename_i hfailed
        have hbeside := beside_foldl (beside_record (o := o)) { s with pc := .finished } (extras.map State.extraRecord)
        have hintact : s.intact := ⟨by simpa using hinterrupted, by simpa using hdisconnected, by simpa using hfailed⟩
        refine ⟨fun n hn => ?_, fun next hn => ?_, ?_, fun _ _ => ?_, fun code hcode => ⟨hbeside.pc, fun _ => ⟨?_, ?_⟩⟩⟩
        · cases hbeside.pc.symm.trans hn
        · cases hbeside.pc.symm.trans hn
        · intro _
          exact hbeside.lost.trans (h.lost hintact.2.1)
        · exact (goesOn_records _ _).trans (hover hintact)
        · exact ⟨hbeside.userInterrupted.trans hintact.1, hbeside.disconnected.trans hintact.2.1,
            hbeside.localReadFailed.trans hintact.2.2⟩
        · cases hcode
          rfl

/-- The pipeline's threads change nothing the main thread looks at. -/
theorem control_pipe (h : Control o s) {p : ComparePipeline.State} (hseen : Unseen s.pipe p) :
    Control o { s with pipe := p } := by
  refine h.other rfl ?_ ?_ rfl Iff.rfl rfl rfl rfl rfl
  · show ((!s.manifestDone && decide (p.inFlight < _)) || _) = _
    rw [hseen.inFlight]
    rfl
  · show (!s.manifestDone || decide (p.inFlight > 0) || _ || _ || _ || _) = _
    rw [hseen.inFlight]
    rfl

theorem control_step (h : Control o s) {e : Event} (he : Effect o s e s') : Control o s' := by
  cases he with
  | loop interrupted hpc => exact control_loop h hpc interrupted
  | drainCompare hpc => exact control_drainCompare h hpc
  | @swapReady last hpc =>
    have hs : s.pc ≠ .finished := by rw [hpc]; nofun
    cases last with
    | false => exact h.goto hs rfl rfl rfl rfl
    | true => exact h.finish hs rfl h.lost (h.ended (by rw [hpc]; rfl)) rfl
  | drainReady hpc => exact control_drainReady h hpc
  | refill hpc => exact control_refill h hpc
  | flush hpc hp => exact h.goto (by rw [hpc]; nofun) rfl rfl rfl rfl
  | pump room hpc => exact control_pump h room hpc
  | sendFails hpc hq => exact h.finish (by rw [hpc]; nofun) rfl nofun (fun hi => by cases hi.2.1) rfl
  | tune sample hpc =>
    refine h.goto (by rw [hpc]; nofun) ?_ rfl rfl rfl
    show Pc.quiet (if s.stillWant o then .more 0 else .wait) = true
    split <;> rfl
  | more hpc => exact control_more h hpc
  | frame f window hpc => exact control_frame h f window hpc
  | recvFails hpc => exact h.finish (by rw [hpc]; nofun) rfl nofun (fun hi => by cases hi.2.1) rfl
  | waited hpc => exact h.goto (by rw [hpc]; nofun) rfl rfl rfl rfl
  | stop hpc => exact h.finish (by rw [hpc]; nofun) rfl h.lost (h.ended (by rw [hpc]; rfl)) rfl
  | join hpc => exact h.finish (by rw [hpc]; nofun) rfl h.lost (h.ended (by rw [hpc]; rfl)) rfl
  | joinWorkers hpc =>
    refine h.finish (by rw [hpc]; nofun) ?_ h.lost (h.ended (by rw [hpc]; rfl)) rfl
    show Pc.ending (if s.localReadFailed then .outcome else .swapReady true) = true
    split <;> rfl
  | outcome extras hpc => exact control_outcome h extras hpc
  | pipe he hp => exact control_pipe h (unseen_of_step (passive_of_isWorker he) hp)
  | hashTake hw hq hin => exact h.other rfl rfl rfl rfl Iff.rfl rfl rfl rfl rfl
  | hashStore hw r => exact h.other rfl rfl rfl rfl Iff.rfl rfl rfl rfl rfl
  | hashReady hw => exact h.other rfl rfl rfl rfl Iff.rfl rfl rfl rfl rfl
  | hashLeave hw hin => exact h.other rfl rfl rfl rfl Iff.rfl rfl rfl rfl rfl

theorem control_start (o : CheckOptions) : Control o (.start o) := ⟨nofun, nofun, fun _ => rfl, nofun, nofun⟩

/-! ### Runs -/

theorem next_eq {e : Event} (hs : s.step o e = some s') : (machine o).next s e = s' := by
  show (s.step o e).getD s = s'
  rw [hs]
  rfl

theorem invariants (h : (machine o).Reach Conforms s) : Inv o s [] ∧ Control o s := by
  refine h.invariant (I := fun s => Inv o s [] ∧ Control o s) ⟨inv_start o, control_start o⟩ ?_
  intro s e hs hc hok
  obtain ⟨s', heq⟩ := Option.isSome_iff_exists.1 hc
  have he := effect_of_step heq
  rw [next_eq heq]
  exact ⟨inv_step hs.1 hok he, control_step hs.2 he⟩

/-- Nothing is left when the main thread has found its loop over. -/
theorem nothing_left (h : Inv o s []) (hgoes : s.goesOn = false) :
    s.manifestDone = true ∧ s.pipe.undrained o.compareCfg = 0 ∧ s.delayedCompareEntries = [] ∧ s.hashQueue = [] ∧
      s.awaiting.entries = [] ∧ s.unanswered = [] := by
  simp only [State.goesOn, Bool.or_eq_false_iff, Bool.not_eq_false', List.isEmpty_iff, decide_eq_false_iff_not,
    Nat.not_lt, Nat.le_zero] at hgoes
  obtain ⟨⟨⟨⟨⟨hdone, hpipe⟩, hdelayed⟩, hqueue⟩, hflight⟩, hawaiting⟩ := hgoes
  refine ⟨hdone, ?_, hdelayed, hqueue, hawaiting, List.length_eq_zero_iff.1 (h.inFlight ▸ hflight)⟩
  have hkept := h.pipe.kept
  rw [Multiset.coe_eq_coe.2 (h.pipe.all_drained hpipe)] at hkept
  exact add_eq_right.1 hkept

/-- A frame that is wanted is owed by the peer. -/
theorem owed (h : Inv o s []) (hwant : s.stillWant o = true) : s.manifestDone = false ∨ s.unanswered ≠ [] := by
  simp only [State.stillWant, Bool.or_eq_true, Bool.and_eq_true, Bool.not_eq_true', decide_eq_true_eq] at hwant
  rcases hwant with ⟨hdone, -⟩ | hflight
  · exact .inl hdone
  · refine .inr fun hnil => ?_
    rw [h.inFlight, hnil] at hflight
    exact absurd hflight (Nat.lt_irrefl 0)

/-- Requests go out from `pump`, below the window. -/
theorem below_window {e : Event} (he : Effect o s e s') : s'.requested = s.requested ∨ s.inFlight < s.hashWindow := by
  cases he with
  | pump room hpc =>
    unfold State.pump
    split
    · split
      · -- the loop of `pump` tests the window before each request
        rename_i hroom
        exact .inr hroom.1
      · exact .inl rfl
    · exact .inl rfl
  | loop interrupted hpc =>
    unfold State.loop
    split
    · split <;> exact .inl rfl
    · exact .inl rfl
  | drainCompare hpc => exact .inl (beside_foldl beside_route _ _).requested
  | drainReady hpc =>
    unfold State.drainReady
    split
    · exact .inl rfl
    · split
      · exact .inl (finalizePaired_flags _ _ _ _ _).2.2.2
      · exact .inl rfl
  | refill hpc =>
    unfold State.refill
    split
    · split <;> exact .inl rfl
    · exact .inl rfl
  | @frame batched f window hpc =>
    cases f with
    | manifestEntry remote =>
      show (s.manifestEntry o remote).requested = s.requested ∨ _
      unfold State.manifestEntry
      split
      · exact .inl rfl
      · dsimp only
        split <;> exact .inl rfl
    | hashResponse rel hash =>
      show (s.handleHashResponse o rel hash window batched).requested = s.requested ∨ _
      unfold State.handleHashResponse
      dsimp only
      split
      · exact .inl rfl
      · split
        · exact .inl (finalizePaired_flags _ _ _ _ _).2.2.2
        · exact .inl rfl
    | manifestProgress => exact .inl rfl
    | manifestEnd => exact .inl rfl
    | unexpected => exact .inl rfl
  | outcome extras hpc =>
    unfold State.outcome
    dsimp only
    split
    · exact .inl rfl
    · split
      · exact .inl rfl
      · split
        · exact .inl rfl
        · exact .inl (beside_foldl beside_record _ _).requested
  | swapReady hpc => exact .inl rfl
  | flush hpc hp => exact .inl rfl
  | sendFails hpc hq => exact .inl rfl
  | tune sample hpc => exact .inl rfl
  | more hpc => exact .inl rfl
  | recvFails hpc => exact .inl rfl
  | waited hpc => exact .inl rfl
  | stop hpc => exact .inl rfl
  | join hpc => exact .inl rfl
  | joinWorkers hpc => exact .inl rfl
  | pipe he hp => exact .inl rfl
  | hashTake hw hq hin => exact .inl rfl
  | hashStore hw r => exact .inl rfl
  | hashReady hw => exact .inl rfl
  | hashLeave hw hin => exact .inl rfl

/-- **The engine never waits for a frame that nobody owes**: in front of a blocking `recv` the manifest is not
finished or some request has no answer. `inFlight` counts the requests without an answer, a request goes out below
the window only, and when the loop is over nothing is left. -/
theorem recv_expected (o : CheckOptions) {s : State} (h : (machine o).Reach Conforms s) :
    (∀ n, s.pc = .recv n → s.manifestDone = false ∨ s.unanswered ≠ []) ∧
      s.inFlight = s.unanswered.length ∧
      (∀ e, (machine o).can s e → ((machine o).next s e).requested ≠ s.requested →
        s.unanswered.length < s.hashWindow) ∧
      ∀ interrupted, (machine o).can s (.loop interrupted) → ((machine o).next s (.loop interrupted)).pc = .stop →
        ((machine o).next s (.loop interrupted)).userInterrupted = false →
          s.pipe.undrained o.compareCfg = 0 ∧ s.delayedCompareEntries = [] ∧ s.hashQueue = [] ∧
            s.awaiting.entries = [] ∧ s.unanswered = [] := by
  obtain ⟨hinv, hcontrol⟩ := invariants h
  refine ⟨fun n hn => ?_, hinv.inFlight, fun e hcan hsent => ?_, fun interrupted hcan hpc huser => ?_⟩
  · exact owed hinv (hcontrol.recv n hn)
  · obtain ⟨s', heq⟩ := Option.isSome_iff_exists.1 hcan
    rw [next_eq heq] at hsent
    exact hinv.inFlight ▸ (below_window (effect_of_step heq)).resolve_left hsent
  · obtain ⟨s', heq⟩ := Option.isSome_iff_exists.1 hcan
    rw [next_eq heq] at hpc huser
    cases effect_of_step heq with
    | loop _ hloop =>
      by_cases hgoes : s.goesOn = true
      · cases interrupted with
        | false => rw [State.loop, if_pos hgoes, if_neg nofun] at hpc; cases hpc
        | true => rw [State.loop, if_pos hgoes, if_pos rfl] at huser; cases huser
      · exact (nothing_left hinv (Bool.eq_false_of_not_eq_true hgoes)).2

/-! ### A full comparison -/

/-- Every record that is no extra file counts in one of the three counters. -/
theorem countP_verdicts (recorded : List Record) :
    recorded.countP (fun r => decide (r.category ≠ .extra)) =
      recorded.countP (fun r => decide (r.category = .same)) + recorded.countP (fun r => decide (r.category = .diff)) +
        recorded.countP (fun r => decide (r.category = .missing)) := by
  induction recorded with
  | nil => rfl
  | cons r recorded ih =>
    rw [List.countP_cons, List.countP_cons, List.countP_cons, List.countP_cons, ih]
    cases r.category <;> simp <;> omega

/-- With nothing left every file of the manifest is recorded. -/
theorem verdicts_perm (h : Inv o s []) (hlost : s.lost = []) (hgoes : s.goesOn = false) :
    (s.verdicts.map Record.remote).Perm s.manifest := by
  obtain ⟨-, hpipe, hdelayed, hqueue, hawaiting, -⟩ := nothing_left h hgoes
  have hempty : (Table.total (fun _ n => {n.remote}) s.awaiting : Multiset FileEntry) = 0 := by
    unfold Table.total
    rw [hawaiting]
    rfl
  have hkept := congrArg (Multiset.map ComparePipeline.Task.remote) h.pipe.kept
  rw [hpipe, zero_add, Multiset.map_coe, Multiset.map_coe, List.map_map] at hkept
  have hrouted := h.routed
  rw [hqueue, hlost, hempty, List.map_nil, List.map_nil, Multiset.coe_nil, zero_add, zero_add, zero_add,
    add_zero] at hrouted
  have hfiles := h.files
  rw [hdelayed, Multiset.coe_nil, zero_add, ← hkept] at hfiles
  exact Multiset.coe_eq_coe.1 (hrouted.symm.trans hfiles.symm)

/-- A path has one local hash and one answer. -/
theorem Inv.localHashes_nodup (h : Inv o s []) : (s.localHashes.map Prod.fst).Nodup := by
  refine Multiset.coe_nodup.1 (Multiset.nodup_of_le ?_ h.requested_nodup)
  rw [h.tasks]
  exact Multiset.le_add_left _ _

theorem Inv.answers_nodup (h : Inv o s []) : (s.answers.map Prod.fst).Nodup := by
  refine Multiset.coe_nodup.1 (Multiset.nodup_of_le ?_ h.requested_nodup)
  rw [h.asked]
  exact Multiset.le_add_left _ _

/-- **A full comparison is exact.** A run that ends without the partial flag has recorded each file of the manifest
once, with the decision about its own probe, or with that of its two hashes where the decision asks for them; the
counters add up, and the exit code is that of equal trees where they show no difference. -/
theorem check_exact (o : CheckOptions) {s : State} {code : ExitCode} (h : (machine o).Reach Conforms s)
    (hexit : s.exit = some code) (hfull : s.partialRun = false) :
    (s.manifestDone = true ∧ (s.manifest.map FileEntry.relativePath).Nodup ∧
        (s.verdicts.map Record.remote).Perm s.manifest) ∧
      (∀ r ∈ s.verdicts, ∃ i ∈ s.pipe.out, i.remote = r.remote ∧ i.localFile = r.localFile ∧
        i.outcome = decideCompare o.mode i.localFile i.remote ∧
        (∃ p, (i.serial, p) ∈ s.pipe.probes ∧ i.localFile = p.localFile) ∧ Right s i r) ∧
      ((s.pipe.probes.map Prod.fst).Nodup ∧ (s.localHashes.map Prod.fst).Nodup ∧ (s.answers.map Prod.fst).Nodup) ∧
      (∀ c, s.counters.of c = s.recorded.countP fun r => decide (r.category = c)) ∧
      s.counters.enumerated = s.counters.same + s.counters.diff + s.counters.missing ∧
      (code = .identical ↔ s.counters.diff = 0 ∧ s.counters.missing = 0 ∧ s.counters.extraLocal = 0) := by
  obtain ⟨hinv, hcontrol⟩ := invariants h
  obtain ⟨hpc, hrest⟩ := hcontrol.exit code hexit
  obtain ⟨hintact, hcode⟩ := hrest hfull
  have hgoes := hcontrol.ended (by rw [hpc]; rfl) hintact
  have hperm := verdicts_perm hinv (hcontrol.lost hintact.2.1) hgoes
  refine ⟨⟨(nothing_left hinv hgoes).1, hinv.nodup, hperm⟩, fun r hr => ?_,
    ⟨hinv.pipe.probes_nodup, hinv.localHashes_nodup, hinv.answers_nodup⟩, hinv.counts, ?_, ?_⟩
  · obtain ⟨i, hi, hremote, hfile, hright⟩ := hinv.right r hr
    obtain ⟨houtcome, hprobe⟩ := hinv.pipe.accounts.decided i (ComparePipeline.mem_compared_of_out hi)
    exact ⟨i, hi, hremote, hfile, houtcome, hprobe, hright⟩
  · have hlength : s.verdicts.length = s.manifest.length := by
      rw [← List.length_map (f := Record.remote)]
      exact hperm.length_eq
    have hsame := hinv.counts .same
    have hdiff := hinv.counts .diff
    have hmissing := hinv.counts .missing
    have hsum : s.verdicts.length = _ := List.countP_eq_length_filter.symm.trans (countP_verdicts s.recorded)
    have henumerated := hinv.enumerated
    simp only [CompareCounters.of] at hsame hdiff hmissing
    omega
  · rw [hcode]
    unfold CompareCounters.code
    split
    · rename_i hzero
      exact ⟨fun _ => hzero, fun _ => rfl⟩
    · rename_i hzero
      exact ⟨nofun, fun hz => absurd hz hzero⟩

/-! ### Two runs -/

def smallFile : FileEntry := ⟨[97], false, 0, 0⟩

def otherFile : FileEntry := ⟨[98], false, 0, 0⟩

def smallHash : Hash := arrayOf []

def strict : CheckOptions := { mode := .strict }

/-- The main loop up to its `recv` or its wait, with nothing to do. -/
def idleTurn : List Event :=
  [.loop false, .drainCompare, .swapReady, .drainReady, .refill, .flush, .pump false, .tune none]

/-- The manifest names the files, one after the other. -/
def manifestOf (files : List FileEntry) : List Event :=
  files.flatMap (fun e => [.more, .frame (.manifestEntry e) 0]) ++ [.more, .frame .manifestEnd 0]

/-- What the first thread of the pipeline does with one batch, all of it found here. -/
def probed (files : List FileEntry) : List Event :=
  .pipe (.wake 0) :: .pipe (.gate 0) :: files.map (fun e => .pipe (.probe 0 (.returns (some e)))) ++
    [.pipe (.publish 0), .pipe (.count 0), .pipe (.release 0)]

/-- The requests for the files, and the local hash of the first. -/
def requested (files : List FileEntry) : List Event :=
  .waited :: .loop false :: .drainCompare :: files.map (fun _ => .pump true) ++
    [.pump true, .swapReady, .drainReady, .refill, .flush, .pump false, .tune none, .more, .hashTake 0,
      .hashStore 0 (.hashed smallHash), .hashReady 0]

def response : Event := .frame (.hashResponse smallFile.relativePath smallHash) 32

/-- All threads leave, and nothing is extra. -/
def tornDown : List Event :=
  .stop :: (List.range 4).flatMap (fun w => [.pipe (.wake w), .pipe (.gate w)]) ++
    [.join, .hashLeave 0, .joinWorkers, .swapReady, .drainReady, .drainReady, .outcome []]

def upToRequest (files : List FileEntry) : List Event :=
  idleTurn ++ manifestOf files ++ idleTurn ++ probed files ++ requested files

/-- One file, with both its hashes. -/
def oneFile : List Event := upToRequest [smallFile] ++ [response, .pump true, .more, .loop false] ++ tornDown

/-- Two files, both requested, and the answer about the first. -/
def oneAnswer : List Event := upToRequest [smallFile, otherFile] ++ [response, .pump true, .more]

/-- The same path twice: the second response finds nothing that waits for it. -/
def samePath : List Event := upToRequest [smallFile, smallFile] ++ [response, .pump true, .more, response, .more]

theorem check_exact_oneFile : ∃ s : State, (machine strict).Reach Conforms s ∧ s.exit = some .identical ∧
    (s.verdicts.map Record.remote).Perm s.manifest := by
  have hrun : (machine strict).Allows Conforms (machine strict).init oneFile ∧
      ((machine strict).run (machine strict).init oneFile).exit = some .identical ∧
      ((machine strict).run (machine strict).init oneFile).partialRun = false := by decide +kernel
  have hreach := Runs.Machine.reach_run hrun.1
  exact ⟨_, hreach, hrun.2.1, (check_exact strict hreach hrun.2.1 hrun.2.2).1.2.2⟩

theorem recv_expected_oneAnswer : ∃ s : State, (machine strict).Reach Conforms s ∧ s.pc = .recv 1 ∧
    s.manifestDone = true ∧ s.requested.length = 2 ∧ s.unanswered ≠ [] ∧ s.unanswered.length = 1 := by
  have hrun : (machine strict).Allows Conforms (machine strict).init oneAnswer ∧
      ((machine strict).run (machine strict).init oneAnswer).pc = .recv 1 ∧
      ((machine strict).run (machine strict).init oneAnswer).manifestDone = true ∧
      ((machine strict).run (machine strict).init oneAnswer).requested.length = 2 ∧
      ((machine strict).run (machine strict).init oneAnswer).inFlight = 1 := by decide +kernel
  obtain ⟨hes, hpc, hdone, hsent, hflight⟩ := hrun
  have hreach := Runs.Machine.reach_run hes
  obtain ⟨hblocked, hcount, -⟩ := recv_expected strict hreach
  refine ⟨_, hreach, hpc, hdone, hsent, (hblocked 1 hpc).resolve_left ?_, hcount ▸ hflight⟩
  rw [hdone]
  nofun

/-- With one path twice in the manifest the engine waits for a frame though every request is answered. -/
theorem samePath_waits : ∃ s : State, (machine strict).Reach Answers s ∧ s.pc = .recv 2 ∧ s.manifestDone = true ∧
    s.unanswered = [] ∧ s.inFlight = 1 := by
  have hrun : (machine strict).Allows Answers (machine strict).init samePath ∧
      ((machine strict).run (machine strict).init samePath).pc = .recv 2 ∧
      ((machine strict).run (machine strict).init samePath).manifestDone = true ∧
      ((machine strict).run (machine strict).init samePath).unanswered = [] ∧
      ((machine strict).run (machine strict).init samePath).inFlight = 1 := by decide +kernel
  exact ⟨_, Runs.Machine.reach_run hrun.1, hrun.2⟩

end FastClone.CheckEngine
