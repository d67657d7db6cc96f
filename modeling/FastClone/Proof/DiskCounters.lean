import FastClone.Proof.DiskIo
import FastClone.Spec.DiskCounters

/-!
# The counters of the disk driver balance at rest

`Ledger` accounts for every operation in every state of every run: what was queued is counted, or a
call of `submit` still has it, and what was delivered is counted, or a thread still has it, or the backend
has refused it. The completion of a refused operation is delivered and never counted, so at rest exactly
the refused ones are missing (`balance_atRest`).
-/

namespace FastClone.DiskIo

namespace Driver

variable {cfg : IoDriverConfig} {s : Driver}

/-! ### What the counted sections change -/

/-- `t` has delivered what `s` has, and is about to deliver the same. -/
structure SameEnds (s t : Driver) : Prop where
  enqueued : t.enqueued = s.enqueued
  todo : t.scheduler.todo = s.scheduler.todo
  flush : t.flush = s.flush
  cancelled : t.cancelled = s.cancelled

/-- `submit` changes the queues and what was accepted. -/
theorem submit_keeps (cfg : IoDriverConfig) (s : Driver) (batch : List IoRequest) :
    s.SameEnds (s.submit cfg batch) ∧ s.accepted.length ≤ (s.submit cfg batch).accepted.length := by
  have hall : ∀ (batch : List IoRequest) (s : Driver), s.SameEnds (s.acceptAll cfg batch) ∧
      s.accepted.length ≤ (s.acceptAll cfg batch).accepted.length := by
    intro batch
    induction batch with
    | nil => exact fun s => ⟨⟨rfl, rfl, rfl, rfl⟩, le_rfl⟩
    | cons req batch ih =>
      intro s
      rw [acceptAll]
      split
      · exact ⟨⟨rfl, rfl, rfl, rfl⟩, le_rfl⟩
      · obtain ⟨⟨henq, htodo, hfl, hcan⟩, hacc⟩ := ih (s.accept req)
        obtain ⟨rq, wq, heq⟩ := accept_eq s req
        rw [heq] at henq htodo hfl hcan hacc ⊢
        refine ⟨⟨henq, htodo, hfl, hcan⟩, ?_⟩
        rw [List.length_append] at hacc
        omega
  unfold submit
  split
  · exact ⟨⟨rfl, rfl, rfl, rfl⟩, le_rfl⟩
  · exact hall batch s

/-- A push delivers the next completion of its thread. -/
theorem enqueuePush_eq {who : Caller} (addr : Addr) {d : Done} (h : s.nextDone who = some d) :
    (s.enqueuePush who addr).accepted = s.accepted ∧
      (s.enqueuePush who addr).enqueued.length = s.enqueued.length + 1 ∧
      (s.enqueuePush who addr).scheduler = (s.takeDone who).scheduler ∧
      (s.enqueuePush who addr).flush = (s.takeDone who).flush ∧
      (s.enqueuePush who addr).cancelled = s.cancelled := by
  obtain ⟨sch, fl, htake⟩ := takeDone_fields s who
  unfold enqueuePush
  rw [h]
  dsimp only
  rw [htake]
  exact ⟨rfl, List.length_append, rfl, rfl, rfl⟩

theorem takeDone_scheduler {d : Done} (h : s.nextDone .scheduler = some d) :
    s.scheduler.todo.length = (s.takeDone .scheduler).scheduler.todo.length + 1 ∧
      (s.takeDone .scheduler).flush = s.flush := by
  obtain ⟨rest, slots, hsch⟩ := nextDone_scheduler h
  unfold takeDone
  dsimp only
  rw [hsch]
  exact ⟨rfl, rfl⟩

theorem sameEnds_pick {s' : Driver} (htop : s.scheduler = .top) (h : s.pick cfg = some s') :
    s.SameEnds s' ∧ s'.accepted = s.accepted := by
  obtain ⟨-, op, rq, wq, r, w, -, rfl⟩ := pick_cases h
  refine ⟨⟨rfl, ?_, rfl, rfl⟩, rfl⟩
  rw [htop]
  rfl

theorem sameEnds_enqueueSettle (s : Driver) : s.SameEnds s.enqueueSettle ∧ s.enqueueSettle.accepted = s.accepted := by
  unfold enqueueSettle
  split
  · dsimp only
    split <;> exact ⟨⟨rfl, rfl, rfl, rfl⟩, rfl⟩
  · exact ⟨⟨rfl, rfl, rfl, rfl⟩, rfl⟩

theorem sameEnds_enqueueEnd (s : Driver) : s.SameEnds s.enqueueEnd ∧ s.enqueueEnd.accepted = s.accepted := by
  unfold enqueueEnd
  split
  · dsimp only
    split <;> exact ⟨⟨rfl, rfl, rfl, rfl⟩, rfl⟩
  · exact ⟨⟨rfl, rfl, rfl, rfl⟩, rfl⟩

theorem sameEnds_releaseFile (s : Driver) (f : ℕ) :
    s.SameEnds (s.releaseFile f) ∧ (s.releaseFile f).accepted = s.accepted := by
  unfold releaseFile
  dsimp only
  split <;> exact ⟨⟨rfl, rfl, rfl, rfl⟩, rfl⟩

end Driver

/-! ### The ledger -/

def Tally.total (t : Tally) : ℕ := t.completed + t.failed + t.cancelled

/-- Every completion counts once. -/
theorem Tally.total_add (t : Tally) (c : IoCompletion) : (t.add c).total = t.total + 1 := by
  unfold Tally.add Tally.total
  split
  · dsimp only
    omega
  · dsimp only
    omega
  all_goals split <;> dsimp only <;> omega

def Reaping.total : Reaping → ℕ
  | .idle => 0
  | .delivering t => t.total
  | .counting t => t.total

def IoCounters.ended (c : IoCounters) : ℕ := c.completed + c.failed + c.cancelled

theorem IoCounters.ended_merge (c : IoCounters) (t : Tally) : (c.merge t).ended = c.ended + t.total := by
  unfold IoCounters.merge IoCounters.ended Tally.total
  dsimp only
  omega

namespace Counted

variable {cfg : IoDriverConfig} {s : Counted}

/-- The completions that the scheduler delivers without counting them: those of refused operations. -/
def uncounted (s : Counted) : ℕ := if s.reaping.isIdle then s.driver.scheduler.todo.length else 0

structure Ledger (s : Counted) : Prop where
  queued : s.counters.queued + s.submitting.sum = s.driver.accepted.length
  ended : s.driver.enqueued.length + s.uncounted =
    s.counters.ended + s.reaping.total + s.flushed.getD 0 + s.refused
  counting : s.reaping.isCounting = true → s.driver.scheduler.todo = []
  flush : s.flushed = none → s.driver.flush = []
  cancelled : s.driver.cancelled = false → s.flushed = none
  submitted : s.counters.submitted = s.counters.readSubmitted + s.counters.writeSubmitted

theorem ledger_init (cfg : IoDriverConfig) : (countedMachine cfg).init.Ledger where
  queued := rfl
  ended := rfl
  counting := nofun
  flush := fun _ => rfl
  cancelled := fun _ => rfl
  submitted := rfl

/-- Where the ends of the driver stay, and what was accepted is accounted for, the ledger holds. -/
theorem Ledger.move (h : s.Ledger) {d : Driver} {submitting : List ℕ} (hd : s.driver.SameEnds d)
    (hacc : s.counters.queued + submitting.sum = d.accepted.length) :
    Ledger { s with driver := d, submitting := submitting } := by
  obtain ⟨henq, htodo, hfl, hcan⟩ := hd
  refine ⟨hacc, ?_, ?_, ?_, ?_, h.submitted⟩
  · have hended := h.ended
    unfold uncounted at hended ⊢
    rw [henq, htodo]
    exact hended
  · rw [htodo]
    exact h.counting
  · rw [hfl]
    exact h.flush
  · rw [hcan]
    exact h.cancelled

theorem Ledger.keep (h : s.Ledger) {d : Driver} (hd : s.driver.SameEnds d ∧ d.accepted = s.driver.accepted) :
    Ledger { s with driver := d } :=
  h.move hd.1 (hd.2 ▸ h.queued)

theorem Ledger.countSubmitted (h : s.Ledger) (isRead : Bool) : (s.countSubmitted isRead).Ledger := by
  have hsubmitted := h.submitted
  cases isRead with
  | true =>
    refine ⟨h.queued, h.ended, h.counting, h.flush, h.cancelled, ?_⟩
    show s.counters.submitted + 1 = s.counters.readSubmitted + 1 + s.counters.writeSubmitted
    omega
  | false =>
    refine ⟨h.queued, h.ended, h.counting, h.flush, h.cancelled, ?_⟩
    show s.counters.submitted + 1 = s.counters.readSubmitted + (s.counters.writeSubmitted + 1)
    omega

theorem Ledger.submit (h : s.Ledger) (batch : List IoRequest) :
    (CountedEvent.exec cfg s (.driver (.submit batch))).Ledger := by
  obtain ⟨hsame, hle⟩ := Driver.submit_keeps cfg s.driver batch
  have hqueued := h.queued
  show (noteAccepted { s with driver := s.driver.submit cfg batch }
    ((s.driver.submit cfg batch).accepted.length - s.driver.accepted.length)).Ledger
  unfold noteAccepted
  split
  · rename_i hzero
    exact h.move hsame (by omega)
  · -- the call has them until it counts them
    refine h.move hsame ?_
    rw [List.sum_append, List.sum_singleton]
    dsimp only
    omega

theorem Ledger.pick (h : s.Ledger) (hc : (CountedEvent.driver .pick).Can cfg s) :
    (CountedEvent.exec cfg s (.driver .pick)).Ledger := by
  obtain ⟨⟨htop, hsome⟩, -⟩ := hc
  obtain ⟨d, hd⟩ := Option.isSome_iff_exists.1 hsome
  rw [Scheduler.atTop_iff] at htop
  show (Counted.countSubmitted { s with driver := (s.driver.pick cfg).getD s.driver } _).Ledger
  rw [hd]
  exact (h.keep (Driver.sameEnds_pick htop hd)).countSubmitted _

/-- Where the scheduler reaps nothing, all it delivers is uncounted. -/
theorem Ledger.ended_idle (h : s.Ledger) (hidle : s.reaping.isIdle = true) :
    s.reaping.isCounting = false ∧ s.uncounted = s.driver.scheduler.todo.length ∧
      s.driver.enqueued.length + s.driver.scheduler.todo.length =
        s.counters.ended + s.flushed.getD 0 + s.refused := by
  have hended := h.ended
  have huncounted : s.uncounted = s.driver.scheduler.todo.length := if_pos hidle
  cases hreap : s.reaping with
  | idle =>
    refine ⟨rfl, huncounted, ?_⟩
    have htotal : Reaping.idle.total = 0 := rfl
    rw [huncounted, hreap, htotal] at hended
    omega
  | delivering t => rw [hreap] at hidle; cases hidle
  | counting t => rw [hreap] at hidle; cases hidle

/-- A refused operation is on its way to be delivered, and in no tally. -/
theorem Ledger.backendSubmit (h : s.Ledger) {ok : Bool} (hc : (CountedEvent.driver (.backendSubmit ok)).Can cfg s) :
    (CountedEvent.exec cfg s (.driver (.backendSubmit ok))).Ledger := by
  obtain ⟨hpicked, hidle⟩ := hc
  have hidle : s.reaping.isIdle = true := hidle
  obtain ⟨hcount, -, hended⟩ := h.ended_idle hidle
  cases hsch : s.driver.scheduler with
  | top => simp [Event.Can, Scheduler.hasPicked, hsch] at hpicked
  | delivering todo slots => simp [Event.Can, Scheduler.hasPicked, hsch] at hpicked
  | picked op =>
    cases ok with
    | true =>
      have hdriver : s.driver.backendSubmit true =
          { s.driver with backend := s.driver.backend ++ [op], scheduler := .top } := by
        unfold Driver.backendSubmit
        rw [hsch]
        rfl
      show Ledger { s with driver := s.driver.backendSubmit true }
      rw [hdriver]
      refine h.keep ⟨⟨rfl, ?_, rfl, rfl⟩, rfl⟩
      rw [hsch]
      rfl
    | false =>
      have hdriver : s.driver.backendSubmit false =
          { s.driver with scheduler := .delivering [op.complete ⟨.error, 0, []⟩] 1 } := by
        unfold Driver.backendSubmit
        rw [hsch]
        rfl
      have hzero : (Scheduler.picked op).todo.length = 0 := rfl
      have htotal : s.reaping.total = 0 := by
        cases hreap : s.reaping with
        | idle => rfl
        | delivering t => rw [hreap] at hidle; cases hidle
        | counting t => rw [hreap] at hidle; cases hidle
      rw [hsch, hzero] at hended
      show Ledger { s with driver := s.driver.backendSubmit false, refused := s.refused + 1 }
      rw [hdriver]
      refine ⟨h.queued, ?_, ?_, h.flush, h.cancelled, h.submitted⟩
      · unfold uncounted
        rw [if_pos hidle]
        show s.driver.enqueued.length + 1 = s.counters.ended + s.reaping.total + s.flushed.getD 0 + (s.refused + 1)
        omega
      · rw [hcount]
        exact fun h => absurd h Bool.false_ne_true

theorem Ledger.reap (h : s.Ledger) {ops : List Op} {result : Op → IoResult}
    (hc : (CountedEvent.driver (.reap ops result)).Can cfg s) :
    (CountedEvent.exec cfg s (.driver (.reap ops result))).Ledger := by
  obtain ⟨⟨htop, -⟩, hidle⟩ := hc
  obtain ⟨-, -, hended⟩ := h.ended_idle hidle
  rw [Scheduler.atTop_iff] at htop
  have hzero : Scheduler.top.todo.length = 0 := rfl
  rw [htop, hzero] at hended
  refine ⟨h.queued, ?_, nofun, h.flush, h.cancelled, h.submitted⟩
  show s.driver.enqueued.length + 0 = s.counters.ended + 0 + s.flushed.getD 0 + s.refused
  omega

/-- The scheduler delivers: a reaped completion goes into the tally, that of a refused operation does not. -/
theorem Ledger.pushScheduler (h : s.Ledger) {addr : Addr}
    (hc : (CountedEvent.driver (.enqueuePush .scheduler addr)).Can cfg s) :
    (CountedEvent.exec cfg s (.driver (.enqueuePush .scheduler addr))).Ledger := by
  obtain ⟨⟨-, hsome, -⟩, hcount⟩ := hc
  have hcount : s.reaping.isCounting = false := hcount
  obtain ⟨d, hd⟩ := Option.isSome_iff_exists.1 hsome
  obtain ⟨hacc, henq, hsch, hfl, hcan⟩ := Driver.enqueuePush_eq addr hd
  obtain ⟨htodo, hkeep⟩ := Driver.takeDone_scheduler hd
  rw [← hsch] at htodo
  rw [hkeep] at hfl
  have hended := h.ended
  unfold uncounted at hended
  show (noteDelivered { s with driver := s.driver.enqueuePush .scheduler addr } .scheduler
    (s.driver.nextDone .scheduler)).Ledger
  rw [hd]
  have hqueued : s.counters.queued + s.submitting.sum = (s.driver.enqueuePush .scheduler addr).accepted.length :=
    hacc ▸ h.queued
  have hflush : s.flushed = none → (s.driver.enqueuePush .scheduler addr).flush = [] := hfl ▸ h.flush
  have hcancelled : (s.driver.enqueuePush .scheduler addr).cancelled = false → s.flushed = none := hcan ▸ h.cancelled
  unfold noteDelivered
  cases hreap : s.reaping with
  | counting t => rw [hreap] at hcount; cases hcount
  | idle =>
    rw [hreap] at hended
    refine ⟨hqueued, ?_, nofun, hflush, hcancelled, h.submitted⟩
    have hidle : Reaping.idle.isIdle = true := rfl
    rw [if_pos hidle] at hended
    unfold uncounted
    dsimp only
    rw [if_pos hidle, henq]
    omega
  | delivering t =>
    rw [hreap] at hended
    refine ⟨hqueued, ?_, nofun, hflush, hcancelled, h.submitted⟩
    have hzero : s.driver.enqueued.length + 0 = s.counters.ended + t.total + s.flushed.getD 0 + s.refused := hended
    show _ + 0 = s.counters.ended + (t.add d.completion).total + s.flushed.getD 0 + s.refused
    rw [Tally.total_add, henq]
    omega

theorem Ledger.pushCanceller (h : s.Ledger) {addr : Addr}
    (hc : (CountedEvent.driver (.enqueuePush .canceller addr)).Can cfg s) :
    (CountedEvent.exec cfg s (.driver (.enqueuePush .canceller addr))).Ledger := by
  obtain ⟨⟨-, hsome, -⟩, -⟩ := hc
  obtain ⟨d, hd⟩ := Option.isSome_iff_exists.1 hsome
  obtain ⟨hacc, henq, hsch, hfl, hcan⟩ := Driver.enqueuePush_eq addr hd
  have hsame : (s.driver.takeDone .canceller).scheduler = s.driver.scheduler := rfl
  rw [hsame] at hsch
  -- only a call of `requestCancel` that has the queues has something to flush
  obtain ⟨n, hn⟩ : ∃ n, s.flushed = some n := by
    cases hflushed : s.flushed with
    | some n => exact ⟨n, rfl⟩
    | none =>
      have hnil := h.flush hflushed
      unfold Driver.nextDone at hd
      dsimp only at hd
      rw [hnil] at hd
      cases hd
  have hended := h.ended
  have hgetD : (some n).getD 0 = n := rfl
  unfold uncounted at hended
  rw [hn, hgetD] at hended
  show (noteDelivered { s with driver := s.driver.enqueuePush .canceller addr } .canceller
    (s.driver.nextDone .canceller)).Ledger
  rw [hd]
  unfold noteDelivered
  dsimp only
  rw [hn]
  refine ⟨hacc ▸ h.queued, ?_, ?_, nofun, ?_, h.submitted⟩
  · unfold uncounted
    dsimp only
    rw [hsch, henq]
    show _ = s.counters.ended + s.reaping.total + (n + 1) + s.refused
    omega
  · dsimp only
    rw [hsch]
    exact h.counting
  · intro hfalse
    have hnone := h.cancelled (hcan ▸ hfalse)
    rw [hn] at hnone
    cases hnone

theorem Ledger.finish (h : s.Ledger) (hc : (CountedEvent.driver .finish).Can cfg s) :
    (CountedEvent.exec cfg s (.driver .finish)).Ledger := by
  obtain ⟨⟨hdone, -⟩, -⟩ := hc
  unfold Scheduler.hasDelivered at hdone
  split at hdone
  swap
  · cases hdone
  rename_i slots hsch
  have hdriver : s.driver.finish = { s.driver with inFlight := s.driver.inFlight - slots, scheduler := .top } := by
    unfold Driver.finish
    rw [hsch]
  have hsame : s.driver.SameEnds s.driver.finish := by
    rw [hdriver]
    refine ⟨rfl, ?_, rfl, rfl⟩
    rw [hsch]
    rfl
  have hkeep : Ledger { s with driver := s.driver.finish } :=
    h.keep ⟨hsame, by rw [hdriver]⟩
  show (noteFinished { s with driver := s.driver.finish }).Ledger
  unfold noteFinished
  split
  · rename_i t hreap
    have hended := hkeep.ended
    unfold uncounted at hended
    rw [hreap] at hended
    refine ⟨hkeep.queued, hended, fun _ => ?_, hkeep.flush, hkeep.cancelled, hkeep.submitted⟩
    dsimp only
    rw [hdriver]
    rfl
  · exact hkeep

/-- A cancel puts all that is queued on its way. -/
theorem Ledger.requestCancel (h : s.Ledger) : (CountedEvent.exec cfg s (.driver .requestCancel)).Ledger := by
  show (if s.driver.cancelled = true then { s with driver := s.driver.requestCancel }
    else { s with driver := s.driver.requestCancel, flushed := some 0 }).Ledger
  unfold Driver.requestCancel
  cases hcan : s.driver.cancelled with
  | true => exact h
  | false =>
    have hnone := h.cancelled hcan
    have hended := h.ended
    unfold uncounted at hended
    rw [hnone] at hended
    exact ⟨h.queued, hended, h.counting, nofun, nofun, h.submitted⟩

/-! ### The sections under `countMu_` -/

theorem Ledger.countQueued (h : s.Ledger) {n : ℕ} (hn : n ∈ s.submitting) : (s.countQueued n).Ledger := by
  refine ⟨?_, h.ended, h.counting, h.flush, h.cancelled, h.submitted⟩
  have hsum : n + (s.submitting.erase n).sum = s.submitting.sum := by
    rw [← List.sum_cons]
    exact (List.perm_cons_erase hn).sum_nat.symm
  have hqueued := h.queued
  show s.counters.queued + n + (s.submitting.erase n).sum = s.driver.accepted.length
  omega

theorem Ledger.countReaped (h : s.Ledger) : s.countReaped.Ledger := by
  unfold Counted.countReaped
  split
  · rename_i t hreap
    have hended := h.ended
    have htodo := h.counting (by rw [hreap]; rfl)
    unfold uncounted at hended
    rw [hreap] at hended
    have hzero : s.driver.enqueued.length + 0 = s.counters.ended + t.total + s.flushed.getD 0 + s.refused := hended
    refine ⟨h.queued, ?_, nofun, h.flush, h.cancelled, h.submitted⟩
    show s.driver.enqueued.length + s.driver.scheduler.todo.length =
      (s.counters.merge t).ended + 0 + s.flushed.getD 0 + s.refused
    rw [htodo, IoCounters.ended_merge, List.length_nil]
    omega
  · exact h

theorem Ledger.countFlushed (h : s.Ledger) (hfl : s.driver.flush = []) : s.countFlushed.Ledger := by
  unfold Counted.countFlushed
  split
  · rename_i n hn
    have hended := h.ended
    have hgetD : (some n).getD 0 = n := rfl
    unfold uncounted at hended
    rw [hn, hgetD] at hended
    refine ⟨h.queued, ?_, h.counting, fun _ => hfl, fun _ => rfl, h.submitted⟩
    show s.driver.enqueued.length + _ =
      s.counters.completed + s.counters.failed + (s.counters.cancelled + n) + s.reaping.total + 0 + s.refused
    unfold IoCounters.ended at hended
    unfold uncounted
    dsimp only
    omega
  · exact h

/-- **Every step keeps the ledger.** -/
theorem ledger_exec (h : s.Ledger) {e : CountedEvent} (hc : e.Can cfg s) : (e.exec cfg s).Ledger := by
  cases e with
  | countQueued n => exact h.countQueued hc
  | countReaped => exact h.countReaped
  | countFlushed => exact h.countFlushed hc.2.1
  | driver e =>
    cases e with
    | submit batch => exact h.submit batch
    | pick => exact h.pick hc
    | backendSubmit ok => exact h.backendSubmit hc
    | reap ops result => exact h.reap hc
    | finish => exact h.finish hc
    | enqueuePush who addr =>
      cases who with
      | scheduler => exact h.pushScheduler hc
      | canceller => exact h.pushCanceller hc
    | requestCancel => exact h.requestCancel
    | enqueueSettle => exact h.keep (Driver.sameEnds_enqueueSettle s.driver)
    | enqueueEnd => exact h.keep (Driver.sameEnds_enqueueEnd s.driver)
    | drainCompletions => exact h.keep ⟨⟨rfl, rfl, rfl, rfl⟩, rfl⟩
    | drainCompletionsForFile f => exact h.keep ⟨⟨rfl, rfl, rfl, rfl⟩, rfl⟩
    | releaseFile f => exact h.keep (Driver.sameEnds_releaseFile s.driver f)
    | releaseNow f => exact h.keep ⟨⟨rfl, rfl, rfl, rfl⟩, rfl⟩

theorem ledger_reach {ok : Counted → CountedEvent → Prop} (h : (countedMachine cfg).Reach ok s) : s.Ledger :=
  h.invariant (I := Ledger) (ledger_init cfg) fun _ _ hs hc _ => ledger_exec hs hc

/-! ### At rest -/

/-- The counters change nothing for the driver. -/
theorem driver_exec (cfg : IoDriverConfig) (s : Counted) (e : Event) :
    (CountedEvent.exec cfg s (.driver e)).driver = e.exec cfg s.driver := by
  cases e with
  | submit batch =>
    show (noteAccepted _ _).driver = _
    unfold noteAccepted
    split <;> rfl
  | backendSubmit ok => cases ok <;> rfl
  | enqueuePush who addr =>
    show (noteDelivered _ _ _).driver = _
    unfold noteDelivered
    split
    · split <;> rfl
    · rfl
    · rfl
  | finish =>
    show (noteFinished _).driver = _
    unfold noteFinished
    split <;> rfl
  | requestCancel =>
    show (if s.driver.cancelled = true then _ else _ : Counted).driver = _
    split <;> rfl
  | _ => rfl

/-- A run with counters is a run of the driver. -/
theorem driver_reach {ok : Counted → CountedEvent → Prop} (h : (countedMachine cfg).Reach ok s) :
    (machine cfg).Reach (fun _ _ => True) s.driver := by
  induction h with
  | init => exact .init
  | @step s e _ hc _ ih =>
    cases e with
    | driver e =>
      have hstep : (machine cfg).Reach (fun _ _ => True) _ := .step ih hc.1 trivial
      exact (driver_exec cfg s e).symm ▸ hstep
    | countQueued n => exact ih
    | countReaped =>
      have hsame : (CountedEvent.countReaped.exec cfg s).driver = s.driver := by
        show s.countReaped.driver = s.driver
        unfold Counted.countReaped
        split <;> rfl
      exact hsame.symm ▸ ih
    | countFlushed =>
      have hsame : (CountedEvent.countFlushed.exec cfg s).driver = s.driver := by
        show s.countFlushed.driver = s.driver
        unfold Counted.countFlushed
        split <;> rfl
      exact hsame.symm ▸ ih

/-- At rest everything accepted is delivered. -/
theorem enqueued_atRest {d : Driver} (h : d.Inv) (hr : d.readQ = []) (hw : d.writeQ = []) (hin : d.inFlight = 0)
    (htop : d.scheduler = .top) (hfl : d.flush = []) : d.enqueued.length = d.accepted.length := by
  have hback : d.backend = [] := by
    have hslots := h.slots.inFlight
    rw [hin] at hslots
    exact List.length_eq_zero_iff.1 (by omega)
  have hpending : d.pending = [] := by
    unfold Driver.pending
    rw [hr, hw, hback, htop, hfl]
    rfl
  have hlen := h.custody.conserve.length_eq
  rw [hpending, List.nil_append, List.length_map, List.length_map] at hlen
  exact hlen

/-- **At rest** exactly the refused operations are not counted. -/
theorem balance_atRest {ok : Counted → CountedEvent → Prop} (h : (countedMachine cfg).Reach ok s) (hrest : s.AtRest) :
    s.counters.queued = s.counters.completed + s.counters.failed + s.counters.cancelled + s.refused := by
  have hledger := ledger_reach h
  have htop := Scheduler.atTop_iff.1 hrest.scheduler
  have hall := enqueued_atRest (Driver.inv_reach (driver_reach h)) hrest.readQ hrest.writeQ hrest.inFlight htop
    (hledger.flush hrest.flushed)
  obtain ⟨-, -, hended⟩ := hledger.ended_idle hrest.reaping
  have hqueued := hledger.queued
  have hzero : Scheduler.top.todo.length = 0 := rfl
  have hgetD : (none : Option ℕ).getD 0 = 0 := rfl
  rw [hrest.submitting, List.sum_nil] at hqueued
  rw [htop, hzero, hrest.flushed, hgetD] at hended
  unfold IoCounters.ended at hended
  omega

/-- A backend that accepts everything has refused nothing. -/
theorem refused_of_accepts (h : (countedMachine cfg).Reach (fun _ e => e.Accepts) s) : s.refused = 0 := by
  refine h.invariant (I := fun s => s.refused = 0) rfl fun s e hs _ hok => ?_
  have hkeep : (e.exec cfg s).refused = s.refused := by
    cases e with
    | countQueued n => rfl
    | countReaped =>
      show s.countReaped.refused = _
      unfold Counted.countReaped
      split <;> rfl
    | countFlushed =>
      show s.countFlushed.refused = _
      unfold Counted.countFlushed
      split <;> rfl
    | driver e =>
      cases e with
      | backendSubmit ok =>
        have htrue : ok = true := hok
        subst htrue
        rfl
      | submit batch =>
        show (noteAccepted _ _).refused = _
        unfold noteAccepted
        split <;> rfl
      | enqueuePush who addr =>
        show (noteDelivered _ _ _).refused = _
        unfold noteDelivered
        split
        · split <;> rfl
        · rfl
        · rfl
      | finish =>
        show (noteFinished _).refused = _
        unfold noteFinished
        split <;> rfl
      | requestCancel =>
        show (if s.driver.cancelled = true then _ else _ : Counted).refused = _
        split <;> rfl
      | _ => rfl
  exact hkeep.trans hs

/-- **The counters at rest.** In every run in which the backend refuses nothing, what was queued is completed,
failed or cancelled; in any run this is so exactly if nothing was refused. What was submitted is reads and
writes, always. -/
theorem counters_atRest (cfg : IoDriverConfig) {s : Counted} (hrest : s.AtRest) :
    ((countedMachine cfg).Reach (fun _ e => e.Accepts) s → s.Balanced) ∧
      ((countedMachine cfg).Reach (fun _ _ => True) s →
        (s.Balanced ↔ s.refused = 0) ∧
          s.counters.submitted = s.counters.readSubmitted + s.counters.writeSubmitted) := by
  constructor
  · intro h
    have hbalance := balance_atRest h hrest
    rw [refused_of_accepts h] at hbalance
    exact hbalance
  · intro h
    have hbalance := balance_atRest h hrest
    refine ⟨?_, (ledger_reach h).submitted⟩
    unfold Balanced
    omega

/-- One read, from the queue to its completion; the backend takes it or refuses it. -/
def oneRead (ok : Bool) : List CountedEvent :=
  let read : IoRequest := { fileId := 1, length := 8 }
  [.driver (.submit [read]), .countQueued 1, .driver .pick, .driver (.backendSubmit ok)] ++
    (if ok then [.driver (.reap [⟨0, read⟩] fun _ => ⟨.ok, 8, List.replicate 8 0⟩)] else []) ++
    [.driver (.enqueuePush .scheduler 0), .driver .enqueueSettle, .driver .enqueueEnd, .driver .finish] ++
    if ok then [.countReaped] else []

theorem atRest_oneRead (ok : Bool) : ((countedMachine {}).run (countedMachine {}).init (oneRead ok)).AtRest := by
  cases ok <;> exact ⟨rfl, rfl, rfl, rfl, rfl, rfl, rfl, rfl, rfl⟩

theorem counters_oneRead : ((countedMachine {}).run (countedMachine {}).init (oneRead true)).Balanced :=
  (counters_atRest {} (atRest_oneRead true)).1 (Runs.Machine.reach_run (by decide))

/-- A refused read is delivered as an error, and no counter says how it ended. -/
theorem counters_refused : ¬ ∀ s : Counted, (countedMachine {}).Reach (fun _ _ => True) s → s.AtRest → s.Balanced := by
  intro h
  have hreach : (countedMachine {}).Reach (fun _ _ => True) ((countedMachine {}).run (countedMachine {}).init (oneRead false)) :=
    Runs.Machine.reach_run (by decide)
  have hbalanced := h _ hreach (atRest_oneRead false)
  exact absurd hbalanced (by unfold Balanced; decide)

end Counted

end FastClone.DiskIo
