import FastClone.Proof.DiskCompletions
import Mathlib.Data.Fintype.EquivFin

/-!
# Every accepted disk operation completes exactly once

Each step of the driver moves operations between the queues, the scheduler, the backend, the
containers and what the drains have returned. `Inv` says where they are in every state of every
run; `work` is what the driver has left to do by itself.
-/

namespace FastClone.DiskIo

/-! ### Where the operations are -/

/-- The operation the scheduler has picked. -/
def Scheduler.ops : Scheduler → List Op
  | .picked op => [op]
  | _ => []

/-- The completions the scheduler has yet to deliver. -/
def Scheduler.todo : Scheduler → List Done
  | .delivering todo _ => todo
  | _ => []

/-- The slots in flight the scheduler itself holds. -/
def Scheduler.slots : Scheduler → ℕ
  | .top => 0
  | .picked _ => 1
  | .delivering _ slots => slots

theorem Scheduler.atTop_iff {sch : Scheduler} : sch.atTop ↔ sch = .top := by
  cases sch <;> simp [Scheduler.atTop]

namespace Driver

variable {cfg : IoDriverConfig} {s s' : Driver}

/-- The operations accepted and not enqueued. -/
def pending (s : Driver) : List (ℕ × Ident) :=
  (s.readQ ++ s.writeQ ++ s.scheduler.ops ++ s.backend).map Op.ticket ++
    (s.scheduler.todo ++ s.flush).map Done.ticket

/-- Those of a file. -/
def pendingOf (s : Driver) (f : ℕ) : ℕ := s.pending.countP fun t => t.2.fileId = f

/-- An enqueued completion of the file whose call has not come to `countMu_`. -/
def unsettled (s : Driver) (f : ℕ) : ℕ :=
  match s.enqueuing with
  | some (.pushed _ g) => if g = f then 1 else 0
  | _ => 0

/-- Every accepted operation is pending or enqueued, with its own number and fields, and
`fileOutstanding_` counts those of each file that are not settled. -/
structure Custody (s : Driver) : Prop where
  numbered : s.accepted.map Op.serial = List.range s.accepted.length
  conserve : (s.pending ++ s.enqueued.map Done.ticket).Perm (s.accepted.map Op.ticket)
  outstanding : ∀ f, s.fileOutstanding f = s.pendingOf f + s.unsettled f

/-- What is enqueued is held, delivered or discarded, and what is held is in the order of
arrival. -/
structure Shelved (s : Driver) (l : List (Addr × Done)) : Prop where
  holds : s.done.Holds l
  order : (l.map Prod.snd).Sublist s.enqueued
  parts : s.enqueued.Perm (l.map Prod.snd ++ s.delivered ++ s.discarded.map Prod.snd)

/-- Completions are discarded, and releases deferred, only where `releaseFile` was called. -/
structure Releases (s : Driver) : Prop where
  own : ∀ p ∈ s.discarded, p.2.fileId = p.1 ∧ p.1 ∈ s.released
  pending : ∀ f ∈ s.pendingRelease, 0 < s.fileOutstanding f ∧ f ∈ s.released
  releasing : ∀ f ∈ s.releasing, f ∈ s.released
  settled : ∀ who f, s.enqueuing = some (.settled who f true) → f ∈ s.released

/-- The slots in flight, and the queues after a cancel. -/
structure Slots (s : Driver) : Prop where
  inFlight : s.inFlight = s.backend.length + s.scheduler.slots
  flush : s.cancelled = false → s.flush = []
  queues : s.cancelled = true → s.readQ = [] ∧ s.writeQ = []

/-! ### What the sections do -/

theorem popSmall_perm {q rest : List Op} {op : Op} (h : popSmall q = some (op, rest)) :
    q.Perm (op :: rest) := by
  induction q generalizing rest with
  | nil => cases h
  | cons x q ih =>
    rw [popSmall] at h
    split at h
    · cases h
      exact .refl _
    · obtain ⟨r, hr, hrest⟩ := Option.map_eq_some_iff.1 h
      cases hrest
      exact ((ih hr).cons x).trans (.swap _ _ _)

/-- `PopPreferSmall` takes one operation out of a queue. -/
theorem popPreferSmall_perm {q rest : List Op} {op : Op} (h : popPreferSmall q = some (op, rest)) :
    q.Perm (op :: rest) := by
  unfold popPreferSmall at h
  split at h
  · rename_i r hr
    cases h
    exact popSmall_perm hr
  · split at h
    · cases h
    · cases h
      exact .refl _

/-- It finds one in every queue that is not empty. -/
theorem popPreferSmall_isSome {q : List Op} (h : q ≠ []) : (popPreferSmall q).isSome := by
  unfold popPreferSmall
  split
  · rfl
  · cases q with
    | nil => exact absurd rfl h
    | cons op q => rfl

theorem renewCredit_eq (cfg : IoDriverConfig) (s : Driver) :
    ∃ r w, s.renewCredit cfg = { s with readCredit := r, writeCredit := w } := by
  unfold renewCredit
  split
  · exact ⟨_, _, rfl⟩
  · exact ⟨s.readCredit, s.writeCredit, rfl⟩

/-- **A pick** moves one operation from a queue to the scheduler and takes a slot. -/
theorem pick_cases (h : s.pick cfg = some s') :
    s.cancelled = false ∧ ∃ op readQ writeQ r w,
      (s.readQ ++ s.writeQ).Perm (op :: (readQ ++ writeQ)) ∧
      s' = { s with
        readQ := readQ
        writeQ := writeQ
        readCredit := r
        writeCredit := w
        inFlight := s.inFlight + 1
        scheduler := .picked op } := by
  obtain ⟨r, w, hrenew⟩ := renewCredit_eq cfg s
  unfold pick at h
  split at h
  · cases h
  · rename_i hguard
    push Not at hguard
    refine ⟨by simpa using hguard.1, ?_⟩
    rw [hrenew] at h
    dsimp only at h
    split at h
    · obtain ⟨⟨op, rest⟩, hpop, rfl⟩ := Option.map_eq_some_iff.1 h
      refine ⟨op, rest, s.writeQ, r - 1, w, ?_, rfl⟩
      exact (popPreferSmall_perm hpop).append_right _
    · obtain ⟨⟨op, rest⟩, hpop, rfl⟩ := Option.map_eq_some_iff.1 h
      refine ⟨op, s.readQ, rest, r, w - 1, ?_, rfl⟩
      exact ((popPreferSmall_perm hpop).append_left _).trans List.perm_middle

/-- A pick finds an operation where one waits and a slot is free. -/
theorem pick_isSome (hc : s.cancelled = false) (hf : s.inFlight < cfg.maxInFlight)
    (hq : s.readQ ++ s.writeQ ≠ []) : (s.pick cfg).isSome := by
  obtain ⟨r, w, hrenew⟩ := renewCredit_eq cfg s
  unfold pick
  rw [if_neg (by simp [hc, hf]), hrenew]
  dsimp only
  have hside : ∀ t : Driver, t.readQ ++ t.writeQ ≠ [] →
      if t.isRead = true then t.readQ ≠ [] else t.writeQ ≠ [] := by
    intro t ht
    unfold isRead
    by_cases hr : t.readQ = []
    · simpa [hr] using ht
    · by_cases hw : t.writeQ = []
      · simpa [hw] using hr
      · simp only [hr, hw, ne_eq, not_false_eq_true, and_self, if_true]
        split <;> trivial
  have := hside { s with readCredit := r, writeCredit := w } hq
  split at this
  · rename_i hread
    rw [if_pos hread, Option.isSome_map]
    exact popPreferSmall_isSome this
  · rename_i hread
    rw [if_neg hread, Option.isSome_map]
    exact popPreferSmall_isSome this

theorem ticket_complete (op : Op) (res : IoResult) : (op.complete res).ticket = op.ticket := rfl

/-! ### Custody -/

/-- A step that only moves operations among the places keeps the accounts. -/
theorem Custody.move (h : s.Custody) (hp : s'.pending.Perm s.pending)
    (hacc : s'.accepted = s.accepted) (henq : s'.enqueued = s.enqueued)
    (hout : s'.fileOutstanding = s.fileOutstanding) (hun : s'.enqueuing = s.enqueuing) :
    s'.Custody where
  numbered := by
    rw [hacc]
    exact h.numbered
  conserve := by
    rw [hacc, henq]
    exact (hp.append_right _).trans h.conserve
  outstanding := by
    intro f
    have hpo : s'.pendingOf f = s.pendingOf f := hp.countP_eq _
    have hus : s'.unsettled f = s.unsettled f := by
      unfold unsettled
      rw [hun]
    rw [hout, hpo, hus]
    exact h.outstanding f

theorem pending_accept (s : Driver) (req : IoRequest) :
    (s.accept req).pending.Perm ((s.accepted.length, req.ident) :: s.pending) := by
  unfold accept pending
  dsimp only
  cases req.kind with
  | read =>
    simp only [List.map_append, List.append_assoc, List.map_cons, List.singleton_append]
    exact List.perm_middle
  | write =>
    simp only [List.map_append, List.append_assoc, List.map_cons, List.singleton_append]
    rw [← List.append_assoc, ← List.append_assoc (List.map Op.ticket s.readQ)]
    exact List.perm_middle

theorem accept_eq (s : Driver) (req : IoRequest) :
    ∃ readQ writeQ, s.accept req = { s with
      readQ := readQ
      writeQ := writeQ
      accepted := s.accepted ++ [⟨s.accepted.length, req⟩]
      fileOutstanding :=
        Function.update s.fileOutstanding req.fileId (s.fileOutstanding req.fileId + 1) } := by
  unfold accept
  dsimp only
  split <;> exact ⟨_, _, rfl⟩

/-- An accepted request is pending, with the next number. -/
theorem Custody.accept (h : s.Custody) (req : IoRequest) : (s.accept req).Custody := by
  have hp := pending_accept s req
  have hpo : ∀ f, (s.accept req).pendingOf f = s.pendingOf f + if req.fileId = f then 1 else 0 := by
    intro f
    unfold pendingOf
    rw [hp.countP_eq, List.countP_cons]
    by_cases hf : req.fileId = f <;> simp [IoRequest.ident, hf]
  obtain ⟨rq, wq, heq⟩ := accept_eq s req
  rw [heq] at hp hpo ⊢
  refine ⟨?_, ?_, ?_⟩
  · dsimp only
    rw [List.map_append, h.numbered, List.length_append]
    exact (List.range_succ).symm
  · dsimp only
    rw [List.map_append]
    refine (hp.append_right _).trans ?_
    exact (h.conserve.cons _).trans (List.perm_append_singleton _ _).symm
  · intro f
    rw [hpo f]
    have := h.outstanding f
    show Function.update s.fileOutstanding _ _ f = s.pendingOf f + _ + s.unsettled f
    by_cases hf : f = req.fileId
    · subst hf
      rw [Function.update_self, if_pos rfl]
      omega
    · rw [Function.update_of_ne hf, if_neg fun e => hf e.symm]
      omega

/-- A pushed completion leaves the pending ones; it is not settled yet. -/
theorem Custody.push (h : s.Custody) {d : Done} {who : Caller}
    (hp : s.pending.Perm (d.ticket :: s'.pending)) (hidle : s.enqueuing = none)
    (hacc : s'.accepted = s.accepted) (henq : s'.enqueued = s.enqueued ++ [d])
    (hout : s'.fileOutstanding = s.fileOutstanding)
    (hun : s'.enqueuing = some (.pushed who d.fileId)) : s'.Custody where
  numbered := by
    rw [hacc]
    exact h.numbered
  conserve := by
    rw [hacc, henq, List.map_append]
    refine List.Perm.trans ?_ h.conserve
    refine List.Perm.trans ?_ (hp.symm.append_right _)
    rw [← List.append_assoc]
    exact List.perm_append_singleton _ _
  outstanding := by
    intro f
    have hpo : s.pendingOf f = s'.pendingOf f + if d.fileId = f then 1 else 0 := by
      unfold pendingOf
      rw [hp.countP_eq, List.countP_cons]
      by_cases hf : d.completion.fileId = f <;>
        simp [Done.ticket, IoCompletion.ident, Done.fileId, hf]
    have hus : s.unsettled f = 0 := by
      unfold unsettled
      rw [hidle]
    have hus' : s'.unsettled f = if d.fileId = f then 1 else 0 := by
      unfold unsettled
      rw [hun]
    rw [hout, h.outstanding f, hpo, hus, hus']
    omega

/-- The scheduler has a completion in hand only while it delivers. -/
theorem nextDone_scheduler {d : Done} (h : s.nextDone .scheduler = some d) :
    ∃ rest slots, s.scheduler = .delivering (d :: rest) slots := by
  unfold nextDone at h
  dsimp only at h
  cases hsch : s.scheduler with
  | top =>
    rw [hsch] at h
    nomatch h
  | picked op =>
    rw [hsch] at h
    nomatch h
  | delivering todo slots =>
    rw [hsch] at h
    obtain ⟨rest, rfl⟩ := List.head?_eq_some_iff.1 h
    exact ⟨rest, slots, rfl⟩

/-- What a thread delivers next is pending, and taking it off takes just that. -/
theorem pending_takeDone {who : Caller} {d : Done} (h : s.nextDone who = some d) :
    s.pending.Perm (d.ticket :: (s.takeDone who).pending) := by
  cases who with
  | canceller =>
    obtain ⟨rest, hrest⟩ := List.head?_eq_some_iff.1 h
    unfold takeDone pending
    rw [hrest]
    simp only [List.map_append, List.map_cons, List.tail_cons, ← List.append_assoc]
    exact List.perm_middle
  | scheduler =>
    obtain ⟨rest, slots, hsch⟩ := nextDone_scheduler h
    unfold takeDone pending
    dsimp only
    rw [hsch]
    simp only [Scheduler.todo, Scheduler.ops, List.map_append, List.map_cons, List.tail_cons,
      List.cons_append]
    exact List.perm_middle

theorem takeDone_fields (s : Driver) (who : Caller) :
    ∃ scheduler flush, s.takeDone who = { s with scheduler := scheduler, flush := flush } := by
  unfold takeDone
  cases who with
  | canceller => exact ⟨_, _, rfl⟩
  | scheduler =>
    dsimp only
    split
    · exact ⟨_, _, rfl⟩
    · exact ⟨_, _, rfl⟩

theorem Custody.enqueuePush (h : s.Custody) {who : Caller} (addr : Addr)
    (hidle : s.enqueuing = none) : (s.enqueuePush who addr).Custody := by
  unfold Driver.enqueuePush
  cases hd : s.nextDone who with
  | none => exact h
  | some d =>
    have hp := pending_takeDone hd
    obtain ⟨sch, fl, htake⟩ := takeDone_fields s who
    rw [htake] at hp ⊢
    exact h.push hp hidle rfl rfl rfl rfl

/-- The section under `countMu_` takes the completion off the count of its file. -/
theorem Custody.enqueueSettle (h : s.Custody) : s.enqueueSettle.Custody := by
  unfold Driver.enqueueSettle
  split
  · rename_i who f hpush
    have hus : ∀ g, s.unsettled g = if f = g then 1 else 0 := by
      intro g
      unfold unsettled
      rw [hpush]
    have hcount : ∀ g, Function.update s.fileOutstanding f (s.fileOutstanding f - 1) g =
        s.pendingOf g := by
      intro g
      have hg := h.outstanding g
      rw [hus g] at hg
      by_cases hfg : g = f
      · subst hfg
        rw [Function.update_self, hg]
        simp
      · rw [Function.update_of_ne hfg, hg, if_neg fun e => hfg e.symm]
        rfl
    dsimp only
    split
    · exact ⟨h.numbered, h.conserve, hcount⟩
    · exact ⟨h.numbered, h.conserve, hcount⟩
  · exact h

theorem pending_pick (h : s.pick cfg = some s') (htop : s.scheduler = .top) :
    s'.pending.Perm s.pending := by
  obtain ⟨-, op, rq, wq, r, w, hperm, rfl⟩ := pick_cases h
  unfold pending
  rw [htop]
  dsimp only [Scheduler.ops, Scheduler.todo]
  refine List.Perm.append_right _ (List.Perm.map _ ?_)
  refine List.Perm.append_right _ ?_
  rw [List.append_nil]
  exact (List.perm_append_singleton _ _).trans hperm.symm

theorem pending_backendSubmit (s : Driver) (ok : Bool) :
    (s.backendSubmit ok).pending.Perm s.pending := by
  unfold backendSubmit
  split
  · rename_i op hsch
    unfold pending
    cases ok with
    | true =>
      rw [if_pos rfl, hsch]
      dsimp only [Scheduler.ops, Scheduler.todo]
      refine List.Perm.append_right _ (List.Perm.map _ ?_)
      rw [List.append_nil, List.append_assoc (s.readQ ++ s.writeQ)]
      exact List.Perm.append_left _ List.perm_append_comm
    | false =>
      rw [if_neg Bool.false_ne_true, hsch]
      dsimp only [Scheduler.ops, Scheduler.todo]
      simp only [List.map_append, List.map_cons, List.append_nil, List.nil_append,
        ticket_complete, List.append_assoc, List.singleton_append]
      refine List.Perm.append_left _ (List.Perm.append_left _ ?_)
      exact List.perm_middle
  · exact .refl _

theorem pending_reap {ops : List Op} {result : Op → IoResult} (h : ops.Subperm s.backend)
    (htop : s.scheduler = .top) :
    (s.reap ops result).pending.Perm s.pending := by
  have hback : s.backend.Perm (s.backend.diff ops ++ ops) :=
    (List.subperm_append_diff_self_of_count_le
      (fun x hx => List.subperm_ext_iff.1 h x hx)).symm.trans List.perm_append_comm
  unfold pending reap
  rw [htop]
  dsimp only [Scheduler.ops, Scheduler.todo]
  simp only [List.append_nil, List.nil_append, List.map_append, List.map_map, List.append_assoc]
  refine List.Perm.append_left _ (List.Perm.append_left _ ?_)
  rw [← List.append_assoc]
  refine List.Perm.append_right _ ?_
  rw [show (Done.ticket ∘ fun op => op.complete (result op)) = Op.ticket from rfl, ← List.map_append]
  exact (hback.map _).symm

theorem pending_requestCancel (hf : s.cancelled = false → s.flush = []) :
    s.requestCancel.pending.Perm s.pending := by
  unfold requestCancel
  cases hc : s.cancelled with
  | true => exact .refl _
  | false =>
    rw [if_neg Bool.false_ne_true]
    unfold pending
    dsimp only
    rw [hf hc]
    simp only [List.map_append, List.map_map, List.nil_append, List.append_nil]
    rw [show (Done.ticket ∘ fun op : Op => op.complete ⟨.cancelled, 0, []⟩) = Op.ticket from rfl]
    rw [← List.append_assoc]
    refine List.perm_append_comm.trans ?_
    simp only [List.append_assoc]
    exact .refl _

/-! ### The containers and the releases -/

theorem Shelved.keep {l : List (Addr × Done)} (h : s.Shelved l) (hdone : s'.done = s.done)
    (henq : s'.enqueued = s.enqueued) (hdel : s'.delivered = s.delivered)
    (hdis : s'.discarded = s.discarded) : s'.Shelved l := by
  refine ⟨?_, ?_, ?_⟩
  · rw [hdone]
    exact h.holds
  · rw [henq]
    exact h.order
  · rw [henq, hdel, hdis]
    exact h.parts

/-- Filtering by file splits a list into what leaves it and what stays. -/
theorem perm_filter_file (l : List (Addr × Done)) (f : ℕ) :
    (l.map Prod.snd).Perm
      ((l.filter fun p => p.2.fileId ≠ f).map Prod.snd ++
        (l.filter fun p => p.2.fileId = f).map Prod.snd) := by
  rw [← List.map_append]
  refine List.Perm.map _ (List.Perm.trans ?_ List.perm_append_comm)
  have := (List.filter_append_perm (fun p : Addr × Done => decide (p.2.fileId = f)) l).symm
  simpa using this

theorem Shelved.enqueuePush {l : List (Addr × Done)} (h : s.Shelved l) {who : Caller} {addr : Addr}
    (haddr : s.done.nodes addr = none) : ∃ l', (s.enqueuePush who addr).Shelved l' := by
  unfold Driver.enqueuePush
  cases hd : s.nextDone who with
  | none => exact ⟨l, h⟩
  | some d =>
    obtain ⟨sch, fl, htake⟩ := takeDone_fields s who
    rw [htake]
    refine ⟨l ++ [(addr, d)], h.holds.push haddr d, ?_, ?_⟩
    · rw [List.map_append]
      exact h.order.append (List.Sublist.refl _)
    · rw [List.map_append]
      refine (h.parts.append_right [d]).trans ?_
      simp only [List.append_assoc]
      refine List.Perm.append_left _ ?_
      rw [← List.append_assoc]
      exact List.perm_append_comm

theorem Shelved.drainCompletions {l : List (Addr × Done)} (h : s.Shelved l) :
    s.drainCompletions.Shelved [] := by
  obtain ⟨c, hc, hholds⟩ := h.holds.drainCompletions
  unfold Driver.drainCompletions
  rw [hc]
  refine ⟨hholds, List.nil_sublist _, ?_⟩
  refine h.parts.trans (List.Perm.append_right _ ?_)
  exact List.perm_append_comm

theorem Shelved.drainCompletionsForFile {l : List (Addr × Done)} (h : s.Shelved l) (f : ℕ) :
    ∃ l', (s.drainCompletionsForFile f).Shelved l' := by
  obtain ⟨c, hc, hholds⟩ := h.holds.drainCompletionsForFile f
  unfold Driver.drainCompletionsForFile
  rw [hc]
  refine ⟨_, hholds, ?_, ?_⟩
  · exact (List.filter_sublist.map Prod.snd).trans h.order
  · refine h.parts.trans (List.Perm.append_right _ ?_)
    refine ((perm_filter_file l f).append_right _).trans ?_
    rw [List.append_assoc]
    exact List.Perm.append_left _ List.perm_append_comm

theorem Shelved.releaseFileLocked {l : List (Addr × Done)} (h : s.Shelved l) (f : ℕ) :
    ∃ l', (s.releaseFileLocked f).Shelved l' := by
  obtain ⟨c, hc, hholds⟩ := h.holds.releaseFileLocked f
  unfold Driver.releaseFileLocked
  rw [hc]
  refine ⟨_, hholds, ?_, ?_⟩
  · exact (List.filter_sublist.map Prod.snd).trans h.order
  · refine h.parts.trans ?_
    dsimp only
    rw [List.map_append, List.map_map]
    rw [show (Prod.snd ∘ fun d : Done => (f, d)) = id from rfl, List.map_id]
    refine (((perm_filter_file l f).append_right _).append_right _).trans ?_
    simp only [List.append_assoc]
    refine List.Perm.append_left _ ?_
    exact List.perm_append_comm.trans (by simp only [List.append_assoc]; exact .refl _)

theorem Releases.keep (h : s.Releases) (hdis : s'.discarded = s.discarded)
    (hpend : s'.pendingRelease = s.pendingRelease)
    (hout : ∀ f, s.fileOutstanding f ≤ s'.fileOutstanding f) (hrel : s'.releasing = s.releasing)
    (hset : ∀ who f, s'.enqueuing = some (.settled who f true) → f ∈ s.released)
    (hreleased : s'.released = s.released) : s'.Releases := by
  refine ⟨?_, ?_, ?_, ?_⟩
  · rw [hdis, hreleased]
    exact h.own
  · intro f hf
    rw [hpend] at hf
    rw [hreleased]
    exact ⟨(h.pending f hf).1.trans_le (hout f), (h.pending f hf).2⟩
  · rw [hrel, hreleased]
    exact h.releasing
  · rw [hreleased]
    exact hset

/-- A release of a file that was released drops only completions of this file. -/
theorem Releases.releaseFileLocked {l : List (Addr × Done)} (h : s.Releases) (hl : s.Shelved l)
    {f : ℕ} (hf : f ∈ s.released) : (s.releaseFileLocked f).Releases := by
  obtain ⟨c, hc, -⟩ := hl.holds.releaseFileLocked f
  unfold Driver.releaseFileLocked
  rw [hc]
  refine ⟨?_, h.pending, h.releasing, h.settled⟩
  intro p hp
  rcases List.mem_append.1 hp with hp | hp
  · exact h.own p hp
  · obtain ⟨d, hd, rfl⟩ := List.mem_map.1 hp
    obtain ⟨q, hq, rfl⟩ := List.mem_map.1 hd
    have := (List.mem_filter.1 hq).2
    exact ⟨by simpa using this, hf⟩

/-- A deferred release runs when the last completion of its file is settled. -/
theorem Releases.enqueueSettle (h : s.Releases) : s.enqueueSettle.Releases := by
  unfold Driver.enqueueSettle
  split
  · rename_i who f hpush
    dsimp only
    split
    · rename_i hlast
      refine ⟨h.own, ?_, h.releasing, ?_⟩
      · intro g hg
        obtain ⟨hgf, hg⟩ := Finset.mem_erase.1 hg
        refine ⟨?_, (h.pending g hg).2⟩
        show 0 < Function.update s.fileOutstanding f _ g
        rw [Function.update_of_ne hgf]
        exact (h.pending g hg).1
      · intro who' g hg
        injection hg with hg
        injection hg with _ hfg hrel
        subst hfg
        exact (h.pending _ (of_decide_eq_true hrel)).2
    · rename_i hmore
      refine ⟨h.own, ?_, h.releasing, ?_⟩
      · intro g hg
        refine ⟨?_, (h.pending g hg).2⟩
        show 0 < Function.update s.fileOutstanding f _ g
        by_cases hgf : g = f
        · subst hgf
          rw [Function.update_self]
          exact Nat.pos_of_ne_zero hmore
        · rw [Function.update_of_ne hgf]
          exact (h.pending g hg).1
      · intro who' g hg
        injection hg with hg
        injection hg with _ _ hrel
        cases hrel
  · exact h

theorem Releases.releaseFile (h : s.Releases) (f : ℕ) : (s.releaseFile f).Releases := by
  have hgrow : ∀ g, g ∈ s.released → g ∈ s.released ++ [f] := fun g hg => List.mem_append_left _ hg
  have hself : f ∈ s.released ++ [f] := List.mem_append_right _ List.mem_cons_self
  unfold Driver.releaseFile
  dsimp only
  split
  · refine ⟨fun p hp => ⟨(h.own p hp).1, hgrow _ (h.own p hp).2⟩,
      fun g hg => ⟨(h.pending g hg).1, hgrow g (h.pending g hg).2⟩, ?_,
      fun who g hg => hgrow g (h.settled who g hg)⟩
    intro g hg
    rcases List.mem_append.1 hg with hg | hg
    · exact hgrow g (h.releasing g hg)
    · rw [List.mem_singleton.1 hg]
      exact hself
  · rename_i hout
    refine ⟨fun p hp => ⟨(h.own p hp).1, hgrow _ (h.own p hp).2⟩, ?_,
      fun g hg => hgrow g (h.releasing g hg), fun who g hg => hgrow g (h.settled who g hg)⟩
    intro g hg
    rcases Finset.mem_insert.1 hg with rfl | hg
    · exact ⟨Nat.pos_of_ne_zero hout, hself⟩
    · exact ⟨(h.pending g hg).1, hgrow g (h.pending g hg).2⟩

/-! ### The invariant -/

structure Inv (s : Driver) : Prop where
  custody : s.Custody
  shelved : ∃ l, s.Shelved l
  releases : s.Releases
  slots : s.Slots

theorem inv_init (cfg : IoDriverConfig) : (Driver.init cfg).Inv where
  custody := ⟨rfl, .refl _, fun _ => rfl⟩
  shelved := ⟨[], Completions.holds_nil, .refl _, .refl _⟩
  releases := by
    refine ⟨?_, ?_, ?_, ?_⟩
    · intro p hp
      cases hp
    · intro f hf
      exact absurd hf (Finset.notMem_empty f)
    · intro f hf
      cases hf
    · intro who f hf
      cases hf
  slots := ⟨rfl, fun _ => rfl, fun h => by cases h⟩

theorem Inv.accept (h : s.Inv) (hc : s.cancelled = false) (req : IoRequest) :
    (s.accept req).Inv ∧ (s.accept req).cancelled = false := by
  obtain ⟨l, hl⟩ := h.shelved
  have hcust := h.custody.accept req
  obtain ⟨rq, wq, heq⟩ := accept_eq s req
  rw [heq] at hcust ⊢
  refine ⟨⟨hcust, ⟨l, hl.keep rfl rfl rfl rfl⟩, h.releases.keep rfl rfl ?_ rfl h.releases.settled rfl,
    h.slots.inFlight, h.slots.flush, ?_⟩, hc⟩
  · intro f
    show s.fileOutstanding f ≤ Function.update s.fileOutstanding _ _ f
    by_cases hf : f = req.fileId
    · subst hf
      rw [Function.update_self]
      exact Nat.le_succ _
    · rw [Function.update_of_ne hf]
  · intro hc'
    exact absurd (hc.symm.trans hc') Bool.false_ne_true

theorem Inv.acceptAll (h : s.Inv) (hc : s.cancelled = false) (batch : List IoRequest) :
    (s.acceptAll cfg batch).Inv := by
  induction batch generalizing s with
  | nil => exact h
  | cons req batch ih =>
    rw [Driver.acceptAll]
    split
    · exact h
    · obtain ⟨h', hc'⟩ := h.accept hc req
      exact ih h' hc'

theorem Inv.pick (h : s.Inv) (htop : s.scheduler = .top) (hp : s.pick cfg = some s') : s'.Inv := by
  obtain ⟨l, hl⟩ := h.shelved
  have hpend := pending_pick hp htop
  obtain ⟨hc, op, rq, wq, r, w, -, rfl⟩ := pick_cases hp
  refine ⟨h.custody.move hpend rfl rfl rfl rfl, ⟨l, hl.keep rfl rfl rfl rfl⟩,
    h.releases.keep rfl rfl (fun _ => le_rfl) rfl h.releases.settled rfl, ?_, h.slots.flush, ?_⟩
  · have := h.slots.inFlight
    rw [htop] at this
    show s.inFlight + 1 = s.backend.length + 1
    rw [this]
    rfl
  · intro hc'
    exact absurd (hc.symm.trans hc') Bool.false_ne_true

theorem Inv.backendSubmit (h : s.Inv) (ok : Bool) : (s.backendSubmit ok).Inv := by
  obtain ⟨l, hl⟩ := h.shelved
  have hpend := pending_backendSubmit s ok
  unfold Driver.backendSubmit at hpend ⊢
  split
  · rename_i op hsch
    have hslots := h.slots.inFlight
    rw [hsch] at hpend hslots
    cases ok with
    | true =>
      refine ⟨h.custody.move hpend rfl rfl rfl rfl, ⟨l, hl.keep rfl rfl rfl rfl⟩,
        h.releases.keep rfl rfl (fun _ => le_rfl) rfl h.releases.settled rfl, ?_, h.slots.flush,
        h.slots.queues⟩
      show s.inFlight = (s.backend ++ [op]).length + 0
      rw [hslots, List.length_append]
      rfl
    | false =>
      exact ⟨h.custody.move hpend rfl rfl rfl rfl, ⟨l, hl.keep rfl rfl rfl rfl⟩,
        h.releases.keep rfl rfl (fun _ => le_rfl) rfl h.releases.settled rfl, hslots, h.slots.flush,
        h.slots.queues⟩
  · exact h

theorem Inv.reap (h : s.Inv) (htop : s.scheduler = .top) {ops : List Op} {result : Op → IoResult}
    (hops : ops.Subperm s.backend) : (s.reap ops result).Inv := by
  obtain ⟨l, hl⟩ := h.shelved
  refine ⟨h.custody.move (pending_reap hops htop) rfl rfl rfl rfl, ⟨l, hl.keep rfl rfl rfl rfl⟩,
    h.releases.keep rfl rfl (fun _ => le_rfl) rfl h.releases.settled rfl, ?_, h.slots.flush,
    h.slots.queues⟩
  have hslots := h.slots.inFlight
  rw [htop] at hslots
  show s.inFlight = (s.backend.diff ops).length + ops.length
  have hlen := (List.subperm_append_diff_self_of_count_le
    (fun x hx => List.subperm_ext_iff.1 hops x hx)).length_eq
  rw [List.length_append] at hlen
  rw [hslots]
  simp only [Scheduler.slots]
  omega

theorem Inv.finish (h : s.Inv) : s.finish.Inv := by
  obtain ⟨l, hl⟩ := h.shelved
  unfold Driver.finish
  split
  · rename_i slots hsch
    have hslots := h.slots.inFlight
    rw [hsch] at hslots
    refine ⟨h.custody.move ?_ rfl rfl rfl rfl, ⟨l, hl.keep rfl rfl rfl rfl⟩,
      h.releases.keep rfl rfl (fun _ => le_rfl) rfl h.releases.settled rfl, ?_, h.slots.flush,
      h.slots.queues⟩
    · unfold pending
      rw [hsch]
      exact .refl _
    · show s.inFlight - slots = s.backend.length + 0
      rw [hslots]
      exact Nat.add_sub_cancel _ _
  · exact h

theorem slots_takeDone (h : s.Slots) (who : Caller) : (s.takeDone who).Slots := by
  unfold takeDone
  cases who with
  | canceller =>
    refine ⟨h.inFlight, ?_, h.queues⟩
    intro hc
    show s.flush.tail = []
    rw [h.flush hc]
    rfl
  | scheduler =>
    dsimp only
    split
    · rename_i todo slots hsch
      have := h.inFlight
      rw [hsch] at this
      exact ⟨this, h.flush, h.queues⟩
    · exact h

theorem Inv.enqueuePush (h : s.Inv) (who : Caller) {addr : Addr} (hidle : s.enqueuing = none)
    (haddr : s.done.nodes addr = none) : (s.enqueuePush who addr).Inv := by
  obtain ⟨l, hl⟩ := h.shelved
  refine ⟨h.custody.enqueuePush addr hidle, hl.enqueuePush haddr, ?_, ?_⟩
  · unfold Driver.enqueuePush
    cases s.nextDone who with
    | none => exact h.releases
    | some d =>
      obtain ⟨sch, fl, htake⟩ := takeDone_fields s who
      rw [htake]
      refine h.releases.keep rfl rfl (fun _ => le_rfl) rfl ?_ rfl
      intro who' f hf
      cases hf
  · have hslots := slots_takeDone h.slots who
    unfold Driver.enqueuePush
    cases s.nextDone who with
    | none => exact h.slots
    | some d => exact ⟨hslots.inFlight, hslots.flush, hslots.queues⟩

theorem Inv.enqueueSettle (h : s.Inv) : s.enqueueSettle.Inv := by
  obtain ⟨l, hl⟩ := h.shelved
  refine ⟨h.custody.enqueueSettle, ⟨l, ?_⟩, h.releases.enqueueSettle, ?_⟩
  · unfold Driver.enqueueSettle
    split
    · dsimp only
      split <;> exact hl.keep rfl rfl rfl rfl
    · exact hl
  · unfold Driver.enqueueSettle
    split
    · dsimp only
      split <;> exact ⟨h.slots.inFlight, h.slots.flush, h.slots.queues⟩
    · exact h.slots

theorem Inv.releaseFileLocked (h : s.Inv) {f : ℕ} (hf : f ∈ s.released) :
    (s.releaseFileLocked f).Inv := by
  obtain ⟨l, hl⟩ := h.shelved
  exact ⟨h.custody.move (.refl _) rfl rfl rfl rfl, hl.releaseFileLocked f,
    h.releases.releaseFileLocked hl hf, h.slots.inFlight, h.slots.flush, h.slots.queues⟩

theorem Inv.enqueueEnd (h : s.Inv) : s.enqueueEnd.Inv := by
  unfold Driver.enqueueEnd
  split
  · rename_i who f doRelease hset
    -- the call lets `cmu_` go; nothing waits for `countMu_` any more
    have hlet : ∀ t : Driver, t.Inv → t.enqueuing = some (.settled who f doRelease) →
        ({ t with enqueuing := none } : Driver).Inv := by
      intro t ht hts
      obtain ⟨l, hl⟩ := ht.shelved
      refine ⟨⟨ht.custody.numbered, ht.custody.conserve, ?_⟩, ⟨l, hl.keep rfl rfl rfl rfl⟩,
        ht.releases.keep rfl rfl (fun _ => le_rfl) rfl ?_ rfl, ht.slots.inFlight, ht.slots.flush,
        ht.slots.queues⟩
      · intro g
        have hg := ht.custody.outstanding g
        unfold unsettled at hg ⊢
        rw [hts] at hg
        exact hg
      · intro who' g hg
        cases hg
    cases doRelease with
    | true => exact hlet _ (h.releaseFileLocked (h.releases.settled who f hset)) hset
    | false => exact hlet s h hset
  · exact h

theorem Inv.drainCompletions (h : s.Inv) : s.drainCompletions.Inv := by
  obtain ⟨l, hl⟩ := h.shelved
  exact ⟨h.custody.move (.refl _) rfl rfl rfl rfl, ⟨[], hl.drainCompletions⟩,
    h.releases.keep rfl rfl (fun _ => le_rfl) rfl h.releases.settled rfl,
    h.slots.inFlight, h.slots.flush, h.slots.queues⟩

theorem Inv.drainCompletionsForFile (h : s.Inv) (f : ℕ) : (s.drainCompletionsForFile f).Inv := by
  obtain ⟨l, hl⟩ := h.shelved
  exact ⟨h.custody.move (.refl _) rfl rfl rfl rfl, hl.drainCompletionsForFile f,
    h.releases.keep rfl rfl (fun _ => le_rfl) rfl h.releases.settled rfl,
    h.slots.inFlight, h.slots.flush, h.slots.queues⟩

theorem Inv.requestCancel (h : s.Inv) : s.requestCancel.Inv := by
  obtain ⟨l, hl⟩ := h.shelved
  have hpend := pending_requestCancel h.slots.flush
  unfold Driver.requestCancel at hpend ⊢
  split
  · exact h
  · rename_i hc
    rw [if_neg hc] at hpend
    refine ⟨h.custody.move hpend rfl rfl rfl rfl, ⟨l, hl.keep rfl rfl rfl rfl⟩,
      h.releases.keep rfl rfl (fun _ => le_rfl) rfl h.releases.settled rfl, h.slots.inFlight, ?_,
      fun _ => ⟨rfl, rfl⟩⟩
    intro hc'
    cases hc'

theorem Inv.releaseFile (h : s.Inv) (f : ℕ) : (s.releaseFile f).Inv := by
  obtain ⟨l, hl⟩ := h.shelved
  have hrel := h.releases.releaseFile f
  unfold Driver.releaseFile at hrel ⊢
  dsimp only at hrel ⊢
  split
  · rename_i hout
    rw [if_pos hout] at hrel
    exact ⟨h.custody.move (.refl _) rfl rfl rfl rfl, ⟨l, hl.keep rfl rfl rfl rfl⟩, hrel,
      h.slots.inFlight, h.slots.flush, h.slots.queues⟩
  · rename_i hout
    rw [if_neg hout] at hrel
    exact ⟨h.custody.move (.refl _) rfl rfl rfl rfl, ⟨l, hl.keep rfl rfl rfl rfl⟩, hrel,
      h.slots.inFlight, h.slots.flush, h.slots.queues⟩

theorem Inv.releaseNow (h : s.Inv) {f : ℕ} (hf : f ∈ s.releasing) : (s.releaseNow f).Inv := by
  obtain ⟨l, hl⟩ := h.shelved
  have hinv : ({ s with releasing := s.releasing.erase f } : Driver).Inv :=
    ⟨h.custody.move (.refl _) rfl rfl rfl rfl, ⟨l, hl.keep rfl rfl rfl rfl⟩,
      ⟨h.releases.own, h.releases.pending,
        fun g hg => h.releases.releasing g (List.mem_of_mem_erase hg), h.releases.settled⟩,
      h.slots.inFlight, h.slots.flush, h.slots.queues⟩
  exact hinv.releaseFileLocked (h.releases.releasing f hf)

/-- **One step keeps the invariant.** -/
theorem inv_exec (h : s.Inv) {e : Event} (hc : e.Can cfg s) : (e.exec cfg s).Inv := by
  cases e with
  | submit batch =>
    show (s.submit cfg batch).Inv
    unfold submit
    split
    · exact h
    · rename_i hcan
      exact h.acceptAll (by simpa using hcan) batch
  | pick =>
    obtain ⟨htop, hsome⟩ := hc
    rw [Scheduler.atTop_iff] at htop
    obtain ⟨s', hs'⟩ := Option.isSome_iff_exists.1 hsome
    show ((s.pick cfg).getD s).Inv
    rw [hs']
    exact h.pick htop hs'
  | backendSubmit ok => exact h.backendSubmit ok
  | reap ops result =>
    obtain ⟨htop, -, -, hops⟩ := hc
    rw [Scheduler.atTop_iff] at htop
    exact h.reap htop hops
  | finish => exact h.finish
  | enqueuePush who addr => exact h.enqueuePush who hc.1 hc.2.2
  | enqueueSettle => exact h.enqueueSettle
  | enqueueEnd => exact h.enqueueEnd
  | drainCompletions => exact h.drainCompletions
  | drainCompletionsForFile f => exact h.drainCompletionsForFile f
  | requestCancel => exact h.requestCancel
  | releaseFile f => exact h.releaseFile f
  | releaseNow f => exact h.releaseNow hc.1

theorem inv_reach (h : (machine cfg).Reach (fun _ _ => True) s) : s.Inv :=
  h.invariant (I := Inv) (inv_init cfg) fun _ _ hs hc _ => inv_exec hs hc

/-! ### Progress -/

/-- How far the call that holds `cmu_` is from its end. -/
def toLetGo (s : Driver) : ℕ :=
  match s.enqueuing with
  | none => 0
  | some (.settled _ _ _) => 1
  | some (.pushed _ _) => 2

/-- How many steps the scheduler has before its top, apart from the deliveries. -/
def toTop (s : Driver) : ℕ :=
  match s.scheduler with
  | .top => 0
  | .picked _ => 6
  | .delivering _ _ => 1

/-- What is left to do for the operations that are not enqueued and settled. -/
def work (s : Driver) : ℕ :=
  7 * (s.readQ ++ s.writeQ).length + 5 * s.backend.length +
    3 * (s.scheduler.todo ++ s.flush).length + s.toTop + s.toLetGo

theorem work_pick (htop : s.scheduler = .top) (h : s.pick cfg = some s') : s'.work < s.work := by
  obtain ⟨-, op, rq, wq, r, w, hperm, rfl⟩ := pick_cases h
  have hlen := hperm.length_eq
  rw [List.length_cons] at hlen
  unfold work toTop
  rw [htop]
  simp only [Scheduler.todo, toLetGo]
  omega

theorem work_backendSubmit {op : Op} (h : s.scheduler = .picked op) (ok : Bool) :
    (s.backendSubmit ok).work < s.work := by
  unfold backendSubmit
  rw [h]
  dsimp only
  unfold work toTop
  rw [h]
  cases ok with
  | true =>
    simp only [if_pos, Scheduler.todo, toLetGo, List.length_append, List.length_singleton]
    omega
  | false =>
    simp only [Bool.false_eq_true, if_false, Scheduler.todo, toLetGo, List.length_append,
      List.length_singleton, List.length_nil]
    omega

theorem work_reap (htop : s.scheduler = .top) {ops : List Op} (result : Op → IoResult)
    (hne : ops ≠ []) (hops : ops.Subperm s.backend) : (s.reap ops result).work < s.work := by
  have hlen := (List.subperm_append_diff_self_of_count_le
    (fun x hx => List.subperm_ext_iff.1 hops x hx)).length_eq
  have hpos := List.length_pos_iff.2 hne
  rw [List.length_append] at hlen
  unfold reap work toTop
  rw [htop]
  simp only [Scheduler.todo, toLetGo, List.length_append, List.length_map, List.length_nil]
  omega

theorem work_finish {slots : ℕ} (h : s.scheduler = .delivering [] slots) :
    s.finish.work < s.work := by
  unfold finish
  rw [h]
  dsimp only
  unfold work toTop
  rw [h]
  simp only [Scheduler.todo, toLetGo]
  omega

theorem work_enqueuePush (hidle : s.enqueuing = none) {who : Caller} (addr : Addr)
    (h : (s.nextDone who).isSome) : (s.enqueuePush who addr).work < s.work := by
  obtain ⟨d, hd⟩ := Option.isSome_iff_exists.1 h
  unfold enqueuePush
  rw [hd]
  cases who with
  | canceller =>
    obtain ⟨rest, hrest⟩ := List.head?_eq_some_iff.1 hd
    simp only [work, takeDone, toTop, toLetGo, hidle, hrest, List.tail_cons, List.length_append,
      List.length_cons]
    omega
  | scheduler =>
    obtain ⟨rest, slots, hsch⟩ := nextDone_scheduler hd
    simp only [work, takeDone, toTop, toLetGo, hidle, hsch, Scheduler.todo, List.tail_cons,
      List.length_append, List.length_cons]
    omega

theorem work_enqueueSettle {who : Caller} {f : ℕ} (h : s.enqueuing = some (.pushed who f)) :
    s.enqueueSettle.work < s.work := by
  unfold enqueueSettle
  rw [h]
  dsimp only
  split <;> simp only [work, toTop, toLetGo, h] <;> omega

theorem work_enqueueEnd {who : Caller} {f : ℕ} {r : Bool}
    (h : s.enqueuing = some (.settled who f r)) : s.enqueueEnd.work < s.work := by
  unfold enqueueEnd
  rw [h]
  cases r <;> simp only [if_true, Bool.false_eq_true, if_false, work, toTop, toLetGo,
    releaseFileLocked, h] <;> omega

/-- **Every step of the driver's own leaves less to do.** -/
theorem work_exec {e : Event} (hi : e.internal) (hc : e.Can cfg s) : (e.exec cfg s).work < s.work := by
  cases e with
  | pick =>
    obtain ⟨htop, hsome⟩ := hc
    rw [Scheduler.atTop_iff] at htop
    obtain ⟨s', hs'⟩ := Option.isSome_iff_exists.1 hsome
    show ((s.pick cfg).getD s).work < s.work
    rw [hs']
    exact work_pick htop hs'
  | backendSubmit ok =>
    cases hsch : s.scheduler with
    | picked op => exact work_backendSubmit hsch ok
    | top => simp [Event.Can, Scheduler.hasPicked, hsch] at hc
    | delivering todo slots => simp [Event.Can, Scheduler.hasPicked, hsch] at hc
  | reap ops result =>
    obtain ⟨htop, hne, -, hops⟩ := hc
    rw [Scheduler.atTop_iff] at htop
    exact work_reap htop result hne hops
  | finish =>
    have hdel := hc.1
    unfold Scheduler.hasDelivered at hdel
    split at hdel
    · rename_i slots hs
      exact work_finish hs
    · cases hdel
  | enqueuePush who addr => exact work_enqueuePush hc.1 addr hc.2.1
  | enqueueSettle =>
    obtain ⟨q, hq, hpushed⟩ := (Option.any_eq_true _ _).1 hc
    cases q with
    | pushed who f => exact work_enqueueSettle hq
    | settled who f r => cases hpushed
  | enqueueEnd =>
    obtain ⟨q, hq, hpushed⟩ := (Option.any_eq_true _ _).1 hc
    cases q with
    | pushed who f => cases hpushed
    | settled who f r => exact work_enqueueEnd hq
  | submit _ => cases hi
  | drainCompletions => cases hi
  | drainCompletionsForFile _ => cases hi
  | requestCancel => cases hi
  | releaseFile _ => cases hi
  | releaseNow _ => cases hi

/-- A new node has a place. -/
theorem exists_free (h : s.Inv) : ∃ addr, s.done.nodes addr = none := by
  obtain ⟨l, hl⟩ := h.shelved
  obtain ⟨addr, haddr⟩ := Infinite.exists_notMem_finset (l.map Prod.fst).toFinset
  exact ⟨addr, hl.holds.free addr (by simpa using haddr)⟩

/-- **The driver is never stuck:** as long as there is work, it has a step. -/
theorem exists_internal (h : s.Inv) (hslot : 0 < cfg.maxInFlight ∨ s.cancelled = true)
    (hw : s.work ≠ 0) : ∃ e : Event, e.internal ∧ e.Can cfg s := by
  cases henq : s.enqueuing with
  | some q =>
    cases q with
    | pushed who f => exact ⟨.enqueueSettle, rfl, by simp [Event.Can, henq, Enqueue.isPushed]⟩
    | settled who f r => exact ⟨.enqueueEnd, rfl, by simp [Event.Can, henq, Enqueue.isPushed]⟩
  | none =>
    obtain ⟨addr, haddr⟩ := exists_free h
    cases hflush : s.flush with
    | cons d rest =>
      exact ⟨.enqueuePush .canceller addr, rfl, henq, by simp [nextDone, hflush], haddr⟩
    | nil =>
      cases hsch : s.scheduler with
      | picked op => exact ⟨.backendSubmit true, rfl, by simp [Event.Can, hsch, Scheduler.hasPicked]⟩
      | delivering todo slots =>
        cases todo with
        | nil => exact ⟨.finish, rfl, by simp [hsch, Scheduler.hasDelivered], by simp [henq]⟩
        | cons d rest =>
          exact ⟨.enqueuePush .scheduler addr, rfl, henq, by simp [nextDone, hsch], haddr⟩
      | top =>
        cases hback : s.backend with
        | cons op rest =>
          refine ⟨.reap [op] fun _ => ⟨.ok, 0, []⟩, rfl, by simp [hsch, Scheduler.atTop], List.cons_ne_nil _ _,
            Nat.le_add_left _ _, ?_⟩
          rw [hback]
          exact List.singleton_subperm_iff.2 List.mem_cons_self
        | nil =>
          -- nothing in flight, so a waiting operation can be picked
          have hflight : s.inFlight = 0 := by
            rw [h.slots.inFlight, hback, hsch]
            rfl
          have hq : s.readQ ++ s.writeQ ≠ [] := by
            intro hnil
            refine hw ?_
            simp only [work, hnil, hback, hflush, hsch, toTop, toLetGo, henq, Scheduler.todo]
            rfl
          have hcan : s.cancelled = false := by
            by_contra hcan
            have hqs := h.slots.queues (by simpa using hcan)
            rw [hqs.1, hqs.2] at hq
            exact hq rfl
          have hpos : 0 < cfg.maxInFlight := by
            rcases hslot with hpos | hc
            · exact hpos
            · exact absurd (hcan.symm.trans hc) Bool.false_ne_true
          exact ⟨.pick, rfl, by simp [hsch, Scheduler.atTop], pick_isSome hcan (hflight ▸ hpos) hq⟩

/-- With nothing left to do every accepted operation is enqueued and settled. -/
theorem pending_of_work (hw : s.work = 0) : s.pending = [] ∧ s.enqueuing = none := by
  have hq : (s.readQ ++ s.writeQ).length = 0 := by
    unfold work at hw
    omega
  have hb : s.backend.length = 0 := by
    unfold work at hw
    omega
  have ht : (s.scheduler.todo ++ s.flush).length = 0 := by
    unfold work at hw
    omega
  have hs : s.scheduler.ops = [] := by
    have : s.toTop = 0 := by
      unfold work at hw
      omega
    unfold toTop at this
    cases hsch : s.scheduler with
    | top => rfl
    | picked op => rw [hsch] at this; cases this
    | delivering todo slots => rfl
  refine ⟨?_, ?_⟩
  · unfold pending
    rw [hs, List.length_eq_zero_iff.1 hq, List.length_eq_zero_iff.1 hb, List.length_eq_zero_iff.1 ht]
    rfl
  · have : s.toLetGo = 0 := by
      unfold work at hw
      omega
    unfold toLetGo at this
    cases henq : s.enqueuing with
    | none => rfl
    | some q => cases q <;> rw [henq] at this <;> cases this

/-- A step of the driver's own accepts nothing, does not cancel and delivers nothing. -/
theorem internal_keeps {e : Event} (hi : e.internal) :
    (e.exec cfg s).accepted = s.accepted ∧ (e.exec cfg s).cancelled = s.cancelled ∧
      (e.exec cfg s).delivered = s.delivered := by
  cases e with
  | pick =>
    show ((s.pick cfg).getD s).accepted = _ ∧ ((s.pick cfg).getD s).cancelled = _ ∧ ((s.pick cfg).getD s).delivered = _
    cases hp : s.pick cfg with
    | none => exact ⟨rfl, rfl, rfl⟩
    | some s' =>
      obtain ⟨-, op, rq, wq, r, w, -, rfl⟩ := pick_cases hp
      exact ⟨rfl, rfl, rfl⟩
  | backendSubmit ok =>
    show (s.backendSubmit ok).accepted = _ ∧ (s.backendSubmit ok).cancelled = _ ∧ (s.backendSubmit ok).delivered = _
    unfold backendSubmit
    split
    · split <;> exact ⟨rfl, rfl, rfl⟩
    · exact ⟨rfl, rfl, rfl⟩
  | reap ops result => exact ⟨rfl, rfl, rfl⟩
  | finish =>
    show s.finish.accepted = _ ∧ s.finish.cancelled = _ ∧ s.finish.delivered = _
    unfold finish
    split <;> exact ⟨rfl, rfl, rfl⟩
  | enqueuePush who addr =>
    show (s.enqueuePush who addr).accepted = _ ∧ (s.enqueuePush who addr).cancelled = _ ∧ (s.enqueuePush who addr).delivered = _
    unfold enqueuePush
    obtain ⟨sch, fl, htake⟩ := takeDone_fields s who
    cases s.nextDone who with
    | none => exact ⟨rfl, rfl, rfl⟩
    | some d =>
      rw [htake]
      exact ⟨rfl, rfl, rfl⟩
  | enqueueSettle =>
    show s.enqueueSettle.accepted = _ ∧ s.enqueueSettle.cancelled = _ ∧ s.enqueueSettle.delivered = _
    unfold enqueueSettle
    split
    · dsimp only
      split <;> exact ⟨rfl, rfl, rfl⟩
    · exact ⟨rfl, rfl, rfl⟩
  | enqueueEnd =>
    show s.enqueueEnd.accepted = _ ∧ s.enqueueEnd.cancelled = _ ∧ s.enqueueEnd.delivered = _
    unfold enqueueEnd
    split
    · dsimp only
      split <;> exact ⟨rfl, rfl, rfl⟩
    · exact ⟨rfl, rfl, rfl⟩
  | submit _ => cases hi
  | drainCompletions => cases hi
  | drainCompletionsForFile _ => cases hi
  | requestCancel => cases hi
  | releaseFile _ => cases hi
  | releaseNow _ => cases hi

/-- A run of the driver's own steps is no longer than the work, and keeps the invariant. -/
theorem run_internal (h : s.Inv) {es : List Event}
    (hes : (machine cfg).Allows (fun _ e => e.internal) s es) :
    ((machine cfg).run s es).Inv ∧ ((machine cfg).run s es).work + es.length ≤ s.work ∧
      ((machine cfg).run s es).accepted = s.accepted ∧
      ((machine cfg).run s es).cancelled = s.cancelled := by
  induction es generalizing s with
  | nil => exact ⟨h, le_rfl, rfl, rfl⟩
  | cons e es ih =>
    obtain ⟨hc, hi, hrest⟩ := hes
    obtain ⟨hinv, hwork, hacc, hcan⟩ := ih (inv_exec h hc) hrest
    have hless := work_exec hi hc
    have hkeep : (e.exec cfg s).accepted = s.accepted ∧ (e.exec cfg s).cancelled = s.cancelled ∧
        (e.exec cfg s).delivered = s.delivered := internal_keeps hi
    refine ⟨hinv, ?_, hacc.trans hkeep.1, hcan.trans hkeep.2.1⟩
    rw [List.length_cons]
    exact le_trans (Nat.le_of_eq (Nat.add_assoc _ _ _).symm) (hwork.trans_lt hless)

/-! ### Exactly once -/

theorem nodup_accepted (h : s.Custody) : (s.accepted.map Op.ticket).Nodup := by
  refine List.Nodup.of_map Prod.fst ?_
  rw [List.map_map, show Prod.fst ∘ Op.ticket = Op.serial from rfl, h.numbered]
  exact List.nodup_range

/-- The pending operations of a file are those accepted and not enqueued. -/
theorem pendingOf_add (h : s.Custody) (f : ℕ) :
    s.pendingOf f + s.enqueued.countP (fun d => d.fileId = f) =
      s.accepted.countP (fun op => op.req.fileId = f) := by
  have := h.conserve.countP_eq fun t => decide (t.2.fileId = f)
  rw [List.countP_append, List.countP_map, List.countP_map] at this
  exact this

/-- **Each accepted operation completes exactly once.** In every state of every run, the
accepted operations are divided into the pending ones, the undelivered completions (`l`), the
delivered ones and those dropped by a release of their own file; all carry their own number,
kind, file, offset, length and tag. The order list and the lists of the files hold `l`, in the
order of arrival. The counts of the files are accepted minus enqueued, one more between the two
sections of a call of `EnqueueCompletion`; a release is deferred only for a file with a count.
The steps of the driver's own are bounded, and come to a stop only when all is enqueued. -/
theorem completes_exactly_once (cfg : IoDriverConfig) {s : Driver}
    (h : (machine cfg).Reach (fun _ _ => True) s) :
    (s.accepted.map Op.ticket).Nodup ∧
    (∃ l : List (Addr × Done),
      (s.pending ++ (l.map Prod.snd ++ s.delivered ++ s.discarded.map Prod.snd).map Done.ticket).Perm
        (s.accepted.map Op.ticket) ∧
      s.enqueued.Perm (l.map Prod.snd ++ s.delivered ++ s.discarded.map Prod.snd) ∧
      (l.map Prod.snd).Sublist s.enqueued ∧
      s.done.order.Spells (l.map Prod.fst) ∧ s.done.order.count = l.length ∧
      (∀ p ∈ l, s.done.nodes p.1 = some p.2) ∧
      ∀ f, s.done.completionsByFile f = (l.filter fun p => p.2.fileId = f).map Prod.fst) ∧
    (∀ p ∈ s.discarded, p.2.fileId = p.1 ∧ p.1 ∈ s.released) ∧
    (∀ f, s.fileOutstanding f + s.enqueued.countP (fun d => d.fileId = f) =
      s.accepted.countP (fun op => op.req.fileId = f) + s.unsettled f) ∧
    (∀ f ∈ s.pendingRelease, 0 < s.fileOutstanding f ∧ f ∈ s.released) ∧
    (0 < cfg.maxInFlight ∨ s.cancelled = true →
      ∀ es, (machine cfg).Allows (fun _ e => e.internal) s es →
        es.length ≤ s.work ∧
        ((∃ e : Event, e.internal ∧ e.Can cfg ((machine cfg).run s es)) ∨
          ((machine cfg).run s es).pending = [] ∧
          ((machine cfg).run s es).accepted = s.accepted)) := by
  have hinv := inv_reach h
  obtain ⟨l, hl⟩ := hinv.shelved
  refine ⟨nodup_accepted hinv.custody, ⟨l, ?_, hl.parts, hl.order, hl.holds.order, ?_,
    hl.holds.nodes, hl.holds.files⟩, hinv.releases.own, ?_, hinv.releases.pending, ?_⟩
  · exact ((hl.parts.symm.map _).append_left _).trans hinv.custody.conserve
  · rw [hl.holds.order.count, List.length_map]
  · intro f
    rw [hinv.custody.outstanding f, ← pendingOf_add hinv.custody f]
    omega
  · intro hslot es hes
    obtain ⟨hinv', hwork, hacc, hcan⟩ := run_internal hinv hes
    refine ⟨by omega, ?_⟩
    by_cases hw : ((machine cfg).run s es).work = 0
    · exact Or.inr ⟨(pending_of_work hw).1, hacc⟩
    · refine Or.inl (exists_internal hinv' ?_ hw)
      rw [hcan]
      exact hslot

/-- One read fails in the backend and is drained, one is reaped and dropped by the release of its
file, one is cancelled in the queue and waits to be drained. -/
def mixedRun : List Event :=
  let read (f : ℕ) : IoRequest := { fileId := f, length := 8, userTag := 10 + f }
  let enqueue (who : Caller) (addr : Addr) : List Event :=
    [.enqueuePush who addr, .enqueueSettle, .enqueueEnd]
  [.submit [read 1, read 2, read 3], .pick, .backendSubmit false] ++ enqueue .scheduler 0 ++
    [.finish, .pick, .backendSubmit true, .drainCompletions, .releaseFile 2, .requestCancel,
      .reap [⟨1, read 2⟩] fun _ => ⟨.ok, 8, List.replicate 8 0⟩] ++
    enqueue .canceller 0 ++ enqueue .scheduler 1 ++ [.finish]

theorem completes_exactly_once_mixedRun :
    let s := (machine {}).run (Driver.init {}) mixedRun
    s.accepted.length = 3 ∧ s.pending = [] ∧ s.delivered.length = 1 ∧ s.discarded.length = 1 ∧
      ∃ l : List (Addr × Done), s.done.order.Spells (l.map Prod.fst) ∧ s.done.order.count = l.length := by
  have hreach : (machine {}).Reach (fun _ _ => True) ((machine {}).run (Driver.init {}) mixedRun) :=
    Runs.Machine.reach_run (by decide)
  obtain ⟨-, ⟨l, -, -, -, hspells, hcount, -, -⟩, -⟩ := completes_exactly_once {} hreach
  exact ⟨by decide, by decide, by decide, by decide, l, hspells, hcount⟩

end Driver

end FastClone.DiskIo
