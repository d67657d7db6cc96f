import FastClone.Proof.DiskIo

/-!
# The order in which the scheduler picks

`weighted_fairness`: while reads and writes both wait, the scheduler picks at most twice the read weight of
reads in a row, and at most the write weight of writes. Credit is spent also while only one queue has work
and renewed only when none is left, so a burst of reads can begin with what is left of one round and end
with the whole next one; a round of writes always ends before the credit is renewed, and then reads come
first.

Within a kind a small operation goes first, and operations of one priority go in the order of their
acceptance.
-/

namespace FastClone.DiskIo

namespace Driver

/-- The queue of a kind. -/
def queueOf (s : Driver) : OpKind → List Op
  | .read => s.readQ
  | .write => s.writeQ

/-- The operation that a step picks. -/
def pickedBy (cfg : IoDriverConfig) (s : Driver) : Event → List Op
  | .pick =>
    match s.pick cfg with
    | some { scheduler := .picked op, .. } => [op]
    | _ => []
  | _ => []

/-- The operations that a run picks, in this order. -/
def picks (cfg : IoDriverConfig) : Driver → List Event → List Op
  | _, [] => []
  | s, e :: es => s.pickedBy cfg e ++ picks cfg (e.exec cfg s) es

variable {cfg : IoDriverConfig} {s s' : Driver}

/-! ### One pick -/

/-- A pick takes `op` from the queue of its kind and leaves the other. -/
structure Takes (s s' : Driver) (k : OpKind) (op : Op) : Prop where
  pop : popPreferSmall (s.queueOf k) = some (op, s'.queueOf k)
  other : ∀ j, j ≠ k → s'.queueOf j = s.queueOf j
  scheduler : s'.scheduler = .picked op
  accepted : s'.accepted = s.accepted
  cancelled : s'.cancelled = s.cancelled

/-- **What a pick does**: the credits are renewed or not, the direction is chosen, and an operation of that
direction is taken and paid for. -/
theorem pick_takes (h : s.pick cfg = some s') :
    s.cancelled = false ∧ ∃ k op, Takes s s' k op ∧
      (k = .read ∧ (s.renewCredit cfg).isRead = true ∧
          s'.readCredit = (s.renewCredit cfg).readCredit - 1 ∧ s'.writeCredit = (s.renewCredit cfg).writeCredit ∨
        k = .write ∧ (s.renewCredit cfg).isRead = false ∧
          s'.readCredit = (s.renewCredit cfg).readCredit ∧
          s'.writeCredit = (s.renewCredit cfg).writeCredit - 1) := by
  obtain ⟨r, w, hrenew⟩ := renewCredit_eq cfg s
  unfold pick at h
  by_cases hguard : s.cancelled = true ∨ cfg.maxInFlight ≤ s.inFlight
  · rw [if_pos hguard] at h
    nomatch h
  rw [if_neg hguard] at h
  have hopen : s.cancelled = false := by
    cases hc : s.cancelled with
    | false => rfl
    | true => exact absurd (Or.inl hc) hguard
  refine ⟨hopen, ?_⟩
  dsimp only at h
  cases hdir : (s.renewCredit cfg).isRead with
  | true =>
    rw [if_pos hdir, hrenew] at h
    obtain ⟨⟨op, rest⟩, hpop, rfl⟩ := Option.map_eq_some_iff.1 h
    refine ⟨.read, op, ⟨hpop, ?_, rfl, rfl, rfl⟩, Or.inl ⟨rfl, rfl, ?_, ?_⟩⟩
    · intro j hj
      cases j with
      | read => exact absurd rfl hj
      | write => rfl
    · rw [hrenew]
    · rw [hrenew]
  | false =>
    rw [if_neg (by rw [hdir]; exact Bool.false_ne_true), hrenew] at h
    obtain ⟨⟨op, rest⟩, hpop, rfl⟩ := Option.map_eq_some_iff.1 h
    refine ⟨.write, op, ⟨hpop, ?_, rfl, rfl, rfl⟩, Or.inr ⟨rfl, rfl, ?_, ?_⟩⟩
    · intro j hj
      cases j with
      | read => rfl
      | write => exact absurd rfl hj
    · rw [hrenew]
    · rw [hrenew]

theorem pickedBy_pick {k : OpKind} {op : Op} (h : s.pick cfg = some s') (ht : Takes s s' k op) :
    s.pickedBy cfg .pick = [op] := by
  unfold pickedBy
  rw [h]
  have hsch := ht.scheduler
  cases s' with
  | mk readQ writeQ readCredit writeCredit cancelled inFlight scheduler =>
    subst hsch
    rfl

/-! ### Credit -/

theorem credit_pos (weight : ℕ) : 0 < credit weight := by
  unfold credit
  split <;> omega

/-- While both queues wait: a read as long as there is credit for reads, then a write as long as there is
credit for writes, and then a new round that begins with a read. -/
theorem pick_contended (h : s.pick cfg = some s') (hr : s.readQ ≠ []) (hw : s.writeQ ≠ []) :
    ∃ k op, Takes s s' k op ∧
      (k = .read ∧ 0 < s.readCredit ∧ s'.readCredit = s.readCredit - 1 ∧ s'.writeCredit = s.writeCredit ∨
        k = .write ∧ s.readCredit = 0 ∧ 0 < s.writeCredit ∧ s'.readCredit = 0 ∧
          s'.writeCredit = s.writeCredit - 1 ∨
        k = .read ∧ s.readCredit = 0 ∧ s.writeCredit = 0 ∧
          s'.readCredit = credit cfg.readWeight - 1 ∧ s'.writeCredit = credit cfg.writeWeight) := by
  obtain ⟨-, k, op, ht, hcredit⟩ := pick_takes h
  refine ⟨k, op, ht, ?_⟩
  have hboth : s.readQ ≠ [] ∧ s.writeQ ≠ [] := ⟨hr, hw⟩
  by_cases hspent : s.readCredit = 0 ∧ s.writeCredit = 0
  · -- a new round
    have hrenew : s.renewCredit cfg = { s with
        readCredit := credit cfg.readWeight
        writeCredit := credit cfg.writeWeight } := if_pos ⟨hr, hw, hspent⟩
    have hdir : (s.renewCredit cfg).isRead = decide (0 < credit cfg.readWeight) := by
      rw [hrenew]
      exact if_pos hboth
    rw [decide_eq_true (credit_pos _)] at hdir
    rcases hcredit with ⟨hk, -, hrc, hwc⟩ | ⟨-, hfalse, -⟩
    · rw [hrenew] at hrc hwc
      exact Or.inr (Or.inr ⟨hk, hspent.1, hspent.2, hrc, hwc⟩)
    · rw [hdir] at hfalse
      nomatch hfalse
  · have hrenew : s.renewCredit cfg = s := if_neg fun hall => hspent hall.2.2
    have hdir : s.isRead = decide (0 < s.readCredit) := if_pos hboth
    rw [hrenew] at hcredit
    rw [hdir] at hcredit
    rcases hcredit with ⟨hk, hpos, hrc, hwc⟩ | ⟨hk, hzero, hrc, hwc⟩
    · exact Or.inl ⟨hk, of_decide_eq_true hpos, hrc, hwc⟩
    · have hnone : s.readCredit = 0 := by
        have := of_decide_eq_false hzero
        omega
      have hsome : 0 < s.writeCredit := by omega
      exact Or.inr (Or.inl ⟨hk, hnone, hsome, by omega, hwc⟩)

/-- No credit exceeds its weight. -/
structure Funded (cfg : IoDriverConfig) (s : Driver) : Prop where
  read : s.readCredit ≤ credit cfg.readWeight
  write : s.writeCredit ≤ credit cfg.writeWeight

theorem Funded.pick (hf : Funded cfg s) (h : s.pick cfg = some s') : Funded cfg s' := by
  obtain ⟨-, k, op, -, hcredit⟩ := pick_takes h
  have hrenewed : (s.renewCredit cfg).readCredit ≤ credit cfg.readWeight ∧
      (s.renewCredit cfg).writeCredit ≤ credit cfg.writeWeight := by
    unfold renewCredit
    split
    · exact ⟨le_rfl, le_rfl⟩
    · exact ⟨hf.read, hf.write⟩
  rcases hcredit with ⟨-, -, hrc, hwc⟩ | ⟨-, -, hrc, hwc⟩
  · exact ⟨by omega, by omega⟩
  · exact ⟨by omega, by omega⟩

/-! ### All other steps -/

/-- `t` has the queues and the credit of `s`. -/
structure SameQueues (s t : Driver) : Prop where
  readQ : t.readQ = s.readQ
  writeQ : t.writeQ = s.writeQ
  readCredit : t.readCredit = s.readCredit
  writeCredit : t.writeCredit = s.writeCredit
  accepted : t.accepted = s.accepted
  cancelled : t.cancelled = s.cancelled

theorem SameQueues.refl (s : Driver) : s.SameQueues s := ⟨rfl, rfl, rfl, rfl, rfl, rfl⟩

/-- The steps that neither fill nor empty a queue. -/
def leavesQueues : Event → Bool
  | .submit _ | .pick | .requestCancel => false
  | _ => true

theorem sameQueues_exec {e : Event} (he : leavesQueues e = true) : s.SameQueues (e.exec cfg s) := by
  have hrefl := SameQueues.refl s
  cases e with
  | submit batch => nomatch he
  | pick => nomatch he
  | requestCancel => nomatch he
  | backendSubmit ok =>
    show s.SameQueues (s.backendSubmit ok)
    unfold backendSubmit
    split
    · split <;> exact ⟨rfl, rfl, rfl, rfl, rfl, rfl⟩
    · exact hrefl
  | reap ops result => exact ⟨rfl, rfl, rfl, rfl, rfl, rfl⟩
  | finish =>
    show s.SameQueues s.finish
    unfold finish
    split <;> exact ⟨rfl, rfl, rfl, rfl, rfl, rfl⟩
  | enqueuePush who addr =>
    show s.SameQueues (s.enqueuePush who addr)
    unfold enqueuePush
    obtain ⟨sch, fl, htake⟩ := takeDone_fields s who
    cases s.nextDone who with
    | none => exact hrefl
    | some d =>
      rw [htake]
      exact ⟨rfl, rfl, rfl, rfl, rfl, rfl⟩
  | enqueueSettle =>
    show s.SameQueues s.enqueueSettle
    unfold enqueueSettle
    split
    · dsimp only
      split <;> exact ⟨rfl, rfl, rfl, rfl, rfl, rfl⟩
    · exact hrefl
  | enqueueEnd =>
    show s.SameQueues s.enqueueEnd
    unfold enqueueEnd
    split
    · dsimp only
      split <;> exact ⟨rfl, rfl, rfl, rfl, rfl, rfl⟩
    · exact hrefl
  | drainCompletions => exact ⟨rfl, rfl, rfl, rfl, rfl, rfl⟩
  | drainCompletionsForFile f => exact ⟨rfl, rfl, rfl, rfl, rfl, rfl⟩
  | releaseFile f =>
    show s.SameQueues (s.releaseFile f)
    unfold releaseFile
    dsimp only
    split <;> exact ⟨rfl, rfl, rfl, rfl, rfl, rfl⟩
  | releaseNow f => exact ⟨rfl, rfl, rfl, rfl, rfl, rfl⟩

/-- Only picks touch the credit. -/
theorem credit_exec {e : Event} (he : e ≠ .pick) :
    (e.exec cfg s).readCredit = s.readCredit ∧ (e.exec cfg s).writeCredit = s.writeCredit := by
  cases hl : leavesQueues e with
  | true =>
    have hsame : s.SameQueues (e.exec cfg s) := sameQueues_exec hl
    exact ⟨hsame.readCredit, hsame.writeCredit⟩
  | false =>
    cases e with
    | pick => exact absurd rfl he
    | requestCancel =>
      show s.requestCancel.readCredit = _ ∧ s.requestCancel.writeCredit = _
      unfold requestCancel
      split <;> exact ⟨rfl, rfl⟩
    | submit batch =>
      have hall : ∀ (batch : List IoRequest) (t : Driver),
          (t.acceptAll cfg batch).readCredit = t.readCredit ∧
            (t.acceptAll cfg batch).writeCredit = t.writeCredit := by
        intro batch
        induction batch with
        | nil => exact fun t => ⟨rfl, rfl⟩
        | cons req batch ih =>
          intro t
          rw [acceptAll]
          split
          · exact ⟨rfl, rfl⟩
          · obtain ⟨rq, wq, heq⟩ := accept_eq t req
            have hrest := ih (t.accept req)
            rw [heq] at hrest ⊢
            exact hrest
      show (s.submit cfg batch).readCredit = _ ∧ (s.submit cfg batch).writeCredit = _
      unfold submit
      split
      · exact ⟨rfl, rfl⟩
      · exact hall batch s
    | _ => cases hl

theorem pickedBy_other {e : Event} (he : e ≠ .pick) : s.pickedBy cfg e = [] := by
  cases e with
  | pick => exact absurd rfl he
  | _ => rfl

theorem funded_exec (hf : Funded cfg s) (e : Event) : Funded cfg (e.exec cfg s) := by
  by_cases he : e = .pick
  · subst he
    show Funded cfg ((s.pick cfg).getD s)
    cases hp : s.pick cfg with
    | none => exact hf
    | some s' => exact hf.pick hp
  · obtain ⟨hrc, hwc⟩ : (e.exec cfg s).readCredit = s.readCredit ∧ (e.exec cfg s).writeCredit = s.writeCredit :=
      credit_exec he
    exact ⟨hrc ▸ hf.read, hwc ▸ hf.write⟩

theorem funded_reach (h : (machine cfg).Reach (fun _ _ => True) s) : Funded cfg s :=
  h.invariant (I := Funded cfg) ⟨le_rfl, le_rfl⟩ fun _ e hs _ _ => funded_exec hs e

/-! ### Bursts -/

/-- Both queues wait whenever an operation is picked. -/
def Contended (s : Driver) (e : Event) : Prop := e = .pick → s.readQ ≠ [] ∧ s.writeQ ≠ []

/-- How many operations of a kind can still be picked before the other kind has its turn. -/
def burstLeft (cfg : IoDriverConfig) (s : Driver) : OpKind → ℕ
  | .read => s.readCredit + if s.writeCredit = 0 then credit cfg.readWeight else 0
  | .write => if s.readCredit = 0 then s.writeCredit else 0

/-- A contended pick of a kind uses up one of its burst. -/
theorem burstLeft_pick (h : s.pick cfg = some s') (hr : s.readQ ≠ []) (hw : s.writeQ ≠ []) :
    ∃ k op, Takes s s' k op ∧ burstLeft cfg s' k + 1 ≤ burstLeft cfg s k := by
  obtain ⟨k, op, ht, hcredit⟩ := pick_contended h hr hw
  have hrpos := credit_pos cfg.readWeight
  have hwpos := credit_pos cfg.writeWeight
  refine ⟨k, op, ht, ?_⟩
  rcases hcredit with ⟨rfl, hpos, hrc, hwc⟩ | ⟨rfl, hzero, hpos, hrc, hwc⟩ | ⟨rfl, hzero, hnone, hrc, hwc⟩
  · unfold burstLeft
    dsimp only
    rw [hrc, hwc]
    omega
  · unfold burstLeft
    dsimp only
    rw [hrc, hwc, if_pos rfl, if_pos hzero]
    omega
  · -- a renewed credit for writes ends the burst of reads
    have hopen : ¬ credit cfg.writeWeight = 0 := by omega
    unfold burstLeft
    dsimp only
    rw [hrc, hwc, hzero, hnone, if_neg hopen, if_pos rfl]
    omega

/-- The operations in a queue are of its kind. -/
def Sorted (s : Driver) : Prop := ∀ k, ∀ op ∈ s.queueOf k, op.req.kind = k

/-! ### The order within a queue -/

/-- The operations of one priority. -/
def ofPrio (q : List Op) (p : Prio) : List Op := q.filter fun op => op.req.prio = p

/-- The operations of one kind and priority. -/
def streamOf (l : List Op) (k : OpKind) (p : Prio) : List Op :=
  l.filter fun op => op.req.kind = k ∧ op.req.prio = p

/-- `popSmall` takes the first small operation and leaves the others in order, -/
theorem popSmall_order {q rest : List Op} {op : Op} (h : popSmall q = some (op, rest)) :
    op.req.prio = .small ∧ ofPrio q .small = op :: ofPrio rest .small ∧ ofPrio q .large = ofPrio rest .large := by
  induction q generalizing rest with
  | nil => nomatch h
  | cons x q ih =>
    rw [popSmall] at h
    by_cases hx : x.req.prio = .small
    · rw [if_pos hx] at h
      cases h
      refine ⟨hx, ?_, ?_⟩
      · simp [ofPrio, hx]
      · simp [ofPrio, hx]
    · rw [if_neg hx] at h
      obtain ⟨⟨op', rest'⟩, hpop, hpair⟩ := Option.map_eq_some_iff.1 h
      cases hpair
      obtain ⟨hsmall, hfirst, hothers⟩ := ih hpop
      unfold ofPrio at hfirst hothers ⊢
      refine ⟨hsmall, ?_, ?_⟩
      · simpa [hx] using hfirst
      · cases hprio : x.req.prio with
        | small => exact absurd hprio hx
        | large => simp [hprio, hothers]

/-- and finds none only if there is none. -/
theorem popSmall_none {q : List Op} (h : popSmall q = none) : ∀ op ∈ q, op.req.prio = .large := by
  induction q with
  | nil => exact fun _ h => absurd h List.not_mem_nil
  | cons x q ih =>
    rw [popSmall] at h
    by_cases hx : x.req.prio = .small
    · rw [if_pos hx] at h
      cases h
    · rw [if_neg hx, Option.map_eq_none_iff] at h
      intro op hop
      rcases List.mem_cons.1 hop with rfl | hrest
      · cases hprio : op.req.prio with
        | small => exact absurd hprio hx
        | large => rfl
      · exact ih h op hrest

/-- `PopPreferSmall` takes the first operation of its priority and leaves the others in order; it takes a
large one only if no small one waits. -/
theorem popPreferSmall_order {q rest : List Op} {op : Op} (h : popPreferSmall q = some (op, rest)) :
    (op.req.prio = .large → ∀ other ∈ q, other.req.prio = .large) ∧
      ∀ p, ofPrio q p = ofPrio [op] p ++ ofPrio rest p := by
  unfold popPreferSmall at h
  cases hpop : popSmall q with
  | some r =>
    rw [hpop] at h
    cases h
    obtain ⟨hsmall, hfirst, hothers⟩ := popSmall_order hpop
    refine ⟨fun hlarge => ?_, fun p => ?_⟩
    · rw [hsmall] at hlarge
      nomatch hlarge
    · cases p with
      | small => simpa [ofPrio, hsmall] using hfirst
      | large => simpa [ofPrio, hsmall] using hothers
  | none =>
    have hnone := popSmall_none hpop
    rw [hpop] at h
    cases q with
    | nil => nomatch h
    | cons x q =>
      cases h
      refine ⟨fun _ => hnone, fun p => ?_⟩
      unfold ofPrio
      rw [← List.filter_append, List.singleton_append]

/-- What was picked of a kind and a priority, then what waits in the queue, is how it was accepted; once
cancelled, a rest of it was flushed. -/
structure InOrder (picked : List Op) (s : Driver) : Prop where
  sorted : s.Sorted
  order : ∀ k p, ∃ flushed, streamOf s.accepted k p = streamOf picked k p ++ ofPrio (s.queueOf k) p ++ flushed ∧
    (s.cancelled = false → flushed = [])

theorem streamOf_queue {q : List Op} {k : OpKind} (h : ∀ op ∈ q, op.req.kind = k) (p : Prio) :
    streamOf q k p = ofPrio q p := by
  unfold streamOf ofPrio
  apply List.filter_congr
  intro op hop
  simp [h op hop]

theorem streamOf_append (a b : List Op) (k : OpKind) (p : Prio) :
    streamOf (a ++ b) k p = streamOf a k p ++ streamOf b k p := List.filter_append _ _

theorem InOrder.same {picked : List Op} (h : InOrder picked s) (hs : s.SameQueues s') : InOrder picked s' := by
  have hqueue : ∀ k, s'.queueOf k = s.queueOf k := by
    intro k
    cases k with
    | read => exact hs.readQ
    | write => exact hs.writeQ
  refine ⟨fun k op hop => h.sorted k op (hqueue k ▸ hop), fun k p => ?_⟩
  rw [hs.accepted, hs.cancelled, hqueue]
  exact h.order k p

/-- A pick moves the first of a priority from the queue to the picked. -/
theorem InOrder.pick {picked : List Op} {k : OpKind} {op : Op} (h : InOrder picked s)
    (hpick : s.pick cfg = some s') (ht : Takes s s' k op) : InOrder (picked ++ [op]) s' := by
  have hopen := (pick_takes hpick).1
  have hperm := popPreferSmall_perm ht.pop
  have hkind : op.req.kind = k := h.sorted k op (hperm.mem_iff.2 (List.mem_cons_self ..))
  have hsingle : ∀ o ∈ [op], o.req.kind = k := by
    intro o ho
    rw [List.mem_singleton.1 ho, hkind]
  refine ⟨fun j o ho => ?_, fun j p => ?_⟩
  · by_cases hj : j = k
    · subst hj
      exact h.sorted j o (hperm.mem_iff.2 (List.mem_cons_of_mem _ ho))
    · rw [ht.other j hj] at ho
      exact h.sorted j o ho
  · obtain ⟨flushed, horder, hnone⟩ := h.order j p
    have hempty := hnone hopen
    subst hempty
    refine ⟨[], ?_, fun _ => rfl⟩
    rw [ht.accepted, horder, streamOf_append]
    by_cases hj : j = k
    · subst hj
      rw [streamOf_queue hsingle, (popPreferSmall_order ht.pop).2 p]
      simp only [List.append_assoc]
    · have hother : streamOf [op] j p = [] := by
        have hne : ¬ op.req.kind = j := fun heq => hj (heq.symm.trans hkind)
        simp [streamOf, hne]
      rw [ht.other j hj, hother]
      simp only [List.append_nil]

/-- An accepted operation waits behind all others of its kind. -/
theorem InOrder.accept {picked : List Op} (h : InOrder picked s) (hopen : s.cancelled = false) (req : IoRequest) :
    InOrder picked (s.accept req) := by
  have hqueue : ∀ k, (s.accept req).queueOf k =
      s.queueOf k ++ if req.kind = k then [⟨s.accepted.length, req⟩] else [] := by
    intro k
    unfold Driver.accept queueOf
    cases req.kind with
    | read => cases k <;> simp
    | write => cases k <;> simp
  have haccepted : (s.accept req).accepted = s.accepted ++ [⟨s.accepted.length, req⟩] := by
    obtain ⟨rq, wq, heq⟩ := accept_eq s req
    rw [heq]
  have hcancelled : (s.accept req).cancelled = s.cancelled := by
    obtain ⟨rq, wq, heq⟩ := accept_eq s req
    rw [heq]
  refine ⟨fun k op hop => ?_, fun k p => ?_⟩
  · rw [hqueue, List.mem_append] at hop
    rcases hop with hold | hnew
    · exact h.sorted k op hold
    · by_cases hk : req.kind = k
      · rw [if_pos hk, List.mem_singleton] at hnew
        rw [hnew]
        exact hk
      · rw [if_neg hk] at hnew
        nomatch hnew
  · obtain ⟨flushed, horder, hnone⟩ := h.order k p
    have hempty := hnone hopen
    subst hempty
    refine ⟨[], ?_, fun _ => rfl⟩
    rw [haccepted, streamOf_append, horder, hqueue]
    by_cases hk : req.kind = k
    · have hsingle : ∀ o ∈ [(⟨s.accepted.length, req⟩ : Op)], o.req.kind = k := by
        intro o ho
        rw [List.mem_singleton.1 ho]
        exact hk
      rw [streamOf_queue hsingle, if_pos hk]
      simp [ofPrio]
    · rw [if_neg hk, List.append_nil]
      simp [streamOf, hk]

theorem InOrder.acceptAll {picked : List Op} (h : InOrder picked s) (hopen : s.cancelled = false)
    (batch : List IoRequest) : InOrder picked (s.acceptAll cfg batch) := by
  induction batch generalizing s with
  | nil => exact h
  | cons req batch ih =>
    rw [Driver.acceptAll]
    split
    · exact h
    · obtain ⟨rq, wq, heq⟩ := accept_eq s req
      have hstill : (s.accept req).cancelled = false := by
        rw [heq]
        exact hopen
      exact ih (h.accept hopen req) hstill

/-- Cancelling empties both queues. -/
theorem InOrder.requestCancel {picked : List Op} (h : InOrder picked s) : InOrder picked s.requestCancel := by
  unfold Driver.requestCancel
  by_cases hc : s.cancelled = true
  · rw [if_pos hc]
    exact h
  · rw [if_neg hc]
    have hqueue : ∀ k, ({ s with
        cancelled := true
        readQ := []
        writeQ := []
        flush := (s.readQ ++ s.writeQ).map fun op => op.complete ⟨.cancelled, 0, []⟩ } : Driver).queueOf k = [] := by
      intro k
      cases k <;> rfl
    refine ⟨fun k op hop => ?_, fun k p => ?_⟩
    · rw [hqueue] at hop
      nomatch hop
    · obtain ⟨flushed, horder, -⟩ := h.order k p
      refine ⟨ofPrio (s.queueOf k) p ++ flushed, ?_, nofun⟩
      rw [hqueue]
      simpa [ofPrio, List.append_assoc] using horder

/-- **One step keeps the order.** -/
theorem InOrder.exec {picked : List Op} (h : InOrder picked s) (e : Event) :
    InOrder (picked ++ s.pickedBy cfg e) (e.exec cfg s) := by
  cases hl : leavesQueues e with
  | true =>
    have hne : e ≠ .pick := by
      rintro rfl
      nomatch hl
    rw [pickedBy_other hne, List.append_nil]
    exact h.same (sameQueues_exec hl)
  | false =>
    cases e with
    | pick =>
      show InOrder _ ((s.pick cfg).getD s)
      cases hp : s.pick cfg with
      | none =>
        have hnothing : s.pickedBy cfg .pick = [] := by
          unfold pickedBy
          rw [hp]
        rw [hnothing, List.append_nil]
        exact h
      | some s' =>
        obtain ⟨-, k, op, ht, -⟩ := pick_takes hp
        rw [pickedBy_pick hp ht]
        exact h.pick hp ht
    | submit batch =>
      rw [pickedBy_other (by nofun), List.append_nil]
      show InOrder _ (s.submit cfg batch)
      unfold Driver.submit
      split
      · exact h
      · rename_i hopen
        exact h.acceptAll (by simpa using hopen) batch
    | requestCancel =>
      rw [pickedBy_other (by nofun), List.append_nil]
      exact h.requestCancel
    | _ => nomatch hl

/-- **A run keeps the order.** -/
theorem InOrder.run {picked : List Op} (h : InOrder picked s) (es : List Event) :
    InOrder (picked ++ picks cfg s es) ((machine cfg).run s es) := by
  induction es generalizing s picked with
  | nil =>
    rw [picks, List.append_nil]
    exact h
  | cons e es ih =>
    rw [picks, ← List.append_assoc]
    exact ih (h.exec e)

theorem inOrder_init (cfg : IoDriverConfig) : InOrder [] (Driver.init cfg) := by
  have hqueue : ∀ k, (Driver.init cfg).queueOf k = [] := by
    intro k
    cases k <;> rfl
  refine ⟨fun k op hop => ?_, fun k p => ⟨[], ?_, fun _ => rfl⟩⟩
  · rw [hqueue] at hop
    nomatch hop
  · rw [hqueue]
    rfl

/-- A contended run that picks one kind only is no longer than the burst that is left. -/
theorem picks_le_burstLeft {picked : List Op} (hord : InOrder picked s) {es : List Event}
    (hes : (machine cfg).Allows Contended s es) {k : OpKind} (hk : ∀ op ∈ picks cfg s es, op.req.kind = k) :
    (picks cfg s es).length ≤ burstLeft cfg s k := by
  induction es generalizing s picked with
  | nil => exact Nat.zero_le _
  | cons e es ih =>
    obtain ⟨-, hcontended, hrest⟩ := hes
    rw [picks] at hk ⊢
    have hstep : InOrder (picked ++ s.pickedBy cfg e) (e.exec cfg s) := hord.exec e
    have hlater := ih hstep hrest fun op hop => hk op (List.mem_append_right _ hop)
    by_cases he : e = .pick
    · subst he
      obtain ⟨hr, hw⟩ := hcontended rfl
      cases hp : s.pick cfg with
      | none =>
        have hnothing : s.pickedBy cfg .pick = [] := by
          unfold pickedBy
          rw [hp]
        have hstays : Event.exec cfg s .pick = s := by
          show (s.pick cfg).getD s = s
          rw [hp]
          rfl
        rw [hstays] at hlater
        rw [hnothing, List.nil_append, hstays]
        exact hlater
      | some s' =>
        have hnext : Event.exec cfg s .pick = s' := by
          show (s.pick cfg).getD s = s'
          rw [hp]
          rfl
        obtain ⟨j, op, ht, hburst⟩ := burstLeft_pick hp hr hw
        rw [pickedBy_pick hp ht, hnext] at hk ⊢
        rw [hnext] at hlater
        have hqueued : op ∈ s.queueOf j := (popPreferSmall_perm ht.pop).mem_iff.2 (List.mem_cons_self ..)
        have hj : j = k := (hord.sorted j op hqueued).symm.trans (hk op (List.mem_append_left _ (List.mem_singleton.2 rfl)))
        subst hj
        rw [List.length_append, List.length_singleton]
        omega
    · have hcredit : (e.exec cfg s).readCredit = s.readCredit ∧ (e.exec cfg s).writeCredit = s.writeCredit := credit_exec he
      have hsame : burstLeft cfg (e.exec cfg s) k = burstLeft cfg s k := by
        unfold burstLeft
        rw [hcredit.1, hcredit.2]
      rw [pickedBy_other he, List.nil_append, ← hsame]
      exact hlater

/-- The longest burst of a kind. -/
def burst (cfg : IoDriverConfig) : OpKind → ℕ
  | .read => 2 * credit cfg.readWeight
  | .write => credit cfg.writeWeight

theorem burstLeft_le (h : Funded cfg s) (k : OpKind) : burstLeft cfg s k ≤ burst cfg k := by
  have hr := h.read
  have hw := h.write
  unfold burstLeft burst
  cases k with
  | read =>
    dsimp only
    split <;> omega
  | write =>
    dsimp only
    split <;> omega

/-- **Weighted fairness.** After every run of the driver, for all weights (0 counts as 1): any further run in
which both queues wait at every pick, and which picks operations of one kind only, picks at most twice the
read weight of reads, or the write weight of writes. The next pick takes a large operation only if no small
one of its kind waits. And for each kind and priority, what was picked so far is, in order, a beginning of
what was accepted; unless cancelled, what waits in the queue is the rest. -/
theorem weighted_fairness (cfg : IoDriverConfig) {es : List Event}
    (hes : (machine cfg).Allows (fun _ _ => True) (machine cfg).init es) :
    let s := (machine cfg).run (machine cfg).init es
    (∀ fs k, (machine cfg).Allows Contended s fs → (∀ op ∈ picks cfg s fs, op.req.kind = k) →
      (picks cfg s fs).length ≤ burst cfg k) ∧
    (∀ op ∈ s.pickedBy cfg .pick, op.req.prio = .large →
      ∀ other ∈ s.queueOf op.req.kind, other.req.prio = .large) ∧
    ∀ k p, streamOf (picks cfg (machine cfg).init es) k p <+: streamOf s.accepted k p ∧
      (s.cancelled = false →
        streamOf s.accepted k p = streamOf (picks cfg (machine cfg).init es) k p ++ ofPrio (s.queueOf k) p) := by
  intro s
  have hord : InOrder ([] ++ picks cfg (machine cfg).init es) s := (inOrder_init cfg).run es
  rw [List.nil_append] at hord
  have hfunded : Funded cfg s := funded_reach (Runs.Machine.reach_run hes)
  refine ⟨fun fs k hfs hk => (picks_le_burstLeft hord hfs hk).trans (burstLeft_le hfunded k), ?_, fun k p => ?_⟩
  · intro op hop hlarge
    cases hp : s.pick cfg with
    | none =>
      unfold pickedBy at hop
      rw [hp] at hop
      nomatch hop
    | some s' =>
      obtain ⟨-, k, taken, ht, -⟩ := pick_takes hp
      rw [pickedBy_pick hp ht, List.mem_singleton] at hop
      subst hop
      have hqueued : op ∈ s.queueOf k := (popPreferSmall_perm ht.pop).mem_iff.2 (List.mem_cons_self ..)
      rw [hord.sorted k op hqueued]
      exact (popPreferSmall_order ht.pop).1 hlarge
  · obtain ⟨flushed, horder, hnone⟩ := hord.order k p
    refine ⟨⟨ofPrio (s.queueOf k) p ++ flushed, ?_⟩, fun hopen => ?_⟩
    · rw [horder, List.append_assoc]
    · rw [horder, hnone hopen, List.append_nil]

/-- Four reads and two writes with read weight 2. The first write is picked alone; after it the credit for
writes is spent, and all four reads come before the second write. -/
def burstRun : List Event :=
  let read (n : ℕ) : IoRequest := { fileId := 1, offset := n, length := 8 }
  let write (n : ℕ) : IoRequest := { kind := .write, fileId := 2, offset := n, length := 8 }
  [.submit [write 0], .pick, .backendSubmit true, .submit [read 0, read 1, read 2, read 3, read 4, write 1]]

theorem weighted_fairness_burst :
    (picks { readWeight := 2 } ((machine { readWeight := 2 }).run (machine { readWeight := 2 }).init burstRun)
      [.pick, .backendSubmit true, .pick, .backendSubmit true, .pick, .backendSubmit true, .pick]).length ≤ 4 := by
  have hallows : (machine { readWeight := 2 }).Allows (fun _ _ => True) (machine { readWeight := 2 }).init burstRun := by decide
  have hfair := weighted_fairness { readWeight := 2 } hallows
  exact hfair.1 _ .read ⟨by decide, fun _ => by decide, by decide, nofun, by decide, fun _ => by decide, by decide,
    nofun, by decide, fun _ => by decide, by decide, nofun, by decide, fun _ => by decide, trivial⟩ (by decide)

end Driver

end FastClone.DiskIo
