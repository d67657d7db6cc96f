import FastClone.Spec.ServerHash
import Mathlib.Tactic.Common

/-!
# The server answers control requests once

`Booked` is the account of one session: every request it has received is answered, dropped,
ignored, with the receive loop or in the pool, in one of these places once, and the pending
count is the number of its jobs in the pool. The session's part of the pool is a list of jobs,
each with a mark when its answer is out.
-/

namespace FastClone.ServerHash

variable {P : Type}

def Phase.isEnding : Phase → Bool
  | .ending => true
  | _ => false

/-- The jobs of a session in the pool; the mark says that the job is past its answer. -/
def State.pool (s : State P) (sid : ℕ) : List (Job P × Bool) :=
  (s.tasks.filter fun job => job.session = sid).map (fun job => (job, false)) ++
    (s.running.filter fun r => r.1.session = sid).map (fun r => (r.1, r.2.isEnding))

/-- The receive loop has counted a job that is not in the pool. -/
def Recv.counts : Recv P → ℕ
  | .counted _ | .refused _ => 1
  | _ => 0

/-- How often a request is answered. -/
def Session.answered (t : Session P) (n : ℕ) : ℕ := (t.sent ++ t.outboundHigh).countP fun p => p.1 = n

/-- How often the receive loop holds a request. -/
def Recv.holds (c : Recv P) (n : ℕ) : ℕ := c.job.toList.countP fun job => job.request = n

/-- How often a job waits to answer a request. -/
def openIn (pool : List (Job P × Bool)) (n : ℕ) : ℕ :=
  pool.countP fun q => !q.2 && decide (q.1.request = n)

/-- The account of one session. -/
structure Booked (sid : ℕ) (t : Session P) (pool : List (Job P × Bool)) : Prop where
  once : ∀ n, t.answered n + t.dropped.count n + t.ignored.count n + t.recv.holds n + openIn pool n =
    if n < t.received.length then 1 else 0
  answers : ∀ p ∈ t.sent ++ t.outboundHigh, t.received[p.1]? = some (p.2.kind, p.2.rel)
  held : ∀ job ∈ t.recv.job, job.session = sid ∧ t.received[job.request]? = some (job.kind, job.rel)
  pooled : ∀ q ∈ pool, t.received[q.1.request]? = some (q.1.kind, q.1.rel)
  ignored : ∀ n ∈ t.ignored, t.check = true ∧ ∃ rel, t.received[n]? = some (.blockSig, rel)
  dropped : t.done = false → t.dropped = []
  pending : t.sessionPendingHashJobs = pool.length + t.recv.counts
  drained : t.drained = some false → t.sessionPendingHashJobs = 0 ∧ t.recv.isDead = true

namespace Booked

variable {sid : ℕ} {t : Session P} {pool pool' : List (Job P × Bool)} {job : Job P}

/-- The order of the jobs does not matter. -/
theorem perm (h : Booked sid t pool) (hp : pool'.Perm pool) : Booked sid t pool' where
  once := by
    intro n
    have : openIn pool' n = openIn pool n := hp.countP_eq _
    rw [this]
    exact h.once n
  answers := h.answers
  held := h.held
  pooled := fun q hq => h.pooled q (hp.mem_iff.1 hq)
  ignored := h.ignored
  dropped := h.dropped
  pending := by
    rw [hp.length_eq]
    exact h.pending
  drained := h.drained

/-- A change of the receive loop that keeps its request and its count. -/
theorem setRecv (h : Booked sid t pool) {c : Recv P} (hjob : c.job = t.recv.job)
    (hcounts : c.counts = t.recv.counts) (hlive : t.recv.isDead = false) :
    Booked sid { t with recv := c } pool where
  once := by
    intro n
    have : c.holds n = t.recv.holds n := by
      unfold Recv.holds
      rw [hjob]
    have hn := h.once n
    rw [← this] at hn
    exact hn
  answers := h.answers
  held := by
    dsimp only
    rw [hjob]
    exact h.held
  pooled := h.pooled
  ignored := h.ignored
  dropped := h.dropped
  pending := by
    dsimp only
    rw [hcounts]
    exact h.pending
  drained := by
    intro hd
    have := (h.drained hd).2
    rw [hlive] at this
    cases this

/-- The receive loop lets its request go: `k` says where it has gone. -/
theorem once_letGo (h : Booked sid t pool) (hjob : t.recv.job = some job) (n : ℕ) :
    t.answered n + t.dropped.count n + t.ignored.count n + openIn pool n +
      (if job.request = n then 1 else 0) = if n < t.received.length then 1 else 0 := by
  have hn := h.once n
  have hholds : t.recv.holds n = if job.request = n then 1 else 0 := by
    unfold Recv.holds
    rw [hjob]
    by_cases hr : job.request = n <;> simp [hr]
  rw [hholds] at hn
  omega

theorem answered_enqueueHigh (t : Session P) (r : ℕ) (a : Answer P) (n : ℕ) :
    (t.enqueueHigh r a).answered n = t.answered n + if r = n then 1 else 0 := by
  unfold Session.answered Session.enqueueHigh
  dsimp only
  rw [← List.append_assoc, List.countP_append]
  by_cases hr : r = n <;> simp [hr]

theorem count_drop (t : Session P) (r n : ℕ) :
    (t.drop r).dropped.count n = t.dropped.count n + if r = n then 1 else 0 := by
  unfold Session.drop
  dsimp only
  rw [List.count_append]
  by_cases hr : r = n <;> simp [hr]

theorem answer_kind (k : Kind) (rel : P) (v : Option Value) : (k.answer rel v).kind = k := by
  cases k <;> rcases v with _ | ⟨_ | _⟩ <;> rfl

theorem answer_rel (k : Kind) (rel : P) (v : Option Value) : (k.answer rel v).rel = rel := by
  cases k <;> rcases v with _ | ⟨_ | _⟩ <;> rfl

/-- An open job is no drained session's. -/
theorem not_drained (h : Booked sid t pool) (hlive : t.recv.isDead = false) : t.drained ≠ some false := by
  intro hd
  have := (h.drained hd).2
  rw [hlive] at this
  cases this

/-- What was received stays where it is when one request more is. -/
theorem received_snoc {x y : Kind × P} {n : ℕ} (hx : t.received[n]? = some x) :
    (t.received ++ [y])[n]? = some x := by
  rw [List.getElem?_append_left (List.getElem?_eq_some_iff.1 hx).1]
  exact hx

/-- A request received takes the next number. -/
theorem received_next (t : Session P) (y : Kind × P) (n : ℕ) :
    (if n < t.received.length then 1 else 0) + (if t.received.length = n then 1 else 0) =
      if n < (t.received ++ [y]).length then 1 else 0 := by
  rw [List.length_append, List.length_singleton]
  split <;> split <;> split <;> omega

/-- A check session passes over a signature request. -/
theorem ignore (h : Booked sid t pool) (hcheck : t.check = true) (rel : P) :
    Booked sid { t with
      received := t.received ++ [(.blockSig, rel)]
      ignored := t.ignored ++ [t.received.length] } pool := by
  refine ⟨?_, fun p hp => received_snoc (h.answers p hp), fun job hjob => ⟨(h.held job hjob).1,
    received_snoc (h.held job hjob).2⟩, fun q hq => received_snoc (h.pooled q hq), ?_, h.dropped,
    h.pending, h.drained⟩
  · intro n
    rw [← received_next t _ n, ← h.once n]
    dsimp only
    rw [List.count_append, List.count_singleton]
    simp only [beq_iff_eq, Session.answered]
    omega
  · intro n hn
    rcases List.mem_append.1 hn with hn | hn
    · obtain ⟨hc, rel', hrel'⟩ := h.ignored n hn
      exact ⟨hc, rel', received_snoc hrel'⟩
    · rw [List.mem_singleton.1 hn]
      exact ⟨hcheck, rel, by simp⟩

/-- The receive loop holds any other request from now on. -/
theorem receive (h : Booked sid t pool) (hidle : t.recv.isIdle) (job : Job P) {c : Recv P}
    (hjob : c.job = some job) (hcounts : c.counts = 0) (hsid : job.session = sid)
    (hreq : job.request = t.received.length) :
    Booked sid { t with received := t.received ++ [(job.kind, job.rel)], recv := c } pool := by
  have hrecv : t.recv = .idle := by
    cases hr : t.recv <;> rw [hr] at hidle <;> first | rfl | cases hidle
  have hnd : t.drained ≠ some false := h.not_drained (by rw [hrecv]; rfl)
  refine ⟨?_, fun p hp => received_snoc (h.answers p hp), ?_, fun q hq => received_snoc (h.pooled q hq),
    ?_, h.dropped, ?_, fun hd => absurd hd hnd⟩
  · intro n
    rw [← received_next t _ n, ← h.once n, hrecv]
    have hholds : c.holds n = if t.received.length = n then 1 else 0 := by
      unfold Recv.holds
      rw [hjob, ← hreq]
      by_cases hr : job.request = n <;> simp [hr]
    dsimp only
    rw [hholds]
    simp only [Session.answered, Recv.holds, Recv.job, Option.toList_none, List.countP_nil]
    omega
  · intro job' hjob'
    rw [hjob] at hjob'
    cases hjob'
    refine ⟨hsid, ?_⟩
    rw [hreq]
    simp
  · intro n hn
    obtain ⟨hc, rel', hrel'⟩ := h.ignored n hn
    exact ⟨hc, rel', received_snoc hrel'⟩
  · have := h.pending
    rw [hrecv] at this
    rw [hcounts]
    exact this

/-- The fingerprint of a request is read. -/
theorem date (h : Booked sid t pool) {size : ℕ} (hrecv : t.recv = .dating job size)
    (fingerprint : Option HashFingerprint) (since : ℕ) :
    Booked sid { t with recv := .looking { job with fingerprint := fingerprint, since := since } } pool := by
  have hnd : t.drained ≠ some false := h.not_drained (by rw [hrecv]; rfl)
  have hpend := h.pending
  rw [hrecv] at hpend
  refine ⟨?_, h.answers, ?_, h.pooled, h.ignored, h.dropped, hpend, fun hd => absurd hd hnd⟩
  · intro n
    have hholds : t.recv.holds n = (Recv.looking { job with fingerprint, since }).holds n := by
      rw [hrecv]
      unfold Recv.holds
      by_cases hr : job.request = n <;> simp [Recv.job, hr]
    rw [← h.once n, hholds]
    rfl
  · intro job' hjob'
    cases hjob'
    exact h.held job (by rw [hrecv]; rfl)

/-- An answer to a request that came in is one more of the answers. -/
theorem answers_enqueueHigh (h : Booked sid t pool) {v : Option Value}
    (hjob : t.received[job.request]? = some (job.kind, job.rel)) :
    ∀ p ∈ t.sent ++ (t.outboundHigh ++ [(job.request, job.kind.answer job.rel v)]),
      t.received[p.1]? = some (p.2.kind, p.2.rel) := by
  intro p hp
  rw [← List.append_assoc] at hp
  rcases List.mem_append.1 hp with hold | hnew
  · exact h.answers p hold
  · rw [List.mem_singleton.1 hnew]
    dsimp only
    rw [answer_kind, answer_rel]
    exact hjob

/-- A hit is answered by the receive loop. -/
theorem answerHit (h : Booked sid t pool) {v : Value} (hrecv : t.recv = .hit job v) :
    Booked sid ({ t with recv := .idle }.enqueueHigh job.request (job.kind.answer job.rel (some v)))
      pool := by
  have hjob : t.recv.job = some job := by rw [hrecv]; rfl
  have hnd : t.drained ≠ some false := h.not_drained (by rw [hrecv]; rfl)
  refine ⟨?_, ?_, (fun job' hjob' => nomatch hjob'), h.pooled, h.ignored, h.dropped, ?_,
    fun hd => absurd hd hnd⟩
  · intro n
    rw [answered_enqueueHigh]
    have := h.once_letGo hjob n
    simp only [Session.answered, Session.enqueueHigh, Recv.holds, Recv.job, Option.toList_none,
      List.countP_nil] at this ⊢
    refine Eq.trans ?_ this
    omega
  · exact h.answers_enqueueHigh (h.held job hjob).2
  · have := h.pending
    rw [hrecv] at this
    exact this

theorem count (h : Booked sid t pool) (hrecv : t.recv = .missed job) :
    Booked sid { t with recv := .counted job, sessionPendingHashJobs := t.sessionPendingHashJobs + 1 }
      pool := by
  have hnd : t.drained ≠ some false := h.not_drained (by rw [hrecv]; rfl)
  have honce := h.once
  have hheld := h.held
  have hpend := h.pending
  rw [hrecv] at honce hheld hpend
  exact ⟨honce, h.answers, hheld, h.pooled, h.ignored, h.dropped,
    congrArg (· + 1) hpend, fun hd => absurd hd hnd⟩

/-- A counted job enters the pool. -/
theorem enqueue (h : Booked sid t pool) (hrecv : t.recv = .counted job) :
    Booked sid { t with recv := .idle } ((job, false) :: pool) := by
  have hjob : t.recv.job = some job := by rw [hrecv]; rfl
  have hnd : t.drained ≠ some false := h.not_drained (by rw [hrecv]; rfl)
  refine ⟨?_, h.answers, (fun job' hjob' => nomatch hjob'), ?_, h.ignored, h.dropped, ?_,
    fun hd => absurd hd hnd⟩
  · intro n
    have hopen : openIn ((job, false) :: pool) n = openIn pool n + if job.request = n then 1 else 0 := by
      unfold openIn
      by_cases hr : job.request = n <;> simp [hr]
    have := h.once_letGo hjob n
    rw [hopen]
    simp only [Session.answered, Recv.holds, Recv.job, Option.toList_none, List.countP_nil] at this ⊢
    refine Eq.trans ?_ this
    omega
  · intro q hq
    rcases List.mem_cons.1 hq with rfl | hq
    · exact (h.held job hjob).2
    · exact h.pooled q hq
  · have := h.pending
    rw [hrecv] at this
    exact this

/-- The receive loop ends with its request. -/
theorem dropHeld (h : Booked sid t pool) (hjob : t.recv.job = some job) (hcounts : t.recv.counts = 0)
    (hlive : t.recv.isDead = false) :
    Booked sid ({ t with recv := .dead }.drop job.request).finish pool := by
  have hnd : t.drained ≠ some false := h.not_drained hlive
  refine ⟨?_, h.answers, (fun job' hjob' => nomatch hjob'), h.pooled, h.ignored,
    (fun hd => nomatch hd), ?_, fun hd => absurd hd hnd⟩
  · intro n
    have := h.once_letGo hjob n
    have hdrop := count_drop { t with recv := .dead } job.request n
    simp only [Session.answered, Session.finish, Session.drop, Recv.holds, Recv.job, Option.toList_none,
      List.countP_nil] at this hdrop ⊢
    rw [hdrop]
    refine Eq.trans ?_ this
    omega
  · have := h.pending
    rw [hcounts] at this
    exact this

theorem refuse (h : Booked sid t pool) (hrecv : t.recv = .refused job) :
    Booked sid ({ t with recv := .dead }.uncount.drop job.request).finish pool := by
  have hjob : t.recv.job = some job := by rw [hrecv]; rfl
  have hnd : t.drained ≠ some false := h.not_drained (by rw [hrecv]; rfl)
  refine ⟨?_, h.answers, (fun job' hjob' => nomatch hjob'), h.pooled, h.ignored,
    (fun hd => nomatch hd), ?_, fun hd => absurd hd hnd⟩
  · intro n
    have := h.once_letGo hjob n
    have hdrop := count_drop { t with recv := .dead } job.request n
    simp only [Session.answered, Session.finish, Session.drop, Session.uncount, Recv.holds, Recv.job,
      Option.toList_none, List.countP_nil] at this hdrop ⊢
    rw [hdrop]
    refine Eq.trans ?_ this
    omega
  · have := h.pending
    rw [hrecv] at this
    show t.sessionPendingHashJobs - 1 = pool.length
    rw [this]
    rfl

theorem finish (h : Booked sid t pool) : Booked sid t.finish pool :=
  ⟨h.once, h.answers, h.held, h.pooled, h.ignored, (fun hd => nomatch hd), h.pending, h.drained⟩

/-- The receive loop ends without a request. -/
theorem die (h : Booked sid t pool) (hidle : t.recv.isIdle) : Booked sid { t with recv := .dead } pool := by
  have hrecv : t.recv = .idle := by
    cases hr : t.recv <;> rw [hr] at hidle <;> first | rfl | cases hidle
  have hnd : t.drained ≠ some false := h.not_drained (by rw [hrecv]; rfl)
  have honce := h.once
  have hpend := h.pending
  rw [hrecv] at honce hpend
  exact ⟨honce, h.answers, (fun job' hjob' => nomatch hjob'), h.pooled, h.ignored, h.dropped, hpend,
    fun hd => absurd hd hnd⟩

theorem send (h : Booked sid t pool) : Booked sid
    { t with sent := t.sent ++ t.outboundHigh.take 1, outboundHigh := t.outboundHigh.drop 1 } pool := by
  have hsplit : t.sent ++ t.outboundHigh.take 1 ++ t.outboundHigh.drop 1 = t.sent ++ t.outboundHigh := by
    rw [List.append_assoc, List.take_append_drop]
  refine ⟨?_, ?_, h.held, h.pooled, h.ignored, h.dropped, h.pending, h.drained⟩
  · intro n
    have := h.once n
    unfold Session.answered at this ⊢
    dsimp only
    rw [hsplit]
    exact this
  · dsimp only
    rw [hsplit]
    exact h.answers

theorem drain (h : Booked sid t pool) {timedOut : Bool}
    (hd : timedOut = false → t.sessionPendingHashJobs = 0 ∧ t.recv.isDead = true) :
    Booked sid { t with drained := some timedOut } pool :=
  ⟨h.once, h.answers, h.held, h.pooled, h.ignored, h.dropped, h.pending, fun he => hd (Option.some.inj he)⟩

/-- A job waits no more: its request is answered or dropped. -/
theorem once_close (h : Booked sid t ((job, false) :: pool)) (n : ℕ) :
    t.answered n + t.dropped.count n + t.ignored.count n + t.recv.holds n +
      openIn ((job, true) :: pool) n + (if job.request = n then 1 else 0) =
        if n < t.received.length then 1 else 0 := by
  have hn := h.once n
  have hfalse : openIn ((job, false) :: pool) n = openIn pool n + if job.request = n then 1 else 0 := by
    unfold openIn
    by_cases hr : job.request = n <;> simp [hr]
  have htrue : openIn ((job, true) :: pool) n = openIn pool n := by
    unfold openIn
    simp
  rw [hfalse] at hn
  rw [htrue]
  omega

theorem pooled_close (h : Booked sid t ((job, false) :: pool)) :
    ∀ q ∈ (job, true) :: pool, t.received[q.1.request]? = some (q.1.kind, q.1.rel) := by
  intro q hq
  rcases List.mem_cons.1 hq with rfl | hq
  · exact h.pooled (job, false) List.mem_cons_self
  · exact h.pooled q (List.mem_cons_of_mem _ hq)

/-- A job gives its request up because the session is done. -/
theorem dropJob (h : Booked sid t ((job, false) :: pool)) (hdone : t.done = true) :
    Booked sid (t.drop job.request) ((job, true) :: pool) := by
  refine ⟨?_, h.answers, h.held, h.pooled_close, h.ignored, ?_, h.pending, h.drained⟩
  · intro n
    rw [count_drop]
    have := h.once_close n
    simp only [Session.answered, Session.drop] at this ⊢
    refine Eq.trans ?_ this
    omega
  · intro hd
    exact absurd (hdone.symm.trans hd) (by decide)

theorem dropJob_finish (h : Booked sid t ((job, false) :: pool)) :
    Booked sid (t.drop job.request).finish ((job, true) :: pool) := by
  refine ⟨?_, h.answers, h.held, h.pooled_close, h.ignored, (fun hd => nomatch hd), h.pending, h.drained⟩
  intro n
  have hdrop := count_drop t job.request n
  have := h.once_close n
  simp only [Session.answered, Session.drop, Session.finish] at this hdrop ⊢
  rw [hdrop]
  refine Eq.trans ?_ this
  omega

/-- A job answers. -/
theorem respond (h : Booked sid t ((job, false) :: pool)) (v : Option Value) :
    Booked sid (t.enqueueHigh job.request (job.kind.answer job.rel v)) ((job, true) :: pool) := by
  refine ⟨?_, ?_, h.held, h.pooled_close, h.ignored, h.dropped, h.pending, h.drained⟩
  · intro n
    rw [answered_enqueueHigh]
    have := h.once_close n
    simp only [Session.answered, Session.enqueueHigh] at this ⊢
    refine Eq.trans ?_ this
    omega
  · exact h.answers_enqueueHigh (h.pooled (job, false) List.mem_cons_self)

/-- A job past its answer leaves the pool. -/
theorem finishJob (h : Booked sid t ((job, true) :: pool)) : Booked sid t.uncount pool := by
  have hpend := h.pending
  rw [List.length_cons] at hpend
  refine ⟨?_, h.answers, h.held, fun q hq => h.pooled q (List.mem_cons_of_mem _ hq), h.ignored,
    h.dropped, ?_, ?_⟩
  · intro n
    have hopen : openIn ((job, true) :: pool) n = openIn pool n := by
      unfold openIn
      simp
    have := h.once n
    rw [hopen] at this
    exact this
  · show t.sessionPendingHashJobs - 1 = _
    rw [hpend]
    show pool.length + 1 + t.recv.counts - 1 = pool.length + t.recv.counts
    omega
  · intro hd
    have := (h.drained hd).1
    omega

end Booked

/-! ### The pool -/

namespace State

variable {s s' : State P} {job : Job P} {phase : Phase} {sid : ℕ} {i : ℕ}

/-- The jobs around one that runs. -/
theorem running_split {r : Job P × Phase} (hr : s.running[i]? = some r) :
    ∃ a b, s.running = a ++ r :: b ∧ (∀ r', s.running.set i r' = a ++ r' :: b) ∧
      s.running.eraseIdx i = a ++ b := by
  obtain ⟨hi, hget⟩ := List.getElem?_eq_some_iff.1 hr
  have hsplit : s.running = s.running.take i ++ r :: s.running.drop (i + 1) := by
    rw [← hget, ← List.drop_eq_getElem_cons hi, List.take_append_drop]
  refine ⟨s.running.take i, s.running.drop (i + 1), hsplit, ?_, ?_⟩
  · intro r'
    rw [List.set_eq_take_append_cons_drop, if_pos hi]
  · rw [List.eraseIdx_eq_take_drop_succ]

/-- The jobs of a session among running ones. -/
def runningOf (running : List (Job P × Phase)) (sid : ℕ) : List (Job P × Bool) :=
  (running.filter fun r => r.1.session = sid).map fun r => (r.1, r.2.isEnding)

theorem runningOf_middle (a b : List (Job P × Phase)) (r : Job P × Phase) (sid : ℕ) :
    runningOf (a ++ r :: b) sid = runningOf a sid ++
      ((if r.1.session = sid then [(r.1, r.2.isEnding)] else []) ++ runningOf b sid) := by
  unfold runningOf
  rw [List.filter_append, List.map_append, List.filter_cons]
  by_cases hr : r.1.session = sid <;> simp [hr]

/-- A new phase on the same side of the answer changes nothing. -/
theorem pool_setPhase (hr : s.running[i]? = some (job, phase)) {phase' : Phase}
    (hend : phase'.isEnding = phase.isEnding) (sid : ℕ) :
    (s.setPhase i job phase').pool sid = s.pool sid := by
  obtain ⟨a, b, hsplit, hset, -⟩ := running_split hr
  have heq : runningOf (s.running.set i (job, phase')) sid = runningOf s.running sid := by
    rw [hset, hsplit, runningOf_middle, runningOf_middle]
    dsimp only
    rw [hend]
  exact congrArg (_ ++ ·) heq

/-- A running job of another session is not in the pool of this one. -/
theorem pool_setPhase_ne (hr : s.running[i]? = some (job, phase)) (phase' : Phase)
    (hsid : job.session ≠ sid) : (s.setPhase i job phase').pool sid = s.pool sid := by
  obtain ⟨a, b, hsplit, hset, -⟩ := running_split hr
  have heq : runningOf (s.running.set i (job, phase')) sid = runningOf s.running sid := by
    rw [hset, hsplit, runningOf_middle, runningOf_middle]
    dsimp only
    rw [if_neg hsid, if_neg hsid]
  exact congrArg (_ ++ ·) heq

/-- The job in the pool, and the rest: `rest` is the same for all phases of the job. -/
theorem pool_perm (hr : s.running[i]? = some (job, phase)) :
    ∃ rest, (s.pool job.session).Perm ((job, phase.isEnding) :: rest) ∧
      (∀ phase', ((s.setPhase i job phase').pool job.session).Perm ((job, phase'.isEnding) :: rest)) ∧
      (({ s with running := s.running.eraseIdx i } : State P).pool job.session).Perm rest := by
  obtain ⟨a, b, hsplit, hset, herase⟩ := running_split hr
  have hmid : ∀ phase', runningOf (a ++ (job, phase') :: b) job.session =
      runningOf a job.session ++ (job, phase'.isEnding) :: runningOf b job.session := by
    intro phase'
    rw [runningOf_middle, if_pos rfl]
    rfl
  have hput : ∀ (l : List (Job P × Bool)) phase', (l ++ runningOf (a ++ (job, phase') :: b) job.session).Perm
      ((job, phase'.isEnding) :: (l ++ runningOf (a ++ b) job.session)) := by
    intro l phase'
    rw [hmid, ← List.append_assoc]
    refine List.perm_middle.trans ?_
    rw [List.append_assoc]
    unfold runningOf
    rw [List.filter_append, List.map_append]
  refine ⟨_, ?_, ?_, .refl _⟩
  · have := hput ((s.tasks.filter fun j => j.session = job.session).map fun j => (j, false)) phase
    rw [← hsplit, ← herase] at this
    exact this
  · intro phase'
    have := hput ((s.tasks.filter fun j => j.session = job.session).map fun j => (j, false)) phase'
    rw [← hset, ← herase] at this
    exact this

theorem pool_erase_ne (hr : s.running[i]? = some (job, phase)) (hsid : job.session ≠ sid) :
    ({ s with running := s.running.eraseIdx i } : State P).pool sid = s.pool sid := by
  obtain ⟨a, b, hsplit, -, herase⟩ := running_split hr
  have heq : runningOf (s.running.eraseIdx i) sid = runningOf s.running sid := by
    rw [herase, hsplit, runningOf_middle]
    dsimp only
    rw [if_neg hsid, List.nil_append]
    unfold runningOf
    rw [List.filter_append, List.map_append]
  exact congrArg (_ ++ ·) heq

theorem pool_take (s : State P) (sid : ℕ) : (s.take.pool sid).Perm (s.pool sid) := by
  unfold State.take
  split
  · exact .refl _
  · rename_i job rest htasks
    unfold State.pool
    rw [htasks]
    dsimp only
    rw [List.filter_append, List.map_append, List.filter_cons, List.filter_cons]
    dsimp only
    split
    · rw [List.map_cons, ← List.append_assoc]
      exact List.perm_append_singleton _ _
    · rw [List.filter_nil, List.map_nil, List.append_nil]

/-! ### All sessions -/

/-- The accounts of all sessions. -/
def Booked (s : State P) : Prop := ∀ sid t, s.sessions[sid]? = some t → ServerHash.Booked sid t (s.pool sid)

theorem getElem?_onSession {f : Session P → Session P} {sid' : ℕ} {t : Session P}
    (ht : (s.onSession sid f).sessions[sid']? = some t) :
    (sid' = sid ∧ ∃ t₀, s.sessions[sid]? = some t₀ ∧ t = f t₀) ∨
      (sid' ≠ sid ∧ s.sessions[sid']? = some t) := by
  unfold onSession at ht
  dsimp only at ht
  rw [List.getElem?_modify] at ht
  obtain ⟨t₀, ht₀, hft⟩ := Option.map_eq_some_iff.1 ht
  by_cases hsid : sid = sid'
  · subst hsid
    rw [if_pos rfl] at hft
    exact Or.inl ⟨rfl, t₀, ht₀, hft.symm⟩
  · rw [if_neg hsid] at hft
    subst hft
    exact Or.inr ⟨fun e => hsid e.symm, ht₀⟩

/-- A step on one session that leaves the pools as they are. -/
theorem Booked.onSession (h : s.Booked) {f : Session P → Session P}
    (hf : ∀ t, s.sessions[sid]? = some t → ServerHash.Booked sid t (s.pool sid) →
      ServerHash.Booked sid (f t) (s.pool sid)) : (s.onSession sid f).Booked := by
  intro sid' t ht
  rcases getElem?_onSession ht with ⟨rfl, t₀, ht₀, rfl⟩ | ⟨-, ht⟩
  · exact hf t₀ ht₀ (h _ t₀ ht₀)
  · exact h sid' t ht

/-- A step of the receive loop from a known place. -/
theorem Booked.onRecv (h : s.Booked) {c : Recv P} (hc : (s.sessions[sid]?).map Session.recv = some c)
    {f : Session P → Session P}
    (hf : ∀ t, t.recv = c → ServerHash.Booked sid t (s.pool sid) →
      ServerHash.Booked sid (f t) (s.pool sid)) : (s.onSession sid f).Booked := by
  refine h.onSession fun t ht hb => hf t ?_ hb
  rw [ht] at hc
  exact Option.some.inj hc

theorem Booked.congr (h : s.Booked) (hs : s'.sessions = s.sessions)
    (hp : ∀ sid, (s'.pool sid).Perm (s.pool sid)) : s'.Booked := by
  intro sid t ht
  rw [hs] at ht
  exact (h sid t ht).perm (hp sid)

theorem Booked.setPhase (h : s.Booked) (hr : s.running[i]? = some (job, phase)) {phase' : Phase}
    (hend : phase'.isEnding = phase.isEnding) : (s.setPhase i job phase').Booked :=
  h.congr rfl fun sid => by rw [pool_setPhase hr hend]

/-- A job closes its request: the answer or the drop is written into its session. -/
theorem Booked.close (h : s.Booked) (hr : s.running[i]? = some (job, phase))
    (hopen : phase.isEnding = false) {f : Session P → Session P}
    (hf : ∀ t rest, s.sessions[job.session]? = some t →
      ServerHash.Booked job.session t ((job, false) :: rest) →
      ServerHash.Booked job.session (f t) ((job, true) :: rest)) :
    ((s.setPhase i job .ending).onSession job.session f).Booked := by
  intro sid t ht
  have hpool : ((s.setPhase i job .ending).onSession job.session f).pool sid =
    (s.setPhase i job .ending).pool sid := rfl
  rw [hpool]
  rcases getElem?_onSession ht with ⟨rfl, t₀, ht₀, rfl⟩ | ⟨hne, ht⟩
  · obtain ⟨rest, hbefore, hafter, -⟩ := pool_perm hr
    rw [hopen] at hbefore
    have hb := (h _ t₀ ht₀).perm hbefore.symm
    exact (hf t₀ rest ht₀ hb).perm (hafter .ending)
  · rw [pool_setPhase_ne hr .ending fun e => hne e.symm]
    exact h sid t ht

theorem Booked.finishJob (h : s.Booked) (i : ℕ) : (s.finishJob i).Booked := by
  unfold State.finishJob
  split
  · rename_i job hr
    intro sid t ht
    rcases getElem?_onSession ht with ⟨rfl, t₀, ht₀, rfl⟩ | ⟨hne, ht⟩
    · obtain ⟨rest, hbefore, -, herase⟩ := pool_perm hr
      have hb := (h _ t₀ ht₀).perm hbefore.symm
      exact hb.finishJob.perm herase
    · have heq := pool_erase_ne hr fun e => hne e.symm
      have hb := h sid t ht
      rw [← heq] at hb
      exact hb
  · exact h

theorem isDone_iff {t : Session P} (ht : s.sessions[sid]? = some t) : s.isDone sid = t.done := by
  unfold isDone
  rw [ht]
  rfl

theorem Booked.begin (h : s.Booked) (i : ℕ) (sizeOk : Bool) : (s.begin i sizeOk).Booked := by
  unfold State.begin
  split
  · rename_i job hr
    split
    · rename_i hgive
      refine h.close hr rfl fun t rest ht hb => hb.dropJob ?_
      rw [← isDone_iff ht]
      exact (Bool.and_eq_true_iff.1 hgive).2
    · split
      · exact h.setPhase hr rfl
      · exact h.setPhase hr rfl
  · exact h

theorem Booked.checkDone (h : s.Booked) (i : ℕ) : (s.checkDone i).Booked := by
  unfold State.checkDone
  split
  · rename_i job v hr
    split
    · rename_i hdone
      refine h.close hr rfl fun t rest ht hb => hb.dropJob ?_
      rw [← isDone_iff ht]
      exact hdone
    · exact h.setPhase hr rfl
  · exact h

theorem Booked.respond (h : s.Booked) (i : ℕ) (ok : Bool) : (s.respond i ok).Booked := by
  unfold State.respond
  split
  · rename_i job v hr
    refine h.close hr rfl fun t rest ht hb => ?_
    cases ok with
    | true => exact hb.respond v
    | false => exact hb.dropJob_finish
  · exact h

theorem Booked.enqueue (h : s.Booked) (sid : ℕ) (ok : Bool) : (s.enqueue sid ok).Booked := by
  unfold State.enqueue
  split
  · rename_i job hc
    cases ok with
    | true =>
      intro sid' t ht
      have hpool : ∀ sid', (({ s with tasks := s.tasks ++ [job] }.onSession sid fun t =>
          { t with recv := .idle } : State P).pool sid').Perm
          ((if job.session = sid' then [(job, false)] else []) ++ s.pool sid') := by
        intro sid'
        show (((s.tasks ++ [job]).filter fun j => j.session = sid').map (fun j => (j, false)) ++ _).Perm _
        rw [List.filter_append, List.map_append]
        unfold State.pool
        rw [← List.append_assoc]
        refine List.Perm.append_right _ (List.perm_append_comm.trans ?_)
        refine List.Perm.append_right _ ?_
        by_cases hs : job.session = sid' <;> simp [hs]
      obtain ⟨t₀, ht₀, hrecv⟩ := Option.map_eq_some_iff.1 hc
      have hsess : job.session = sid := ((h sid t₀ ht₀).held job (by rw [hrecv]; rfl)).1
      rcases getElem?_onSession ht with ⟨rfl, t₁, ht₁, rfl⟩ | ⟨hne, ht⟩
      · rw [ht₀] at ht₁
        cases ht₁
        have hp := hpool sid'
        rw [if_pos hsess] at hp
        exact ((h _ t₀ ht₀).enqueue hrecv).perm hp
      · have hp := hpool sid'
        rw [if_neg fun e => hne (e.symm.trans hsess), List.nil_append] at hp
        exact (h sid' t ht).perm hp
    | false =>
      refine h.onRecv hc fun t hrecv hb => hb.setRecv ?_ ?_ ?_
      · rw [hrecv]
        rfl
      · rw [hrecv]
        rfl
      · rw [hrecv]
        rfl
  · exact h

variable [DecidableEq P]

theorem Booked.lookup (h : s.Booked) (sid : ℕ) : (s.lookup sid).Booked := by
  unfold State.lookup
  split
  · rename_i job hc
    -- the request stays with the receive loop, in either case
    have hmove : ∀ (s' : State P) (c : Recv P), s'.sessions = s.sessions → s'.pool = s.pool →
        c.job = some job → c.counts = 0 → (s'.onSession sid fun t => { t with recv := c }).Booked := by
      intro s' c hsess hpool hjob hcounts
      have hs' : s'.Booked := h.congr hsess fun sid => by rw [hpool]
      refine hs'.onRecv (by rw [hsess]; exact hc) fun t hrecv hb => hb.setRecv ?_ ?_ ?_
      · rw [hrecv, hjob]
        rfl
      · rw [hrecv, hcounts]
        rfl
      · rw [hrecv]
        rfl
    split
    · exact hmove s _ rfl rfl rfl rfl
    · dsimp only
      split
      · exact hmove _ _ rfl rfl rfl rfl
      · exact hmove _ _ rfl rfl rfl rfl
  · exact h

end State

/-- The step is not an exception that leaves a job outside its try blocks. -/
def Event.caught : Event P → Bool
  | .escape _ => false
  | _ => true

theorem booked_init (start : Start P) : (State.init start).Booked := by
  intro sid t ht
  have hmem : t ∈ (State.init start).sessions := List.mem_of_getElem? ht
  obtain ⟨check, -, rfl⟩ := List.mem_map.1 hmem
  refine ⟨?_, ?_, ?_, ?_, ?_, fun _ => rfl, rfl, ?_⟩
  · intro n
    rfl
  · intro p hp
    cases hp
  · intro job hjob
    cases hjob
  · intro q hq
    cases hq
  · intro n hn
    cases hn
  · intro hd
    cases hd

variable [DecidableEq P] {cfg : Config} {start : Start P} {s : State P}

/-- **One step keeps the accounts.** -/
theorem booked_exec (h : s.Booked) {e : Event P} (hc : e.Can cfg s) (hok : e.caught) :
    (e.exec cfg s).Booked := by
  cases e with
  | receive sid kind rel sizeOk =>
    obtain ⟨t₀, ht₀, hidle⟩ := (Option.any_eq_true _ _).1 hc
    refine h.onSession fun t ht hb => ?_
    rw [ht₀] at ht
    cases ht
    dsimp only
    split
    · rename_i hcheck
      obtain ⟨hchk, hkind⟩ := Bool.and_eq_true_iff.1 hcheck
      rw [of_decide_eq_true hkind]
      exact hb.ignore hchk rel
    · let job : Job P := ⟨sid, t₀.received.length, kind, rel, none, (s.history rel).length - 1⟩
      split
      · exact hb.receive hidle job rfl rfl rfl rfl
      · exact hb.receive hidle job rfl rfl rfl rfl
  | lastWriteTime sid mtimeNs =>
    show (s.lastWriteTime sid mtimeNs).Booked
    unfold State.lastWriteTime
    split
    · rename_i job size hc
      exact h.onRecv hc fun t hrecv hb => hb.date hrecv _ _
    · exact h
  | lookup sid => exact h.lookup sid
  | answerHit sid =>
    show (s.answerHit sid).Booked
    unfold State.answerHit
    split
    · rename_i job v hc
      exact h.onRecv hc fun t hrecv hb => hb.answerHit hrecv
    · exact h
  | count sid =>
    show (s.count sid).Booked
    unfold State.count
    split
    · rename_i job hc
      exact h.onRecv hc fun t hrecv hb => hb.count hrecv
    · exact h
  | enqueue sid ok => exact h.enqueue sid ok
  | refuse sid =>
    show (s.refuse sid).Booked
    unfold State.refuse
    split
    · rename_i job hc
      exact h.onRecv hc fun t hrecv hb => hb.refuse hrecv
    · exact h
  | recvThrow sid =>
    -- a request that the thread holds is dropped with it
    refine h.onSession fun t ht hb => ?_
    split
    · rename_i hrecv
      exact (hb.die (by rw [hrecv]; rfl)).finish
    · rename_i job size hrecv
      exact hb.dropHeld (by rw [hrecv]; rfl) (by rw [hrecv]; rfl) (by rw [hrecv]; rfl)
    · rename_i job hrecv
      exact hb.dropHeld (by rw [hrecv]; rfl) (by rw [hrecv]; rfl) (by rw [hrecv]; rfl)
    · rename_i job v hrecv
      exact hb.dropHeld (by rw [hrecv]; rfl) (by rw [hrecv]; rfl) (by rw [hrecv]; rfl)
    · rename_i job hrecv
      exact hb.dropHeld (by rw [hrecv]; rfl) (by rw [hrecv]; rfl) (by rw [hrecv]; rfl)
    · exact hb
    · exact hb
    · exact hb
  | recvExit sid =>
    obtain ⟨t₀, ht₀, hidle⟩ := (Option.any_eq_true _ _).1 hc
    refine h.onSession fun t ht hb => ?_
    rw [ht₀] at ht
    cases ht
    exact hb.die (Bool.and_eq_true_iff.1 hidle).1
  | setDone sid => exact h.onSession fun t ht hb => hb.finish
  | send sid => exact h.onSession fun t ht hb => hb.send
  | drain sid timedOut =>
    obtain ⟨t₀, ht₀, hcan⟩ := (Option.any_eq_true _ _).1 hc
    refine h.onSession fun t ht hb => hb.drain fun hto => ?_
    rw [ht₀] at ht
    cases ht
    -- without a timeout the drain has waited for the pending jobs
    subst hto
    simp only [Bool.and_eq_true, Bool.or_false, decide_eq_true_eq] at hcan
    exact ⟨hcan.2, hcan.1.1.2⟩
  | take =>
    refine h.congr ?_ (State.pool_take s)
    show s.take.sessions = s.sessions
    unfold State.take
    split <;> rfl
  | begin i sizeOk => exact h.begin i sizeOk
  | read i off len src =>
    show (s.read i off len src).Booked
    unfold State.read
    split
    · rename_i job start got hr
      split
      · exact h.setPhase hr rfl
      · exact h
    · exact h
  | readFail i =>
    show (s.readFail i).Booked
    unfold State.readFail
    split
    · rename_i job start got hr
      exact h.setPhase hr rfl
    · exact h
  | compute i =>
    show (s.compute cfg i).Booked
    unfold State.compute
    split
    · rename_i job start got hr
      split
      · exact h.setPhase hr rfl
      · exact h.setPhase hr rfl
    · exact h
  | fileSizeAgain i ok =>
    show (s.fileSizeAgain i ok).Booked
    unfold State.fileSizeAgain
    split
    · rename_i job start v hr
      split
      · split
        · exact h.setPhase hr rfl
        · exact h.setPhase hr rfl
      · exact h.setPhase hr rfl
    · exact h
  | lastWriteTimeAgain i mtimeNs =>
    show (s.lastWriteTimeAgain i mtimeNs).Booked
    unfold State.lastWriteTimeAgain
    split
    · rename_i job start v size hr
      split
      · dsimp only
        split
        · exact h.setPhase hr rfl
        · exact h.setPhase hr rfl
      · exact h.setPhase hr rfl
    · exact h
  | upsert i ok =>
    show (s.upsert i ok).Booked
    unfold State.upsert
    split
    · rename_i job fp v hr
      cases ok with
      | true =>
        have hput : (s.setPhase i job (.answering (some v))).Booked := h.setPhase hr rfl
        exact hput.congr rfl fun sid => .refl _
      | false => exact h.setPhase hr rfl
    · exact h
  | checkDone i => exact h.checkDone i
  | respond i ok => exact h.respond i ok
  | finishJob i => exact h.finishJob i
  | escape i => cases hok
  | modify rel v => exact h.congr rfl fun sid => .refl _

theorem booked_reach (h : (machine cfg start).Reach (fun _ e => e.caught) s) : s.Booked :=
  h.invariant (I := State.Booked) (booked_init start) fun _ _ hs hc hok => booked_exec hs hc hok

end FastClone.ServerHash
