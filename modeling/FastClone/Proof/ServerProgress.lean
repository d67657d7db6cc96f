import FastClone.Proof.DeltaSigner
import FastClone.Proof.ServerAnswers

/-!
# The server comes to an answer

`left` bounds the steps the server takes by itself for the requests it has: the receive loops
from the time of the file on, the workers, the jobs. Each of these steps lowers it, and there is one as
long as it is not 0. At 0 no request is open.
-/

namespace FastClone.ServerHash

variable {P : Type}

/-- The steps the server takes by itself once it has a request. -/
def Event.internal : Event P → Bool
  | .lastWriteTime _ _ | .lookup _ | .answerHit _ | .count _ | .enqueue _ _ | .refuse _ | .take
  | .begin _ _ | .read _ _ _ _ | .readFail _ | .compute _ | .fileSizeAgain _ _
  | .lastWriteTimeAgain _ _ | .upsert _ _ | .checkDone _ | .respond _ _ | .finishJob _ => true
  | _ => false

/-- The size of the file at a path. -/
def State.sizeAt (s : State P) (rel : P) : ℕ :=
  ((s.history rel).current.map fun v => v.content.length).getD 0

variable (size : P → ℕ)

/-- How many steps a running job has left at most. -/
def Phase.left (job : Job P) : Phase → ℕ
  | .started => 8 + size job.rel
  | .reading _ got => 7 + got.count none
  | .computed _ _ => 6
  | .resized _ _ _ => 5
  | .caching _ _ => 4
  | .answering _ => 3
  | .cleared _ => 2
  | .ending => 1

/-- How many steps the request of a receive loop has left at most. -/
def Recv.left : Recv P → ℕ
  | .dating job _ => 13 + size job.rel
  | .looking job => 12 + size job.rel
  | .missed job => 11 + size job.rel
  | .counted job => 10 + size job.rel
  | .hit _ _ | .refused _ => 1
  | .idle | .dead => 0

/-- How many steps all requests have left at most. -/
def State.left (s : State P) : ℕ :=
  (s.sessions.map fun t => t.recv.left size).sum + (s.tasks.map fun job => 9 + size job.rel).sum +
    (s.running.map fun r => r.2.left size r.1).sum

namespace State

variable {size} {s : State P} {i sid : ℕ} {job : Job P} {phase phase' : Phase}

theorem left_setPhase (hr : s.running[i]? = some (job, phase))
    (hless : phase'.left size job < phase.left size job) :
    (s.setPhase i job phase').left size < s.left size := by
  obtain ⟨a, b, hsplit, hset, -⟩ := running_split hr
  unfold left setPhase
  dsimp only
  rw [hset, hsplit]
  simp only [List.map_append, List.map_cons, List.sum_append, List.sum_cons]
  omega

/-- A change of one session changes what its receive loop has left. -/
theorem left_onSession (f : Session P → Session P) (size : P → ℕ) {t : Session P}
    (ht : s.sessions[sid]? = some t) :
    (s.onSession sid f).left size + t.recv.left size = s.left size + (f t).recv.left size := by
  have hsum : ∀ (l : List (Session P)) (sid : ℕ), l[sid]? = some t →
      ((l.modify sid f).map fun t => t.recv.left size).sum + t.recv.left size =
        (l.map fun t => t.recv.left size).sum + (f t).recv.left size := by
    intro l
    induction l with
    | nil =>
      intro sid hsid
      cases hsid
    | cons u l ih =>
      intro sid hsid
      cases sid with
      | zero =>
        cases hsid
        rw [List.modify_zero_cons]
        simp only [List.map_cons, List.sum_cons]
        omega
      | succ sid =>
        have := ih sid hsid
        rw [List.modify_succ_cons]
        simp only [List.map_cons, List.sum_cons]
        omega
  have := hsum s.sessions sid ht
  unfold left onSession
  dsimp only
  omega

/-- A change of a session that leaves its receive loop where it is. -/
theorem left_onSession_keep {f : Session P → Session P} (hf : ∀ t, (f t).recv = t.recv) (sid : ℕ) :
    (s.onSession sid f).left size = s.left size := by
  cases ht : s.sessions[sid]? with
  | none =>
    unfold onSession left
    dsimp only
    rw [List.modify_eq_self (List.getElem?_eq_none_iff.1 ht)]
  | some t =>
    have := left_onSession f size ht
    rw [hf t] at this
    omega

/-- A step of the receive loop. -/
theorem left_onRecv {c : Recv P} (hc : (s.sessions[sid]?).map Session.recv = some c)
    {f : Session P → Session P} {k : ℕ} (hf : ∀ t, t.recv = c → (f t).recv.left size + k < c.left size) :
    (s.onSession sid f).left size + k < s.left size := by
  obtain ⟨t, ht, hrecv⟩ := Option.map_eq_some_iff.1 hc
  have := left_onSession f size ht
  have := hf t hrecv
  rw [hrecv] at *
  omega

/-- A read of the disk fills a byte that was missing. -/
theorem count_read {got : List (Option UInt8)} {content : List UInt8} {off len : ℕ}
    (hnone : none ∈ (got.drop off).take len) :
    (got.take off ++ ((content.drop off).take len).map some ++ got.drop (off + len)).count none <
      got.count none := by
  have hsplit : got = got.take off ++ ((got.drop off).take len ++ got.drop (off + len)) := by
    rw [← List.drop_drop, List.take_append_drop, List.take_append_drop]
  have hpos := List.count_pos_iff.2 hnone
  have hzero : (((content.drop off).take len).map some).count none = 0 := by
    rw [List.count_eq_zero]
    intro hmem
    obtain ⟨b, -, hb⟩ := List.mem_map.1 hmem
    cases hb
  have hcount : got.count none = (got.take off).count none +
      (((got.drop off).take len).count none + (got.drop (off + len)).count none) := by
    rw [← List.count_append, ← List.count_append, ← hsplit]
  rw [List.count_append, List.count_append, hzero, hcount]
  omega

theorem left_take (htasks : s.tasks ≠ []) : s.take.left size < s.left size := by
  unfold State.take
  split
  · rename_i hnil
    exact absurd hnil htasks
  · rename_i job rest hcons
    unfold left
    rw [hcons]
    simp only [List.map_append, List.map_cons, List.map_nil, List.sum_append, List.sum_cons,
      List.sum_nil, Phase.left]
    omega

theorem left_finishJob (hr : s.running[i]? = some (job, .ending)) :
    (s.finishJob i).left size < s.left size := by
  unfold State.finishJob
  rw [hr]
  dsimp only
  have hkeep : ∀ t : Session P, t.uncount.recv = t.recv := fun _ => rfl
  rw [left_onSession_keep hkeep]
  obtain ⟨a, b, hsplit, -, herase⟩ := running_split hr
  unfold left
  dsimp only
  rw [herase, hsplit]
  simp only [List.map_append, List.map_cons, List.sum_append, List.sum_cons, Phase.left]
  omega

theorem left_close (hr : s.running[i]? = some (job, phase))
    (hless : 1 < phase.left size job) {f : Session P → Session P} (hf : ∀ t, (f t).recv = t.recv) :
    ((s.setPhase i job .ending).onSession job.session f).left size < s.left size := by
  rw [left_onSession_keep hf]
  exact left_setPhase hr hless

theorem left_begin (hr : s.running[i]? = some (job, .started)) (sizeOk : Bool) :
    (s.begin i sizeOk).left s.sizeAt < s.left s.sizeAt := by
  unfold State.begin
  rw [hr]
  dsimp only
  split
  · refine left_close hr ?_ fun _ => rfl
    simp only [Phase.left]
    omega
  · split
    · rename_i v hv
      refine left_setPhase hr ?_
      have hsize : s.sizeAt job.rel = v.content.length := by
        unfold sizeAt
        rw [hv]
        rfl
      simp only [Phase.left, List.count_replicate_self, hsize]
      omega
    · refine left_setPhase hr ?_
      simp only [Phase.left]
      omega

theorem left_enqueue {sid : ℕ} (hc : (s.sessions[sid]?).map Session.recv = some (.counted job))
    (ok : Bool) : (s.enqueue sid ok).left size < s.left size := by
  unfold State.enqueue
  rw [hc]
  cases ok with
  | true =>
    dsimp only
    obtain ⟨t, ht, hrecv⟩ := Option.map_eq_some_iff.1 hc
    have hsess : ({ s with tasks := s.tasks ++ [job] } : State P).sessions[sid]? = some t := ht
    have := left_onSession (fun t => { t with recv := .idle }) size hsess
    rw [hrecv] at this
    have htask : ({ s with tasks := s.tasks ++ [job] } : State P).left size =
        s.left size + (9 + size job.rel) := by
      unfold left
      simp only [List.map_append, List.map_cons, List.map_nil, List.sum_append, List.sum_cons,
        List.sum_nil]
      omega
    rw [htask] at this
    simp only [Recv.left] at this
    rw [if_pos rfl]
    omega
  | false =>
    refine left_onRecv (k := 0) hc fun t ht => ?_
    simp only [Recv.left]
    omega

theorem left_answerHit {sid : ℕ} {v : Value} (hc : (s.sessions[sid]?).map Session.recv = some (.hit job v)) :
    (s.answerHit sid).left size < s.left size := by
  unfold State.answerHit
  rw [hc]
  exact left_onRecv (k := 0) hc fun t ht => Nat.one_pos

theorem left_lastWriteTime {sid fileSize : ℕ}
    (hc : (s.sessions[sid]?).map Session.recv = some (.dating job fileSize)) (mtimeNs : Option ℤ) :
    (s.lastWriteTime sid mtimeNs).left size < s.left size := by
  unfold State.lastWriteTime
  rw [hc]
  refine left_onRecv (k := 0) hc fun t ht => ?_
  simp only [Recv.left]
  omega

theorem left_count {sid : ℕ} (hc : (s.sessions[sid]?).map Session.recv = some (.missed job)) :
    (s.count sid).left size < s.left size := by
  unfold State.count
  rw [hc]
  refine left_onRecv (k := 0) hc fun t ht => ?_
  simp only [Recv.left]
  omega

theorem left_refuse {sid : ℕ} (hc : (s.sessions[sid]?).map Session.recv = some (.refused job)) :
    (s.refuse sid).left size < s.left size := by
  unfold State.refuse
  rw [hc]
  exact left_onRecv (k := 0) hc fun t ht => Nat.one_pos

theorem left_readFail (hr : s.running[i]? = some (job, .reading start got)) :
    (s.readFail i).left size < s.left size := by
  unfold State.readFail
  rw [hr]
  refine left_setPhase hr ?_
  simp only [Phase.left]
  omega

theorem left_compute {cfg : Config} (hr : s.running[i]? = some (job, .reading start got)) :
    (s.compute cfg i).left size < s.left size := by
  unfold State.compute
  rw [hr]
  dsimp only
  split
  · refine left_setPhase hr ?_
    simp only [Phase.left]
    omega
  · refine left_setPhase hr ?_
    simp only [Phase.left]
    omega

theorem left_fileSizeAgain (hr : s.running[i]? = some (job, .computed start v)) (ok : Bool) :
    (s.fileSizeAgain i ok).left size < s.left size := by
  unfold State.fileSizeAgain
  rw [hr]
  dsimp only
  split
  · split
    · exact left_setPhase hr (by simp only [Phase.left]; omega)
    · exact left_setPhase hr (by simp only [Phase.left]; omega)
  · exact left_setPhase hr (by simp only [Phase.left]; omega)

theorem left_lastWriteTimeAgain {fileSize : ℕ} (hr : s.running[i]? = some (job, .resized start v fileSize))
    (mtimeNs : Option ℤ) : (s.lastWriteTimeAgain i mtimeNs).left size < s.left size := by
  unfold State.lastWriteTimeAgain
  rw [hr]
  dsimp only
  split
  · split
    · exact left_setPhase hr (by simp only [Phase.left]; omega)
    · exact left_setPhase hr (by simp only [Phase.left]; omega)
  · exact left_setPhase hr (by simp only [Phase.left]; omega)

theorem left_checkDone (hr : s.running[i]? = some (job, .answering v)) :
    (s.checkDone i).left size < s.left size := by
  unfold State.checkDone
  rw [hr]
  dsimp only
  split
  · exact left_close hr (by simp only [Phase.left]; omega) (by intro t; rfl)
  · exact left_setPhase hr (by simp only [Phase.left]; omega)

theorem left_respond (hr : s.running[i]? = some (job, .cleared v)) (ok : Bool) :
    (s.respond i ok).left size < s.left size := by
  unfold State.respond
  rw [hr]
  dsimp only
  refine left_close hr (by simp only [Phase.left]; omega) fun t => ?_
  cases ok <;> rfl

variable [DecidableEq P]

theorem left_lookup {sid : ℕ} (hc : (s.sessions[sid]?).map Session.recv = some (.looking job)) :
    (s.lookup sid).left size < s.left size := by
  have hmove : ∀ (s' : State P) (c : Recv P), s'.sessions = s.sessions → s'.left size = s.left size →
      c.left size < 12 + size job.rel →
      (s'.onSession sid fun t => { t with recv := c }).left size < s.left size := by
    intro s' c hsess hleft hless
    have hc' : (s'.sessions[sid]?).map Session.recv = some (.looking job) := by
      rw [hsess]
      exact hc
    rw [← hleft]
    exact left_onRecv (k := 0) hc' fun t ht => hless
  unfold State.lookup
  rw [hc]
  dsimp only
  split
  · exact hmove s _ rfl rfl (by simp only [Recv.left]; omega)
  · split
    · exact hmove _ _ rfl rfl (by simp only [Recv.left]; omega)
    · exact hmove _ _ rfl rfl (by simp only [Recv.left]; omega)

theorem left_upsert (hr : s.running[i]? = some (job, .caching fp v)) (ok : Bool) :
    (s.upsert i ok).left s.sizeAt < s.left s.sizeAt := by
  have hless : (s.setPhase i job (.answering (some v))).left s.sizeAt < s.left s.sizeAt :=
    left_setPhase hr (by simp only [Phase.left]; omega)
  unfold State.upsert
  rw [hr]
  cases ok <;> exact hless

end State

/-! ### Every internal step -/

variable {s : State P}

theorem received_onSession {f : Session P → Session P} (hf : ∀ t, (f t).received = t.received)
    (sid : ℕ) : (s.onSession sid f).sessions.map Session.received = s.sessions.map Session.received := by
  unfold State.onSession
  refine List.ext_getElem? fun n => ?_
  dsimp only
  rw [List.getElem?_map, List.getElem?_map, List.getElem?_modify]
  by_cases hn : sid = n
  · subst hn
    cases s.sessions[sid]? with
    | none => rfl
    | some t => simp [hf]
  · cases s.sessions[n]? with
    | none => rfl
    | some t => simp [hn]

/-- The receive loop has a step for a request it holds. -/
theorem exists_recv_step {cfg : Config} {size : P → ℕ} {sid : ℕ} {t : Session P} (ht : s.sessions[sid]? = some t)
    (hleft : t.recv.left size ≠ 0) : ∃ e : Event P, e.internal ∧ e.Can cfg s := by
  cases hrecv : t.recv with
  | idle => rw [hrecv] at hleft; exact absurd rfl hleft
  | dead => rw [hrecv] at hleft; exact absurd rfl hleft
  | dating job fileSize =>
    exact ⟨.lastWriteTime sid none, rfl, by simp [Event.Can, ht, hrecv, History.mayAnswer]⟩
  | looking job => exact ⟨.lookup sid, rfl, by simp [Event.Can, ht, hrecv]⟩
  | hit job v => exact ⟨.answerHit sid, rfl, by simp [Event.Can, ht, hrecv]⟩
  | missed job => exact ⟨.count sid, rfl, by simp [Event.Can, ht, hrecv]⟩
  | counted job => exact ⟨.enqueue sid true, rfl, by simp [Event.Can, ht, hrecv]⟩
  | refused job => exact ⟨.refuse sid, rfl, by simp [Event.Can, ht, hrecv]⟩

/-- A running job has a step in each phase. -/
theorem exists_job_step {cfg : Config} {i : ℕ} {r : Job P × Phase} (hr : s.running[i]? = some r) :
    ∃ e : Event P, e.internal ∧ e.Can cfg s := by
  obtain ⟨job, phase⟩ := r
  cases phase with
  | started => exact ⟨.begin i true, rfl, by simp [Event.Can, hr]⟩
  | reading start got => exact ⟨.readFail i, rfl, by simp [Event.Can, hr]⟩
  | computed start v => exact ⟨.fileSizeAgain i true, rfl, by simp [Event.Can, hr]⟩
  | resized start v fileSize =>
    exact ⟨.lastWriteTimeAgain i none, rfl, by simp [Event.Can, hr, History.mayAnswer]⟩
  | caching fp v => exact ⟨.upsert i true, rfl, by simp [Event.Can, hr]⟩
  | answering v => exact ⟨.checkDone i, rfl, by simp [Event.Can, hr]⟩
  | cleared v => exact ⟨.respond i true, rfl, by simp [Event.Can, hr]⟩
  | ending => exact ⟨.finishJob i, rfl, by simp [Event.Can, hr]⟩

/-- **The server is never stuck:** it has a step, or nothing is held or pooled. -/
theorem exists_internal_or_closed (cfg : Config) (s : State P) :
    (∃ e : Event P, e.internal ∧ e.Can cfg s) ∨
      ((∀ t ∈ s.sessions, t.recv.job = none) ∧ s.tasks = [] ∧ s.running = []) := by
  by_cases hrecv : ∃ t ∈ s.sessions, t.recv.left (fun _ => 0) ≠ 0
  · obtain ⟨t, ht, hleft⟩ := hrecv
    obtain ⟨sid, hsid⟩ := List.mem_iff_getElem?.1 ht
    exact Or.inl (exists_recv_step hsid hleft)
  · cases hrun : s.running with
    | cons r rest =>
      have hr : s.running[0]? = some r := by
        rw [hrun]
        rfl
      exact Or.inl (exists_job_step hr)
    | nil =>
      cases htasks : s.tasks with
      | cons job rest =>
        refine Or.inl ⟨.take, rfl, ?_, ?_⟩
        · rw [htasks]
          exact List.cons_ne_nil _ _
        · rw [hrun]
          exact cfg.workers_pos
      | nil =>
        refine Or.inr ⟨fun t ht => ?_, rfl, rfl⟩
        by_contra hjob
        refine hrecv ⟨t, ht, ?_⟩
        cases hc : t.recv with
        | idle => rw [hc] at hjob; exact absurd rfl hjob
        | dead => rw [hc] at hjob; exact absurd rfl hjob
        | dating job fileSize => simp only [Recv.left]; omega
        | looking job => simp only [Recv.left]; omega
        | hit job v => simp only [Recv.left]; omega
        | missed job => simp only [Recv.left]; omega
        | counted job => simp only [Recv.left]; omega
        | refused job => simp only [Recv.left]; omega

variable [DecidableEq P] {cfg : Config} {start : Start P}

/-- A step of the server's own changes no file and receives nothing. -/
theorem internal_keeps {e : Event P} (hi : e.internal) :
    (e.exec cfg s).history = s.history ∧
      (e.exec cfg s).sessions.map Session.received = s.sessions.map Session.received := by
  -- each of them changes workers, or a session in other fields than the one it receives into
  cases e with
  | lastWriteTime sid mtimeNs =>
    show (s.lastWriteTime sid mtimeNs).history = _ ∧ (s.lastWriteTime sid mtimeNs).sessions.map _ = _
    unfold State.lastWriteTime
    split
    · exact ⟨rfl, received_onSession (by intro t; rfl) sid⟩
    · exact ⟨rfl, rfl⟩
  | lookup sid =>
    show (s.lookup sid).history = _ ∧ (s.lookup sid).sessions.map _ = _
    unfold State.lookup
    split
    · split
      · exact ⟨rfl, received_onSession (by intro t; rfl) sid⟩
      · dsimp only
        split
        · exact ⟨rfl, received_onSession (by intro t; rfl) sid⟩
        · exact ⟨rfl, received_onSession (by intro t; rfl) sid⟩
    · exact ⟨rfl, rfl⟩
  | answerHit sid =>
    show (s.answerHit sid).history = _ ∧ (s.answerHit sid).sessions.map _ = _
    unfold State.answerHit
    split
    · exact ⟨rfl, received_onSession (by intro t; rfl) sid⟩
    · exact ⟨rfl, rfl⟩
  | count sid =>
    show (s.count sid).history = _ ∧ (s.count sid).sessions.map _ = _
    unfold State.count
    split
    · exact ⟨rfl, received_onSession (by intro t; rfl) sid⟩
    · exact ⟨rfl, rfl⟩
  | enqueue sid ok =>
    show (s.enqueue sid ok).history = _ ∧ (s.enqueue sid ok).sessions.map _ = _
    unfold State.enqueue
    split
    · split
      · exact ⟨rfl, received_onSession (by intro t; rfl) sid⟩
      · exact ⟨rfl, received_onSession (by intro t; rfl) sid⟩
    · exact ⟨rfl, rfl⟩
  | refuse sid =>
    show (s.refuse sid).history = _ ∧ (s.refuse sid).sessions.map _ = _
    unfold State.refuse
    split
    · exact ⟨rfl, received_onSession (by intro t; rfl) sid⟩
    · exact ⟨rfl, rfl⟩
  | take =>
    show s.take.history = _ ∧ s.take.sessions.map _ = _
    unfold State.take
    split <;> exact ⟨rfl, rfl⟩
  | begin i sizeOk =>
    show (s.begin i sizeOk).history = _ ∧ (s.begin i sizeOk).sessions.map _ = _
    unfold State.begin
    split
    · rename_i job hr
      split
      · exact ⟨rfl, received_onSession (by intro t; rfl) job.session⟩
      · split <;> exact ⟨rfl, rfl⟩
    · exact ⟨rfl, rfl⟩
  | read i off len src =>
    show (s.read i off len src).history = _ ∧ (s.read i off len src).sessions.map _ = _
    unfold State.read
    split
    · split <;> exact ⟨rfl, rfl⟩
    · exact ⟨rfl, rfl⟩
  | readFail i =>
    show (s.readFail i).history = _ ∧ (s.readFail i).sessions.map _ = _
    unfold State.readFail
    split <;> exact ⟨rfl, rfl⟩
  | compute i =>
    show (s.compute cfg i).history = _ ∧ (s.compute cfg i).sessions.map _ = _
    unfold State.compute
    split
    · split <;> exact ⟨rfl, rfl⟩
    · exact ⟨rfl, rfl⟩
  | fileSizeAgain i ok =>
    show (s.fileSizeAgain i ok).history = _ ∧ (s.fileSizeAgain i ok).sessions.map _ = _
    unfold State.fileSizeAgain
    split
    · split
      · split <;> exact ⟨rfl, rfl⟩
      · exact ⟨rfl, rfl⟩
    · exact ⟨rfl, rfl⟩
  | lastWriteTimeAgain i mtimeNs =>
    show (s.lastWriteTimeAgain i mtimeNs).history = _ ∧
      (s.lastWriteTimeAgain i mtimeNs).sessions.map _ = _
    unfold State.lastWriteTimeAgain
    split
    · split
      · dsimp only
        split <;> exact ⟨rfl, rfl⟩
      · exact ⟨rfl, rfl⟩
    · exact ⟨rfl, rfl⟩
  | upsert i ok =>
    show (s.upsert i ok).history = _ ∧ (s.upsert i ok).sessions.map _ = _
    unfold State.upsert
    split
    · cases ok <;> exact ⟨rfl, rfl⟩
    · exact ⟨rfl, rfl⟩
  | checkDone i =>
    show (s.checkDone i).history = _ ∧ (s.checkDone i).sessions.map _ = _
    unfold State.checkDone
    split
    · rename_i job v hr
      split
      · exact ⟨rfl, received_onSession (by intro t; rfl) job.session⟩
      · exact ⟨rfl, rfl⟩
    · exact ⟨rfl, rfl⟩
  | respond i ok =>
    show (s.respond i ok).history = _ ∧ (s.respond i ok).sessions.map _ = _
    unfold State.respond
    split
    · rename_i job v hr
      refine ⟨rfl, received_onSession (fun t => ?_) job.session⟩
      cases ok <;> rfl
    · exact ⟨rfl, rfl⟩
  | finishJob i =>
    show (s.finishJob i).history = _ ∧ (s.finishJob i).sessions.map _ = _
    unfold State.finishJob
    split
    · rename_i job hr
      exact ⟨rfl, received_onSession (by intro t; rfl) job.session⟩
    · exact ⟨rfl, rfl⟩
  | receive _ _ _ _ => cases hi
  | recvThrow _ => cases hi
  | recvExit _ => cases hi
  | setDone _ => cases hi
  | send _ => cases hi
  | drain _ _ => cases hi
  | escape _ => cases hi
  | modify _ _ => cases hi

/-- **Every step of the server's own leaves less to do.** -/
theorem left_exec {e : Event P} (hi : e.internal) (hc : e.Can cfg s) :
    (e.exec cfg s).left s.sizeAt < s.left s.sizeAt := by
  -- the guard of a step finds the session or the worker in the place that the lemma about it starts from
  cases e with
  | lastWriteTime sid mtimeNs =>
    obtain ⟨t, ht, hmatch⟩ := (Option.any_eq_true _ _).1 hc
    split at hmatch
    · rename_i job fileSize hrecv
      exact State.left_lastWriteTime (by rw [ht, ← hrecv]; rfl) mtimeNs
    · cases hmatch
  | lookup sid =>
    obtain ⟨t, ht, hmatch⟩ := (Option.any_eq_true _ _).1 hc
    split at hmatch
    · rename_i job hrecv
      exact State.left_lookup (by rw [ht, ← hrecv]; rfl)
    · cases hmatch
  | answerHit sid =>
    obtain ⟨t, ht, hmatch⟩ := (Option.any_eq_true _ _).1 hc
    split at hmatch
    · rename_i job v hrecv
      exact State.left_answerHit (by rw [ht, ← hrecv]; rfl)
    · cases hmatch
  | count sid =>
    obtain ⟨t, ht, hmatch⟩ := (Option.any_eq_true _ _).1 hc
    split at hmatch
    · rename_i job hrecv
      exact State.left_count (by rw [ht, ← hrecv]; rfl)
    · cases hmatch
  | enqueue sid ok =>
    obtain ⟨t, ht, hmatch⟩ := (Option.any_eq_true _ _).1 hc
    split at hmatch
    · rename_i job hrecv
      exact State.left_enqueue (by rw [ht, ← hrecv]; rfl) ok
    · cases hmatch
  | refuse sid =>
    obtain ⟨t, ht, hmatch⟩ := (Option.any_eq_true _ _).1 hc
    split at hmatch
    · rename_i job hrecv
      exact State.left_refuse (by rw [ht, ← hrecv]; rfl)
    · cases hmatch
  | take => exact State.left_take hc.1
  | begin i sizeOk =>
    obtain ⟨⟨job, phase⟩, hr, hmatch⟩ := (Option.any_eq_true _ _).1 hc
    cases phase with
    | started => exact State.left_begin hr sizeOk
    | _ => cases hmatch
  | read i off len src =>
    obtain ⟨⟨job, phase⟩, hr, hmatch⟩ := (Option.any_eq_true _ _).1 hc
    dsimp only at hmatch
    split at hmatch
    · rename_i start got v hsrc
      obtain ⟨-, -, -, -, hnone⟩ := of_decide_eq_true hmatch
      show (s.read i off len src).left _ < _
      unfold State.read
      rw [hr]
      dsimp only
      rw [hsrc]
      -- what was not read yet is read, so there is less to read
      refine State.left_setPhase hr ?_
      exact Nat.add_lt_add_left (State.count_read hnone) 7
    · cases hmatch
  | readFail i =>
    obtain ⟨⟨job, phase⟩, hr, hmatch⟩ := (Option.any_eq_true _ _).1 hc
    cases phase with
    | reading start got => exact State.left_readFail hr
    | _ => cases hmatch
  | compute i =>
    obtain ⟨⟨job, phase⟩, hr, hmatch⟩ := (Option.any_eq_true _ _).1 hc
    cases phase with
    | reading start got => exact State.left_compute hr
    | _ => cases hmatch
  | fileSizeAgain i ok =>
    obtain ⟨⟨job, phase⟩, hr, hmatch⟩ := (Option.any_eq_true _ _).1 hc
    cases phase with
    | computed start v => exact State.left_fileSizeAgain hr ok
    | _ => cases hmatch
  | lastWriteTimeAgain i mtimeNs =>
    obtain ⟨⟨job, phase⟩, hr, hmatch⟩ := (Option.any_eq_true _ _).1 hc
    cases phase with
    | resized start v fileSize => exact State.left_lastWriteTimeAgain hr mtimeNs
    | _ => cases hmatch
  | upsert i ok =>
    obtain ⟨⟨job, phase⟩, hr, hmatch⟩ := (Option.any_eq_true _ _).1 hc
    cases phase with
    | caching fp v => exact State.left_upsert hr ok
    | _ => cases hmatch
  | checkDone i =>
    obtain ⟨⟨job, phase⟩, hr, hmatch⟩ := (Option.any_eq_true _ _).1 hc
    cases phase with
    | answering v => exact State.left_checkDone hr
    | _ => cases hmatch
  | respond i ok =>
    obtain ⟨⟨job, phase⟩, hr, hmatch⟩ := (Option.any_eq_true _ _).1 hc
    cases phase with
    | cleared v => exact State.left_respond hr ok
    | _ => cases hmatch
  | finishJob i =>
    obtain ⟨⟨job, phase⟩, hr, hmatch⟩ := (Option.any_eq_true _ _).1 hc
    cases phase with
    | ending => exact State.left_finishJob hr
    | _ => cases hmatch
  | receive _ _ _ _ => cases hi
  | recvThrow _ => cases hi
  | recvExit _ => cases hi
  | setDone _ => cases hi
  | send _ => cases hi
  | drain _ _ => cases hi
  | escape _ => cases hi
  | modify _ _ => cases hi

/-- A run of the server's own steps keeps the accounts and is no longer than `left`. -/
theorem run_internal (h : s.Booked) {es : List (Event P)}
    (hes : (machine cfg start).Allows (fun _ e => e.internal) s es) :
    ((machine cfg start).run s es).Booked ∧
      ((machine cfg start).run s es).left s.sizeAt + es.length ≤ s.left s.sizeAt ∧
      ((machine cfg start).run s es).sessions.map Session.received = s.sessions.map Session.received := by
  induction es generalizing s with
  | nil => exact ⟨h, Nat.le_refl _, rfl⟩
  | cons e es ih =>
    obtain ⟨hc, hi, hrest⟩ := hes
    have hcaught : e.caught := by
      cases e <;> first | rfl | cases hi
    obtain ⟨hhist, hrec⟩ : (e.exec cfg s).history = s.history ∧ _ := internal_keeps hi
    have hsize : (e.exec cfg s).sizeAt = s.sizeAt := by
      unfold State.sizeAt
      rw [hhist]
    obtain ⟨hbook, hleft, hreceived⟩ := ih (booked_exec h hc hcaught) hrest
    have hless := left_exec hi hc
    refine ⟨hbook, ?_, hreceived.trans hrec⟩
    have hleft' : ((machine cfg start).run (e.exec cfg s) es).left s.sizeAt + es.length ≤
        (e.exec cfg s).left s.sizeAt := by
      rw [← hsize]
      exact hleft
    show ((machine cfg start).run (e.exec cfg s) es).left s.sizeAt + (es.length + 1) ≤ _
    omega

/-! ### Once -/

/-- **The server answers every control request once.** In every state of every run without an
exception that leaves a job outside its try blocks, a request of a session is answered, dropped,
ignored or waiting, and that once; the answers are of its kind and for its path; only signature
requests of check sessions are ignored, and nothing is dropped while the session is not done. The
pending count is the number of the session's jobs in the pool, with the one the receive loop has
counted and not yet handed over. Once the drain has returned without timing out, the session has
no job. The steps of the server's own are bounded, and come to a stop only when every request of a
session that is not done is answered or ignored. -/
theorem control_requests_answered_once (cfg : Config) (start : Start P) {s : State P}
    (h : (machine cfg start).Reach (fun _ e => e.caught) s) :
    (∀ (sid : ℕ) (t : Session P), s.sessions[sid]? = some t →
      (∀ n < t.received.length, t.answered n + t.dropped.count n + t.ignored.count n +
        (t.recv.holds n + openIn (s.pool sid) n) = 1) ∧
      (∀ p ∈ t.sent ++ t.outboundHigh, t.received[p.1]? = some (p.2.kind, p.2.rel)) ∧
      (∀ n ∈ t.ignored, t.check = true ∧ ∃ rel, t.received[n]? = some (.blockSig, rel)) ∧
      (t.done = false → t.dropped = []) ∧
      t.sessionPendingHashJobs = (s.pool sid).length + t.recv.counts ∧
      (t.drained = some false → s.pool sid = [] ∧ t.recv.isDead = true)) ∧
    (∀ es, (machine cfg start).Allows (fun _ e => e.internal) s es →
      es.length ≤ s.left s.sizeAt ∧
      ((∃ e : Event P, e.internal ∧ e.Can cfg ((machine cfg start).run s es)) ∨
        ∀ (sid : ℕ) (t : Session P), ((machine cfg start).run s es).sessions[sid]? = some t →
          (s.sessions[sid]?).map Session.received = some t.received ∧
          (t.done = false → ∀ n < t.received.length, t.answered n + t.ignored.count n = 1))) := by
  have hbook := booked_reach h
  refine ⟨?_, ?_⟩
  · intro sid t ht
    have hb := hbook sid t ht
    refine ⟨?_, hb.answers, hb.ignored, hb.dropped, hb.pending, ?_⟩
    · intro n hn
      have := hb.once n
      rw [if_pos hn] at this
      omega
    · intro hd
      obtain ⟨hzero, hdead⟩ := hb.drained hd
      have hpend := hb.pending
      refine ⟨List.length_eq_zero_iff.1 ?_, hdead⟩
      omega
  · intro es hes
    obtain ⟨hbook', hleft, hrec⟩ := run_internal hbook hes
    refine ⟨by omega, ?_⟩
    rcases exists_internal_or_closed cfg ((machine cfg start).run s es) with hstep | ⟨hnone, htasks, hrun⟩
    · exact Or.inl hstep
    · refine Or.inr fun sid t ht => ⟨?_, ?_⟩
      · rw [← List.getElem?_map, ← hrec, List.getElem?_map, ht]
        rfl
      · intro hdone n hn
        have hb := hbook' sid t ht
        have honce := hb.once n
        have hpool : ((machine cfg start).run s es).pool sid = [] := by
          unfold State.pool
          rw [htasks, hrun]
          rfl
        have hholds : t.recv.holds n = 0 := by
          unfold Recv.holds
          rw [hnone t (List.mem_of_getElem? ht)]
          rfl
        rw [if_pos hn, hpool, hholds, hb.dropped hdone] at honce
        simpa [openIn] using honce

/-- One worker. -/
def oneWorker : Config := ⟨Delta.shortXxh3, 1, Nat.one_pos⟩

/-- No files, no cache, one session. -/
def emptyServer (check : Bool) : Start ℕ := ⟨fun _ => none, false, [check]⟩

/-- A hash and a signature of a file that is not there are asked for; the session ends. -/
def missingFileRun : List (Event ℕ) :=
  let ask (kind : Kind) : List (Event ℕ) :=
    [.receive 0 kind 0 true, .lookup 0, .count 0, .enqueue 0 true]
  let answer : List (Event ℕ) := [.take, .begin 0 true, .checkDone 0, .respond 0 true, .finishJob 0]
  ask .hash ++ ask .blockSig ++ answer ++ answer ++ [.send 0, .setDone 0, .recvExit 0, .drain 0 false]

theorem control_requests_answered_once_missingFileRun :
    let s := (machine oneWorker (emptyServer false)).run (.init (emptyServer false)) missingFileRun
    ∃ t, s.sessions[0]? = some t ∧ t.received.length = 2 ∧ t.dropped = [] ∧ t.ignored = [] ∧
      t.drained = some false ∧ s.pool 0 = [] ∧ t.answered 0 = 1 ∧ t.answered 1 = 1 := by
  have hrun : (machine oneWorker (emptyServer false)).Allows (fun _ e => e.caught)
      (.init (emptyServer false)) missingFileRun := by decide
  obtain ⟨hsessions, -⟩ := control_requests_answered_once oneWorker (emptyServer false)
    (Runs.Machine.reach_run hrun)
  obtain ⟨-, -, -, -, -, hdrained⟩ := hsessions 0 _ rfl
  exact ⟨_, rfl, by decide, by decide, by decide, by decide, (hdrained (by decide)).1, by decide,
    by decide⟩

/-- A job is in the pool when the drain times out. -/
def timeoutRun : List (Event ℕ) :=
  [.receive 0 .hash 0 true, .lookup 0, .count 0, .enqueue 0 true, .setDone 0, .recvExit 0, .drain 0 true]

/-- **Not every request, and not every job**: a check session leaves a signature request without an
answer, and a drain that times out leaves a job behind. -/
theorem control_requests_passed_over :
    (¬ ∀ s, (machine oneWorker (emptyServer true)).Reach (fun _ _ => True) s →
      ∀ (sid : ℕ) (t : Session ℕ), s.sessions[sid]? = some t → t.done = false →
        ∀ n < t.received.length, t.answered n + (t.recv.holds n + openIn (s.pool sid) n) = 1) ∧
    (¬ ∀ s, (machine oneWorker (emptyServer false)).Reach (fun _ _ => True) s →
      ∀ (sid : ℕ) (t : Session ℕ), s.sessions[sid]? = some t → t.drained.isSome → s.pool sid = []) := by
  refine ⟨?_, ?_⟩
  · intro h
    have hrun : (machine oneWorker (emptyServer true)).Allows (fun _ _ => True)
        (.init (emptyServer true)) [.receive 0 .blockSig 0 true] := by decide
    have := h _ (Runs.Machine.reach_run hrun) 0 _ rfl (by decide) 0 (by decide)
    revert this
    decide
  · intro h
    have hrun : (machine oneWorker (emptyServer false)).Allows (fun _ _ => True)
        (.init (emptyServer false)) timeoutRun := by decide
    have := congrArg List.length (h _ (Runs.Machine.reach_run hrun) 0 _ rfl (by decide))
    revert this
    decide

end FastClone.ServerHash
