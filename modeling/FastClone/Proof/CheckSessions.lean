import FastClone.Proof.SessionFlags

/-!
# Check sessions and the once decision

`check_connections_invisible`: if the steps of all connections that belong to Check sessions
are dropped from a run, what is left is a run in which every other connection fares the same,
the same session is claimed, and the verdict and the failure flag are the same after every
step. The runs are those in which a Check connection's sweep finds no expired Sync session
and nobody joins a Check session before its type is set.
-/

namespace FastClone.Sessions

open Runs

variable {cfg : Config} {s s' t : State} {c : ℕ} {a : Act} {B : List ℕ}

/-! ### The connections of Check sessions -/

/-- The session at `x` was made by a `CheckAuth`. -/
def State.isCheck (s : State) (x : ℕ) : Bool := (s.sessions x).any fun v => decide (v.made = .check)

/-- The connection that this event brings into a Check session. -/
def State.entersCheck (s : State) : Event → Option ℕ
  | .conn c (.create _ _) => if s.conns c = .checkPassed then some c else none
  | .conn c (.claimJoin id) =>
    if s.conns c = .handshake ∧ (s.find id).any s.isCheck then some c else none
  | _ => none

/-- A connection that joins without entering a Check session has found another session. -/
theorem not_isCheck_of_join {id x : ℕ} (hq : s.conns c = .handshake) (hx : s.find id = some x)
    (hent : s.entersCheck (.conn c (.claimJoin id)) = none) : s.isCheck x = false := by
  unfold State.entersCheck at hent
  simp only [hq, hx, Option.any_some, true_and] at hent
  by_contra hno
  have hyes : s.isCheck x = true := by simpa using hno
  rw [if_pos hyes] at hent
  cases hent

/-- The connection behind a `CheckAuth` enters with the session that it makes. -/
theorem entersCheck_create (x id : ℕ) (hq : s.conns c = .checkPassed) :
    s.entersCheck (.conn c (.create x id)) = some c := if_pos hq

/-- The connections that belong to Check sessions in a run from `s`. -/
def checkConns (cfg : Config) : State → List Event → List ℕ
  | _, [] => []
  | s, e :: es => (s.entersCheck e).toList ++ checkConns cfg ((machine cfg).next s e) es

/-- Events of connections other than those of `B`, and time. -/
def keeps (B : List ℕ) : Event → Bool
  | .conn c _ | .main (.accept c) => decide (c ∉ B)
  | _ => true

/-- Steps of connection threads, of which those in `B` belong to Check sessions: a token that a
new Sync session gets is not that of a Check session, nobody joins a Check session before its
type is set, and a sweep of a connection in `B` finds no expired Sync session. -/
def Apart (B : List ℕ) (s : State) : Event → Prop
  | .conn c (.create _ id) => s.conns c = .authPassed → (s.find id).any s.isCheck = false
  | .conn _ (.claimJoin id) => ∀ x ∈ s.find id, s.isCheck x = true → s.typeOf x = .check
  | .conn c .sweep => c ∈ B → ∀ e ∈ s.byId, s.isSync e.2 = true → s.expired e.2 = false
  | .main (.accept _) | .conn _ _ | .elapse _ => True
  | .main _ => False

instance : DecidablePred (Apart B s)
  | .conn c (.create _ id) =>
    inferInstanceAs (Decidable (s.conns c = .authPassed → (s.find id).any s.isCheck = false))
  | .conn _ (.claimJoin id) =>
    inferInstanceAs (Decidable (∀ x ∈ s.find id, s.isCheck x = true → s.typeOf x = .check))
  | .conn c .sweep =>
    inferInstanceAs (Decidable (c ∈ B → ∀ e ∈ s.byId, s.isSync e.2 = true → s.expired e.2 = false))
  | .conn _ .claimAuth | .conn _ .claimCheck | .conn _ .refuse | .conn _ .setType | .conn _ .sendOk
  | .conn _ .sendFail | .conn _ .readType | .conn _ .claim | .conn _ .endClean | .conn _ .endError | .conn _ .close
  | .conn _ .check | .conn _ .readOk | .conn _ .readErr | .conn _ .exchange | .conn _ .storeCode | .conn _ .storeExit
  | .conn _ .storeFailure | .conn _ .leave | .main (.accept _) | .elapse _ => .isTrue trivial
  | .main .waitSnapshot | .main .waitClock | .main .waitLoad | .main .drain | .main .drained | .main .snapshot
  | .main .decide | .main .exchange | .main .load | .main .publish | .main .ret => .isFalse id

/-! ### The state without the Check sessions -/

/-- What the threads decide from, apart from the sessions. -/
def State.shared (s : State) : ℕ × Option ℕ × Bool × Bool × ℕ × Bool × Bool × Main :=
  (s.now, s.target, s.targetClaimed, s.terminalFired, s.exitCode, s.shouldExit, s.anyFailure, s.main)

/-- `t` is `s` without the connections in `B` and without the Check sessions. -/
structure Sim (B : List ℕ) (s t : State) : Prop where
  shared : t.shared = s.shared
  conns : ∀ c, t.conns c = if c ∈ B then .absent else s.conns c
  sessions : ∀ x, t.sessions x = (s.sessions x).filter fun v => decide (v.made = .sync)
  byId : t.byId = s.byId.filter fun e => s.isSync e.2

theorem sim_start : Sim B .start .start where
  shared := rfl
  conns _ := (ite_self _).symm
  sessions _ := rfl
  byId := rfl

section Sim

variable {p : Phase} {x : ℕ} {f : Session → Session}

theorem Sim.conn (h : Sim B s t) (hc : c ∉ B) : t.conns c = s.conns c := by
  rw [h.conns, if_neg hc]

theorem isSync_iff : s.isSync x = true ↔ ∃ v, s.sessions x = some v ∧ v.made = .sync := by
  unfold State.isSync
  cases s.sessions x with
  | none => simp
  | some v => simp

theorem Sim.session (h : Sim B s t) (hx : s.isSync x = true) : t.sessions x = s.sessions x := by
  obtain ⟨v, hv, hmade⟩ := isSync_iff.1 hx
  rw [h.sessions, hv]
  simp [hmade]

theorem Sim.session_none (h : Sim B s t) (hx : s.isSync x = false) : t.sessions x = none := by
  rw [h.sessions]
  cases hv : s.sessions x with
  | none => rfl
  | some v =>
    unfold State.isSync at hx
    rw [hv] at hx
    have hmade : ¬ v.made = .sync := by simpa using hx
    simp [hmade]

theorem Sim.goto (h : Sim B s t) (hc : c ∉ B) : Sim B (s.goto c p) (t.goto c p) := by
  refine ⟨h.shared, fun d => ?_, h.sessions, h.byId⟩
  rw [goto_conns, goto_conns]
  by_cases hd : d = c
  · rw [hd, Function.update_self, Function.update_self, if_neg hc]
  · rw [Function.update_of_ne hd, Function.update_of_ne hd]
    exact h.conns d

/-- Threads in `B` are not seen. -/
theorem Sim.goto_hidden (h : Sim B s t) (hc : c ∈ B) : Sim B (s.goto c p) t := by
  refine ⟨h.shared, fun d => ?_, h.sessions, h.byId⟩
  rw [goto_conns, h.conns]
  by_cases hd : d = c
  · rw [hd, if_pos hc, if_pos hc]
  · rw [Function.update_of_ne hd]

theorem isSync_change (hf : ∀ v, (f v).made = v.made) (y : ℕ) : (s.change x f).isSync y = s.isSync y := by
  unfold State.isSync
  by_cases hy : y = x
  · subst hy
    show (Function.update s.sessions y _ y).any _ = _
    rw [Function.update_self]
    cases s.sessions y with
    | none => rfl
    | some v => simp [hf]
  · rw [change_sessions_ne s x f hy]

theorem Sim.change (h : Sim B s t) (hf : ∀ v, (f v).made = v.made) : Sim B (s.change x f) (t.change x f) := by
  refine ⟨h.shared, h.conns, fun y => ?_, ?_⟩
  · by_cases hy : y = x
    · subst hy
      show Function.update t.sessions y _ y = (Function.update s.sessions y _ y).filter _
      rw [Function.update_self, Function.update_self, h.sessions]
      cases s.sessions y with
      | none => rfl
      | some v => by_cases hm : v.made = .sync <;> simp [Option.filter, hm, hf]
    · rw [change_sessions_ne s x f hy, change_sessions_ne t x f hy]
      exact h.sessions y
  · simp only [isSync_change hf]
    exact h.byId

/-- Changes of a Check session are not seen. -/
theorem Sim.change_hidden (h : Sim B s t) (hx : s.isSync x = false) (hf : ∀ v, (f v).made = v.made) :
    Sim B (s.change x f) t := by
  refine ⟨h.shared, h.conns, fun y => ?_, ?_⟩
  · by_cases hy : y = x
    · subst hy
      rw [h.session_none hx]
      show none = (Function.update s.sessions y _ y).filter _
      rw [Function.update_self]
      have hx' := hx
      unfold State.isSync at hx'
      cases hv : s.sessions y with
      | none => rfl
      | some v =>
        rw [hv] at hx'
        have hmade : ¬ v.made = .sync := by simpa using hx'
        simp [Option.filter, hf, hmade]
    · rw [change_sessions_ne s x f hy]
      exact h.sessions y
  · simp only [isSync_change hf]
    exact h.byId

theorem Sim.joinSession (h : Sim B s t) : Sim B (s.joinSession c x) (t.joinSession c x) := by
  have hnow : t.now = s.now := congrArg Prod.fst h.shared
  unfold State.joinSession
  rw [hnow]
  obtain ⟨h1, h2, h3, h4⟩ := h.change (x := x)
    (f := fun v => { v with liveConns := v.liveConns + 1, lastActivity := s.now }) fun _ => rfl
  exact ⟨h1, h2, h3, h4⟩

theorem Sim.onConnectionClosed (h : Sim B s t) : Sim B (s.onConnectionClosed c x) (t.onConnectionClosed c x) := by
  have hnow : t.now = s.now := congrArg Prod.fst h.shared
  unfold State.onConnectionClosed
  rw [hnow]
  obtain ⟨h1, h2, h3, h4⟩ := h.change (x := x)
    (f := fun v => { v with liveConns := v.liveConns - 1, lastActivity := s.now }) fun _ => rfl
  exact ⟨h1, h2, h3, h4⟩

theorem Sim.expired (h : Sim B s t) (hx : s.isSync x = true) : t.expired x = s.expired x := by
  unfold State.expired
  rw [h.session hx, show t.now = s.now from congrArg Prod.fst h.shared]

theorem Sim.sweepExpired (h : Sim B s t) : Sim B s.sweepExpired t.sweepExpired := by
  refine ⟨h.shared, h.conns, h.sessions, ?_⟩
  show t.byId.filter _ = (s.byId.filter _).filter fun e => s.isSync e.2
  rw [h.byId, List.filter_filter, List.filter_filter]
  apply List.filter_congr
  intro e _
  cases hs : s.isSync e.2 with
  | true => rw [h.expired hs, Bool.and_true, Bool.true_and]
  | false => rw [Bool.and_false, Bool.false_and]

/-- A sweep that finds no expired Sync session is not seen. -/
theorem Sim.sweep_hidden (h : Sim B s t) (hno : ∀ e ∈ s.byId, s.isSync e.2 = true → s.expired e.2 = false) :
    Sim B s.sweepExpired t := by
  refine ⟨h.shared, h.conns, h.sessions, ?_⟩
  show t.byId = (s.byId.filter _).filter fun e => s.isSync e.2
  rw [h.byId, List.filter_filter]
  apply List.filter_congr
  intro e he
  cases hs : s.isSync e.2 with
  | true => rw [hno e he hs]; rfl
  | false => rfl

/-! ### The registry without the Check sessions -/

theorem isSync_of_not_isCheck {v : Session} (hv : s.sessions x = some v) (hno : s.isCheck x = false) :
    s.isSync x = true := by
  unfold State.isCheck at hno
  rw [hv] at hno
  refine isSync_iff.2 ⟨v, hv, ?_⟩
  cases hm : v.made with
  | sync => rfl
  | check =>
    simp [hm] at hno

theorem Sim.find_some (h : Sim B s t) (hr : Registered s) {id : ℕ} (hx : s.find id = some x) (hs : s.isSync x = true) :
    t.find id = some x := by
  have hkeys : (t.byId.map Prod.fst).Nodup := by
    rw [h.byId]
    exact hr.keys.sublist (List.filter_sublist.map _)
  have hmem : (id, x) ∈ t.byId := by
    rw [h.byId]
    exact List.mem_filter.2 ⟨mem_of_find hx, hs⟩
  exact lookup_of_mem hkeys hmem

theorem Sim.find_none (h : Sim B s t) (hr : Registered s) {id : ℕ} (hx : s.find id = none) : t.find id = none := by
  cases hy : t.find id with
  | none => rfl
  | some y =>
    have hmem := mem_of_find hy
    rw [h.byId] at hmem
    have hfind := hr.find_entry (List.mem_of_mem_filter hmem)
    rw [hx] at hfind
    cases hfind

/-- The entries that were there before a new session keep their sessions. -/
theorem filter_create (hr : Registered s) (hx : s.sessions x = none) (id : ℕ) (made : SessionType) :
    s.byId.filter (fun e => (s.createSession c x id made).isSync e.2) = s.byId.filter fun e => s.isSync e.2 := by
  apply List.filter_congr
  intro e he
  obtain ⟨v, hv, -⟩ := hr.entries e he
  have hne : e.2 ≠ x := by
    intro heq
    rw [heq, hx] at hv
    cases hv
  show (Function.update s.sessions x _ e.2).any _ = _
  rw [Function.update_of_ne hne]
  rfl

theorem Sim.createSession (h : Sim B s t) (hr : Registered s) {id : ℕ} (hx : s.sessions x = none)
    (htok : (s.find id).any s.isCheck = false) :
    Sim B (s.createSession c x id .sync) (t.createSession c x id .sync) := by
  have hnow : t.now = s.now := congrArg Prod.fst h.shared
  refine ⟨h.shared, h.conns, fun y => ?_, ?_⟩
  · show Function.update t.sessions x _ y = (Function.update s.sessions x _ y).filter _
    by_cases hy : y = x
    · rw [hy, Function.update_self, Function.update_self, hnow]
      rfl
    · rw [Function.update_of_ne hy, Function.update_of_ne hy]
      exact h.sessions y
  · have hnew : (s.createSession c x id .sync).isSync x = true := by
      unfold State.isSync
      rw [show (s.createSession c x id .sync).sessions x = _ from Function.update_self ..]
      rfl
    show (if t.find id = none then t.byId ++ [(id, x)] else t.byId) =
      (if s.find id = none then s.byId ++ [(id, x)] else s.byId).filter _
    cases hf : s.find id with
    | none =>
      rw [if_pos (h.find_none hr hf), if_pos rfl, List.filter_append, filter_create hr hx, h.byId]
      simp [hnew]
    | some y =>
      -- the token is taken by a Sync session, in both
      rw [hf, Option.any_some] at htok
      obtain ⟨v, hv, -⟩ := hr.entries _ (mem_of_find hf)
      have hfind := h.find_some hr hf (isSync_of_not_isCheck hv htok)
      rw [hfind, if_neg nofun, if_neg nofun, filter_create hr hx]
      exact h.byId

/-- A new Check session is not seen. -/
theorem Sim.create_hidden (h : Sim B s t) (hr : Registered s) {id : ℕ} (hx : s.sessions x = none) :
    Sim B (s.createSession c x id .check) t := by
  refine ⟨h.shared, h.conns, fun y => ?_, ?_⟩
  · show t.sessions y = (Function.update s.sessions x _ y).filter _
    by_cases hy : y = x
    · rw [hy, Function.update_self, h.sessions, hx]
      rfl
    · rw [Function.update_of_ne hy]
      exact h.sessions y
  · have hnew : (s.createSession c x id .check).isSync x = false := by
      unfold State.isSync
      rw [show (s.createSession c x id .check).sessions x = _ from Function.update_self ..]
      rfl
    show t.byId = (if s.find id = none then s.byId ++ [(id, x)] else s.byId).filter _
    split
    · rw [List.filter_append, filter_create hr hx, h.byId]
      simp [hnew]
    · rw [filter_create hr hx]
      exact h.byId

theorem Sim.serve (h : Sim B s t) (hc : c ∉ B) (b : Bool) : Sim B (s.serve c x b) (t.serve c x b) := by
  obtain ⟨h1, h2, h3, h4⟩ := h.goto (p := .serving x b) hc
  exact ⟨h1, h2, h3, h4⟩

theorem Sim.typeOf (h : Sim B s t) (hx : s.isSync x = true) : t.typeOf x = s.typeOf x := by
  unfold State.typeOf
  rw [h.session hx]

theorem Sim.liveConns (h : Sim B s t) (hx : s.isSync x = true) : t.liveConns x = s.liveConns x := by
  unfold State.liveConns
  rw [h.session hx]

theorem Sim.completedOk (h : Sim B s t) (hx : s.isSync x = true) : t.completedOk x = s.completedOk x := by
  unfold State.completedOk
  rw [h.session hx]

theorem Sim.hadError (h : Sim B s t) (hx : s.isSync x = true) : t.hadError x = s.hadError x := by
  unfold State.hadError
  rw [h.session hx]

theorem Sim.endedClean (h : Sim B s t) (b : Bool) : Sim B (s.endedClean cfg c x b) (t.endedClean cfg c x b) := by
  unfold State.endedClean
  split
  · obtain ⟨h1, h2, h3, h4⟩ := h.change (x := x) (f := fun v => { v with completedOk := true }) fun _ => rfl
    exact ⟨h1, h2, h3, h4⟩
  · exact ⟨h.shared, h.conns, h.sessions, h.byId⟩

theorem Sim.endedError (h : Sim B s t) (hx : s.isSync x = true) : Sim B (s.endedError cfg c x) (t.endedError cfg c x) := by
  unfold State.endedError
  rw [h.typeOf hx]
  split
  · obtain ⟨h1, h2, h3, h4⟩ := h.change (x := x) (f := fun v => { v with hadError := true }) fun _ => rfl
    exact ⟨h1, h2, h3, h4⟩
  · exact ⟨h.shared, h.conns, h.sessions, h.byId⟩

end Sim

/-- The session that a thread's place is about. -/
def Phase.session : Phase → Option ℕ
  | .created x | .sending x | .resolved x | .typed x _ | .serving x _ | .ended x | .closed x _ | .swept x _
  | .judging x | .judgedOk x | .folding x | .foldOk x => some x
  | _ => none

/-- **A step of another connection is matched.** -/
theorem Sim.effect (h : Sim B s t) (hr : Registered s) (hc : c ∉ B)
    (hsync : ∀ x, (s.conns c).session = some x → s.isSync x = true) (hent : s.entersCheck (.conn c a) = none)
    (hok : Apart B s (.conn c a)) (he : Effect cfg s c a s') : ∃ t', t.act cfg c a = some t' ∧ Sim B s' t' := by
  have hat := h.conn hc
  have hsh := h.shared
  simp only [State.shared, Prod.mk.injEq] at hsh
  obtain ⟨hnow, htarget, hclaimed, hterm, hcode, hexit, hany, hmain⟩ := hsh
  -- the place of the thread, and the session it is about, in the other run
  have hplace : ∀ {p}, s.conns c = p → t.conns c = p := fun hq => hat.trans hq
  have hown : ∀ {p x}, s.conns c = p → p.session = some x → s.isSync x = true := by
    rintro _ x rfl hx
    exact hsync x hx
  cases he with
  | refused hq => exact ⟨_, (Effect.refused (hat ▸ hq)).act, h.goto hc⟩
  | refusedAuth hq hm hcl => exact ⟨_, (Effect.refusedAuth (hplace hq) hm (hclaimed.trans hcl)).act, h.goto hc⟩
  | refusedJoin hq hx => exact ⟨_, (Effect.refusedJoin (hplace hq) (h.find_none hr hx)).act, h.goto hc⟩
  | passAuth hq hno => exact ⟨_, (Effect.passAuth (hplace hq) (by rwa [hclaimed])).act, h.goto hc⟩
  | passCheck hq => exact ⟨_, (Effect.passCheck (hplace hq)).act, h.goto hc⟩
  | @join x id hq hx =>
    obtain ⟨v, hv, -⟩ := hr.entries _ (mem_of_find hx)
    have hnot : s.isCheck x = false := not_isCheck_of_join hq hx hent
    have hfind := h.find_some hr hx (isSync_of_not_isCheck hv hnot)
    exact ⟨_, (Effect.join (hplace hq) hfind).act, h.joinSession.goto hc⟩
  | @createSync x id hq hx =>
    have hx' : t.sessions x = none := by rw [h.sessions, hx]; rfl
    exact ⟨_, (Effect.createSync (hplace hq) hx').act, (h.createSession hr hx (hok hq)).goto hc⟩
  | createCheck hq =>
    rw [entersCheck_create _ _ hq] at hent
    cases hent
  | @setType x hq =>
    have hstep := h.change (x := x) (f := fun v => { v with type := .check }) fun _ => rfl
    exact ⟨_, (Effect.setType (hplace hq)).act, hstep.goto hc⟩
  | sendOk hq => exact ⟨_, (Effect.sendOk (hplace hq)).act, h.goto hc⟩
  | sendFail hq => exact ⟨_, (Effect.sendFail (hplace hq)).act, h.onConnectionClosed.goto hc⟩
  | @readType x hq =>
    refine ⟨_, (Effect.readType (hplace hq)).act, ?_⟩
    rw [h.typeOf (hown hq rfl)]
    exact h.goto hc
  | @claimNew x hq hm hcl =>
    have hstep : Sim B { s with target := some x, targetClaimed := true } { t with target := some x, targetClaimed := true } := by
      refine ⟨?_, h.conns, h.sessions, h.byId⟩
      simp only [State.shared, Prod.mk.injEq]
      exact ⟨hnow, trivial, trivial, hterm, hcode, hexit, hany, hmain⟩
    exact ⟨_, (Effect.claimNew (hplace hq) hm (hclaimed.trans hcl)).act, hstep.serve hc false⟩
  | claimMatch hq hm hcl ht =>
    exact ⟨_, (Effect.claimMatch (hplace hq) hm (hclaimed.trans hcl) (htarget.trans ht)).act, h.serve hc false⟩
  | claimRefused hq hm hcl ht =>
    exact ⟨_, (Effect.claimRefused (hplace hq) hm (hclaimed.trans hcl) (by rwa [htarget])).act, h.goto hc⟩
  | @serve x b hq hno => exact ⟨_, (Effect.serve (hplace hq) hno).act, h.serve hc b⟩
  | endClean hq => exact ⟨_, (Effect.endClean (hplace hq)).act, (h.endedClean _).goto hc⟩
  | endError hq => exact ⟨_, (Effect.endError (hplace hq)).act, (h.endedError (hown hq rfl)).goto hc⟩
  | @close x hq =>
    refine ⟨_, (Effect.close (hplace hq)).act, ?_⟩
    rw [h.liveConns (hown hq rfl)]
    exact h.onConnectionClosed.goto hc
  | sweep hq => exact ⟨_, (Effect.sweep (hplace hq)).act, h.sweepExpired.goto hc⟩
  | sweepNone hq => exact ⟨_, (Effect.sweepNone (hplace hq)).act, h.sweepExpired.goto hc⟩
  | checkTarget hq hm hty ht =>
    have hty' := (h.typeOf (hown hq rfl)).trans_ne hty
    exact ⟨_, (Effect.checkTarget (hplace hq) hm hty' (htarget.trans ht)).act, h.goto hc⟩
  | checkFold hq hm hty =>
    have hty' := (h.typeOf (hown hq rfl)).trans_ne hty
    exact ⟨_, (Effect.checkFold (hplace hq) hm hty').act, h.goto hc⟩
  | checkDone hq hno hno' =>
    have hx := h.typeOf (hown hq rfl)
    exact ⟨_, (Effect.checkDone (hplace hq) (by rwa [hx]) (by rwa [hx, htarget])).act, h.goto hc⟩
  | judgeOk hq hdone => exact ⟨_, (Effect.judgeOk (hplace hq) ((h.completedOk (hown hq rfl)).trans hdone)).act, h.goto hc⟩
  | judgeBad hq hdone =>
    exact ⟨_, (Effect.judgeBad (hplace hq) ((h.completedOk (hown hq rfl)).trans hdone)).act, h.goto hc⟩
  | judgeErr hq =>
    refine ⟨_, (Effect.judgeErr (hplace hq)).act, ?_⟩
    rw [h.hadError (hown hq rfl)]
    exact h.goto hc
  | exchangeLost hq hf => exact ⟨_, (Effect.exchangeLost (hplace hq) (hterm.trans hf)).act, h.goto hc⟩
  | @exchangeWon b hq hf =>
    have hfire : Sim B s.fire t.fire := by
      refine ⟨?_, h.conns, h.sessions, h.byId⟩
      simp only [State.shared, Prod.mk.injEq]
      exact ⟨hnow, htarget, hclaimed, rfl, hcode, hexit, hany, hmain⟩
    exact ⟨_, (Effect.exchangeWon (hplace hq) (hterm.trans hf)).act, hfire.goto hc⟩
  | @storeCode b hq =>
    have hstep : Sim B { s with exitCode := if b then kExitOk else kExitOnceSessionFailed }
        { t with exitCode := if b then kExitOk else kExitOnceSessionFailed } := by
      refine ⟨?_, h.conns, h.sessions, h.byId⟩
      simp only [State.shared, Prod.mk.injEq]
      exact ⟨hnow, htarget, hclaimed, hterm, trivial, hexit, hany, hmain⟩
    exact ⟨_, (Effect.storeCode (hplace hq)).act, hstep.goto hc⟩
  | storeExit hq =>
    have hstep : Sim B { s with shouldExit := true } { t with shouldExit := true } := by
      refine ⟨?_, h.conns, h.sessions, h.byId⟩
      simp only [State.shared, Prod.mk.injEq]
      exact ⟨hnow, htarget, hclaimed, hterm, hcode, trivial, hany, hmain⟩
    exact ⟨_, (Effect.storeExit (hplace hq)).act, hstep.goto hc⟩
  | foldOk hq hdone => exact ⟨_, (Effect.foldOk (hplace hq) ((h.completedOk (hown hq rfl)).trans hdone)).act, h.goto hc⟩
  | foldBad hq hdone =>
    exact ⟨_, (Effect.foldBad (hplace hq) ((h.completedOk (hown hq rfl)).trans hdone)).act, h.goto hc⟩
  | foldErr hq herr => exact ⟨_, (Effect.foldErr (hplace hq) ((h.hadError (hown hq rfl)).trans herr)).act, h.goto hc⟩
  | foldClean hq herr =>
    exact ⟨_, (Effect.foldClean (hplace hq) ((h.hadError (hown hq rfl)).trans herr)).act, h.goto hc⟩
  | storeFailure hq =>
    have hstep : Sim B { s with anyFailure := true } { t with anyFailure := true } := by
      refine ⟨?_, h.conns, h.sessions, h.byId⟩
      simp only [State.shared, Prod.mk.injEq]
      exact ⟨hnow, htarget, hclaimed, hterm, hcode, hexit, trivial, hmain⟩
    exact ⟨_, (Effect.storeFailure (hplace hq)).act, hstep.goto hc⟩
  | leave hq => exact ⟨_, (Effect.leave (hplace hq)).act, h.goto hc⟩

/-! ### The threads of Check sessions -/

theorem isCheck_iff {x : ℕ} : s.isCheck x = true ↔ ∃ v, s.sessions x = some v ∧ v.made = .check := by
  unfold State.isCheck
  cases s.sessions x with
  | none => simp
  | some v => simp

theorem isSync_false_of_isCheck {x : ℕ} (h : s.isCheck x = true) : s.isSync x = false := by
  obtain ⟨v, hv, hmade⟩ := isCheck_iff.1 h
  unfold State.isSync
  rw [hv]
  simp [hmade]

theorem Effect.isSync (he : Effect cfg s c a s') {x : ℕ} (h : s.isSync x = true) : s'.isSync x = true := by
  obtain ⟨v, hv, hmade⟩ := isSync_iff.1 h
  obtain ⟨v', hv', hse⟩ := he.session hv
  exact isSync_iff.2 ⟨v', hv', hse.made.trans hmade⟩

theorem Effect.isCheck (he : Effect cfg s c a s') {x : ℕ} (h : s.isCheck x = true) : s'.isCheck x = true := by
  obtain ⟨v, hv, hmade⟩ := isCheck_iff.1 h
  obtain ⟨v', hv', hse⟩ := he.session hv
  exact isCheck_iff.2 ⟨v', hv', hse.made.trans hmade⟩

/-- Where a thread of a Check session can be. -/
def CheckOK (s : State) : Phase → Prop
  | .created x => s.isCheck x = true
  | .sending x | .resolved x | .ended x | .closed x _ | .swept x _ => s.isCheck x = true ∧ s.typeOf x = .check
  | .typed x b | .serving x b => b = true ∧ s.isCheck x = true ∧ s.typeOf x = .check
  | .unresolved | .leaving | .gone => True
  | _ => False

theorem CheckOK.mono {p : Phase} (h : CheckOK s p) (hcheck : ∀ x, s.isCheck x = true → s'.isCheck x = true)
    (htype : ∀ x, s.typeOf x = .check → s'.typeOf x = .check) : CheckOK s' p := by
  cases p with
  | created x => exact hcheck x h
  | sending x => exact ⟨hcheck x h.1, htype x h.2⟩
  | resolved x => exact ⟨hcheck x h.1, htype x h.2⟩
  | ended x => exact ⟨hcheck x h.1, htype x h.2⟩
  | closed x r => exact ⟨hcheck x h.1, htype x h.2⟩
  | swept x r => exact ⟨hcheck x h.1, htype x h.2⟩
  | typed x b => exact ⟨h.1, hcheck x h.2.1, htype x h.2.2⟩
  | serving x b => exact ⟨h.1, hcheck x h.2.1, htype x h.2.2⟩
  | unresolved => trivial
  | leaving => trivial
  | gone => trivial
  | _ => exact h.elim

theorem typeOf_change_check {x : ℕ} (h : s.isCheck x = true) :
    (s.change x fun v => { v with type := .check }).typeOf x = .check := by
  obtain ⟨v, hv, -⟩ := isCheck_iff.1 h
  rw [typeOf_of (change_sessions_self s x _ hv)]

/-- **A step of a thread of a Check session is not seen**, and leaves it one. -/
theorem Sim.effect_hidden (h : Sim B s t) (hc : c ∈ B) (hp : CheckOK s (s.conns c)) (hok : Apart B s (.conn c a))
    (he : Effect cfg s c a s') : Sim B s' t ∧ CheckOK s' (s'.conns c) := by
  have hself : ∀ {u : State} {p : Phase}, CheckOK s' p → CheckOK s' (Function.update u.conns c p c) := by
    intro u p hcp
    rwa [Function.update_self]
  have hno : ∀ {q : Phase}, s.conns c = q → ¬ CheckOK s q → Sim B s' t ∧ CheckOK s' (s'.conns c) := by
    intro q hq hnq
    rw [hq] at hp
    exact absurd hp hnq
  have hchk : ∀ x, s.isCheck x = true → s'.isCheck x = true := fun x hx => he.isCheck hx
  have htype : ∀ x, s.typeOf x = .check → s'.typeOf x = .check := fun x hx => he.typeOf_check hx
  -- a thread of a Check session is in none of the phases before its session, nor in those of a verdict
  cases he with
  | refused hq =>
    rcases hq with hq | hq | hq <;> exact hno hq id
  | refusedAuth hq => exact hno hq id
  | refusedJoin hq => exact hno hq id
  | passAuth hq => exact hno hq id
  | passCheck hq => exact hno hq id
  | join hq => exact hno hq id
  | createSync hq => exact hno hq id
  | createCheck hq => exact hno hq id
  | @setType x hq =>
    rw [hq] at hp
    have hstep := h.change_hidden (f := fun v => { v with type := .check }) (isSync_false_of_isCheck hp) fun _ => rfl
    exact ⟨hstep.goto_hidden hc, hself ⟨hchk x hp, typeOf_change_check hp⟩⟩
  | @sendOk x hq =>
    rw [hq] at hp
    exact ⟨h.goto_hidden hc, hself hp⟩
  | @sendFail x hq =>
    rw [hq] at hp
    obtain ⟨h1, h2, h3, h4⟩ := h.change_hidden (f := fun v => { v with liveConns := v.liveConns - 1, lastActivity := s.now })
      (isSync_false_of_isCheck hp.1) fun _ => rfl
    have hclosed : Sim B (s.onConnectionClosed c x) t := ⟨h1, h2, h3, h4⟩
    exact ⟨hclosed.goto_hidden hc, hself trivial⟩
  | @readType x hq =>
    rw [hq] at hp
    exact ⟨h.goto_hidden hc, hself ⟨decide_eq_true hp.2, hp⟩⟩
  | claimNew hq => exact hno hq fun hcp => nomatch hcp.1
  | claimMatch hq => exact hno hq fun hcp => nomatch hcp.1
  | claimRefused hq => exact hno hq fun hcp => nomatch hcp.1
  | @serve x b hq =>
    rw [hq] at hp
    obtain ⟨h1, h2, h3, h4⟩ := h.goto_hidden (p := .serving x b) hc
    exact ⟨⟨h1, h2, h3, h4⟩, hself hp⟩
  | @endClean x b hq =>
    rw [hq] at hp
    obtain ⟨rfl, hp⟩ := hp
    have hsame : Sim B (s.endedClean cfg c x true) t := by
      unfold State.endedClean
      rw [if_neg fun hall => nomatch hall.1]
      exact ⟨h.shared, h.conns, h.sessions, h.byId⟩
    exact ⟨hsame.goto_hidden hc, hself ⟨hchk x hp.1, htype x hp.2⟩⟩
  | @endError x b hq =>
    -- the error flag is for sessions that are not of the Check type
    rw [hq] at hp
    obtain ⟨-, hp⟩ := hp
    have hsame : Sim B (s.endedError cfg c x) t := by
      unfold State.endedError
      rw [if_neg fun hall => hall.2 hp.2]
      exact ⟨h.shared, h.conns, h.sessions, h.byId⟩
    exact ⟨hsame.goto_hidden hc, hself ⟨hchk x hp.1, htype x hp.2⟩⟩
  | @close x hq =>
    rw [hq] at hp
    obtain ⟨h1, h2, h3, h4⟩ := h.change_hidden (f := fun v => { v with liveConns := v.liveConns - 1, lastActivity := s.now })
      (isSync_false_of_isCheck hp.1) fun _ => rfl
    have hclosed : Sim B (s.onConnectionClosed c x) t := ⟨h1, h2, h3, h4⟩
    exact ⟨hclosed.goto_hidden hc, hself ⟨hchk x hp.1, htype x hp.2⟩⟩
  | @sweep x r hq =>
    rw [hq] at hp
    exact ⟨(h.sweep_hidden (hok hc)).goto_hidden hc, hself hp⟩
  | sweepNone hq => exact ⟨(h.sweep_hidden (hok hc)).goto_hidden hc, hself trivial⟩
  | checkTarget hq _ hty =>
    rw [hq] at hp
    exact absurd hp.2 hty
  | checkFold hq _ hty =>
    rw [hq] at hp
    exact absurd hp.2 hty
  | checkDone hq => exact ⟨h.goto_hidden hc, hself trivial⟩
  | judgeOk hq => exact hno hq id
  | judgeBad hq => exact hno hq id
  | judgeErr hq => exact hno hq id
  | exchangeLost hq => exact hno hq id
  | exchangeWon hq => exact hno hq id
  | storeCode hq => exact hno hq id
  | storeExit hq => exact hno hq id
  | foldOk hq => exact hno hq id
  | foldBad hq => exact hno hq id
  | foldErr hq => exact hno hq id
  | foldClean hq => exact hno hq id
  | storeFailure hq => exact hno hq id
  | leave hq => exact ⟨h.goto_hidden hc, hself trivial⟩

/-- Before a thread can come into a Check session. -/
def Phase.waits : Phase → Bool
  | .absent | .handshake | .checkPassed => true
  | _ => false

/-- A thread that waits after a step of its own has passed a `CheckAuth`. -/
theorem Effect.waits (he : Effect cfg s c a s') (hw : (s'.conns c).waits = true) :
    s.conns c = .handshake ∧ s' = s.goto c .checkPassed := by
  have hself : ∀ {u : State} {p : Phase}, (Function.update u.conns c p c).waits = true → p.waits = true := by
    intro u p hp
    rwa [Function.update_self] at hp
  cases he with
  | passCheck hq => exact ⟨hq, rfl⟩
  | _ => exact nomatch hself hw

/-- A thread comes into a Check session. -/
theorem Sim.enter (h : Sim B s t) (hr : Registered s) (hc : c ∈ B) (hent : s.entersCheck (.conn c a) = some c)
    (hok : Apart B s (.conn c a)) (he : Effect cfg s c a s') : Sim B s' t ∧ CheckOK s' (s'.conns c) := by
  have hself : ∀ {u : State} {p : Phase}, CheckOK s' p → CheckOK s' (Function.update u.conns c p c) := by
    intro u p hcp
    rwa [Function.update_self]
  have hchk : ∀ x, s.isCheck x = true → s'.isCheck x = true := fun x hx => he.isCheck hx
  have htype : ∀ x, s.typeOf x = .check → s'.typeOf x = .check := fun x hx => he.typeOf_check hx
  cases he with
  | @join x id hq hx =>
    unfold State.entersCheck at hent
    simp only [hq, hx, Option.any_some, true_and] at hent
    have hcheck : s.isCheck x = true := by
      by_contra hno
      rw [if_neg hno] at hent
      cases hent
    obtain ⟨h1, h2, h3, h4⟩ := h.change_hidden (f := fun v => { v with liveConns := v.liveConns + 1, lastActivity := s.now })
      (isSync_false_of_isCheck hcheck) fun _ => rfl
    have hjoined : Sim B (s.joinSession c x) t := ⟨h1, h2, h3, h4⟩
    exact ⟨hjoined.goto_hidden hc, hself ⟨hchk x hcheck, htype x (hok x hx hcheck)⟩⟩
  | refusedJoin hq hx =>
    unfold State.entersCheck at hent
    simp [hx] at hent
  | createSync hq =>
    unfold State.entersCheck at hent
    simp [hq] at hent
  | createCheck hq hx =>
    refine ⟨(h.create_hidden hr hx).goto_hidden hc, hself ?_⟩
    exact isCheck_iff.2 ⟨_, Function.update_self .., rfl⟩
  | _ => exact nomatch hent

/-- What a step makes a thread's place be about. -/
theorem Effect.placed (he : Effect cfg s c a s') {x : ℕ} (hx : (s'.conns c).session = some x) :
    (s.conns c).session = some x ∨ (∃ id, a = .claimJoin id ∧ s.conns c = .handshake ∧ s.find id = some x) ∨
      (∃ id, a = .create x id ∧ s.conns c = .authPassed ∧ s'.isSync x = true) ∨
      ∃ id, a = .create x id ∧ s.conns c = .checkPassed := by
  have hself : ∀ {u : State} {p : Phase}, (Function.update u.conns c p c).session = some x → p.session = some x := by
    intro u p hp
    rwa [Function.update_self] at hp
  have hkeep : ∀ {p q : Phase}, s.conns c = q → p.session = some x → q.session = p.session →
      (s.conns c).session = some x := by
    intro p q hq hp hpq
    rw [hq, hpq, hp]
  cases he with
  | join hq hfind =>
    cases hself hx
    exact .inr (.inl ⟨_, rfl, hq, hfind⟩)
  | createSync hq =>
    cases hself hx
    exact .inr (.inr (.inl ⟨_, rfl, hq, isSync_iff.2 ⟨_, Function.update_self .., rfl⟩⟩))
  | createCheck hq =>
    cases hself hx
    exact .inr (.inr (.inr ⟨_, rfl, hq⟩))
  | setType hq => exact .inl (hkeep hq (hself hx) rfl)
  | sendOk hq => exact .inl (hkeep hq (hself hx) rfl)
  | readType hq => exact .inl (hkeep hq (hself hx) rfl)
  | claimNew hq => exact .inl (hkeep hq (hself hx) rfl)
  | claimMatch hq => exact .inl (hkeep hq (hself hx) rfl)
  | claimRefused hq => exact .inl (hkeep hq (hself hx) rfl)
  | serve hq => exact .inl (hkeep hq (hself hx) rfl)
  | endClean hq => exact .inl (hkeep hq (hself hx) rfl)
  | endError hq => exact .inl (hkeep hq (hself hx) rfl)
  | close hq => exact .inl (hkeep hq (hself hx) rfl)
  | sweep hq => exact .inl (hkeep hq (hself hx) rfl)
  | checkTarget hq => exact .inl (hkeep hq (hself hx) rfl)
  | checkFold hq => exact .inl (hkeep hq (hself hx) rfl)
  | judgeOk hq => exact .inl (hkeep hq (hself hx) rfl)
  | foldOk hq => exact .inl (hkeep hq (hself hx) rfl)
  | _ => exact nomatch hself hx

/-! ### Runs -/

theorem entersCheck_self {e : Event} (h : s.entersCheck e = some c) : ∃ a, e = .conn c a ∧ (s.conns c).waits = true := by
  unfold State.entersCheck at h
  split at h
  · split at h
    · rename_i hq
      cases h
      exact ⟨_, rfl, by rw [hq]; rfl⟩
    · cases h
  · split at h
    · rename_i hq
      cases h
      exact ⟨_, rfl, by rw [hq.1]; rfl⟩
    · cases h
  · cases h

/-- A thread that is to come into a Check session waits. -/
theorem waits_of_mem {ok : State → Event → Prop} {es : List Event} (hes : (machine cfg).Allows ok s es)
    (hc : c ∈ checkConns cfg s es) : (s.conns c).waits = true := by
  induction es generalizing s with
  | nil => exact absurd hc List.not_mem_nil
  | cons e es ih =>
    rcases List.mem_append.1 hc with hnow | hlater
    · obtain ⟨-, -, hw⟩ := entersCheck_self (Option.mem_toList.1 hnow)
      exact hw
    · have hw := ih hes.2.2 hlater
      rcases step_cases hes.1 with ⟨d, a, -, he⟩ | ⟨a, -, he⟩ | ⟨d, -, he⟩
      · by_cases hdc : c = d
        · subst hdc
          rw [(he.waits hw).1]
          rfl
        · rwa [he.other hdc] at hw
      · rcases he.conns c with hc' | ⟨hc', -⟩
        · rwa [hc'] at hw
        · rw [hc']
          rfl
      · rwa [he] at hw

/-- The connections in `B` belong to Check sessions or are to come into one, the others do not. -/
structure Split (cfg : Config) (B : List ℕ) (es : List Event) (s : State) : Prop where
  sync : ∀ c, c ∉ B → ∀ x, (s.conns c).session = some x → s.isSync x = true
  check : ∀ c ∈ B, c ∈ checkConns cfg s es ∨ CheckOK s (s.conns c)
  future : ∀ c ∈ checkConns cfg s es, c ∈ B

section Split

variable {e : Event} {es : List Event}

theorem Split.next_future (h : Split cfg B (e :: es) s) : ∀ c ∈ checkConns cfg ((machine cfg).next s e) es, c ∈ B :=
  fun c hc => h.future c (List.mem_append_right _ hc)

theorem Split.enters (h : Split cfg B (e :: es) s) {d : ℕ} (hd : s.entersCheck e = some d) : d ∈ B :=
  h.future d (List.mem_append_left _ (Option.mem_toList.2 hd))

theorem Split.not_enters (h : Split cfg B (.conn c a :: es) s) (hc : c ∉ B) : s.entersCheck (.conn c a) = none := by
  cases hent : s.entersCheck (.conn c a) with
  | none => rfl
  | some d =>
    obtain ⟨a', ha, -⟩ := entersCheck_self hent
    cases ha
    exact absurd (h.enters hent) hc

/-- The other threads, after a step of the thread of `c`. -/
theorem Split.others (h : Split cfg B (.conn c a :: es) s) (hs' : s' = (machine cfg).next s (.conn c a))
    (he : Effect cfg s c a s') :
    (∀ d, d ≠ c → d ∉ B → ∀ x, (s'.conns d).session = some x → s'.isSync x = true) ∧
      ∀ d ∈ B, d ≠ c → d ∈ checkConns cfg s' es ∨ CheckOK s' (s'.conns d) := by
  refine ⟨fun d hdc hd x hx => ?_, fun d hd hdc => ?_⟩
  · rw [he.other hdc] at hx
    exact he.isSync (h.sync d hd x hx)
  · rw [he.other hdc]
    rcases h.check d hd with hmem | hok
    · rcases List.mem_append.1 hmem with hnow | hlater
      · obtain ⟨a', ha, -⟩ := entersCheck_self (Option.mem_toList.1 hnow)
        cases ha
        exact absurd rfl hdc
      · rw [hs']
        exact .inl hlater
    · exact .inr (hok.mono (fun _ hx => he.isCheck hx) fun _ hx => he.typeOf_check hx)

/-- An event that brings no connection into a session and changes none. -/
theorem Split.same (h : Split cfg B (e :: es) s) (hs' : s' = (machine cfg).next s e) (hent : s.entersCheck e = none)
    (hsess : s'.sessions = s.sessions)
    (hconns : ∀ d, s'.conns d = s.conns d ∨ s.conns d = .absent ∧ s'.conns d = .handshake) : Split cfg B es s' := by
  have hsync : ∀ x, s'.isSync x = s.isSync x := fun x => by unfold State.isSync; rw [hsess]
  refine ⟨fun d hd x hx => ?_, fun d hd => ?_, ?_⟩
  · rw [hsync]
    rcases hconns d with hd' | ⟨-, hd'⟩
    · exact h.sync d hd x (hd' ▸ hx)
    · rw [hd'] at hx
      cases hx
  · rcases h.check d hd with hmem | hok
    · rcases List.mem_append.1 hmem with hnow | hlater
      · rw [hent] at hnow
        exact absurd hnow List.not_mem_nil
      · rw [hs']
        exact .inl hlater
    · rcases hconns d with hd' | ⟨hd', -⟩
      · rw [hd']
        refine .inr (hok.mono (fun x hx => ?_) fun x hx => ?_)
        · unfold State.isCheck
          rw [hsess]
          exact hx
        · unfold State.typeOf
          rw [hsess]
          exact hx
      · rw [hd'] at hok
        exact hok.elim
  · rw [hs']
    exact h.next_future

end Split

/-- A run and the same run without the connections in `B`, with the events to come. -/
structure Related (cfg : Config) (B : List ℕ) (es : List Event) (s t : State) : Prop where
  registered : Registered s
  sim : Sim B s t
  split : Split cfg B es s
  allows : (machine cfg).Allows (Apart B) s es

section Related

variable {e : Event} {es : List Event}

/-- The thread of `c`, which does not belong to a Check session, makes a step in both. -/
theorem Related.keep_conn (h : Related cfg B (.conn c a :: es) s t) (hc : c ∉ B)
    (he : Effect cfg s c a ((machine cfg).next s (.conn c a))) :
    (machine cfg).can t (.conn c a) ∧
      Related cfg B es ((machine cfg).next s (.conn c a)) ((machine cfg).next t (.conn c a)) := by
  obtain ⟨hcan, hok, hes⟩ := h.allows
  have hent := h.split.not_enters hc
  obtain ⟨t', ht', hsim⟩ := h.sim.effect h.registered hc (h.split.sync c hc) hent hok he
  have hover : t.over = false := by
    have hmain : t.main = s.main := congrArg (fun u => u.2.2.2.2.2.2.2) h.sim.shared
    unfold State.over
    rw [hmain]
    exact can_over hcan
  have hstep : step cfg t (.conn c a) = some t' := by
    unfold step
    rw [hover]
    exact ht'
  obtain ⟨hcan', hnext'⟩ := machine_of_step hstep
  rw [hnext']
  obtain ⟨hsync, hcheck⟩ := h.split.others rfl he
  refine ⟨hcan', h.registered.step hcan, hsim, ⟨fun d hd x hx => ?_, fun d hd => ?_, h.split.next_future⟩, hes⟩
  · by_cases hdc : d = c
    · subst hdc
      rcases he.placed hx with hold | ⟨id, rfl, hq, hfind⟩ | ⟨id, -, -, hnew⟩ | ⟨id, rfl, hq⟩
      · exact he.isSync (h.split.sync d hc x hold)
      · -- it has joined a Sync session, or it would belong to a Check session
        obtain ⟨v, hv, -⟩ := h.registered.entries _ (mem_of_find hfind)
        exact he.isSync (isSync_of_not_isCheck hv (not_isCheck_of_join hq hfind hent))
      · exact hnew
      · rw [entersCheck_create _ _ hq] at hent
        cases hent
    · exact hsync d hdc hd x hx
  · exact hcheck d hd fun hdc => hc (hdc ▸ hd)

/-- The thread of `c`, which belongs to a Check session, makes a step that is not seen. -/
theorem Related.drop_conn (h : Related cfg B (.conn c a :: es) s t) (hc : c ∈ B)
    (he : Effect cfg s c a ((machine cfg).next s (.conn c a))) :
    Related cfg B es ((machine cfg).next s (.conn c a)) t := by
  obtain ⟨hcan, hok, hes⟩ := h.allows
  obtain ⟨hsync, hcheck⟩ := h.split.others rfl he
  have hdone : ∀ {s'}, s' = (machine cfg).next s (.conn c a) → Sim B s' t →
      (c ∈ checkConns cfg s' es ∨ CheckOK s' (s'.conns c)) → Related cfg B es s' t := by
    rintro s' rfl hsim hself
    refine ⟨h.registered.step hcan, hsim, ⟨fun d hd x hx => ?_, fun d hd => ?_, h.split.next_future⟩, hes⟩
    · exact hsync d (fun hdc => hd (hdc ▸ hc)) hd x hx
    · by_cases hdc : d = c
      · rw [hdc]
        exact hself
      · exact hcheck d hd hdc
  rcases h.split.check c hc with hmem | hp
  · rcases List.mem_append.1 hmem with hnow | hlater
    · obtain ⟨hsim, hp'⟩ := h.sim.enter h.registered hc (Option.mem_toList.1 hnow) hok he
      exact hdone rfl hsim (.inr hp')
    · obtain ⟨-, hnext⟩ := he.waits (waits_of_mem hes hlater)
      refine hdone rfl ?_ (.inl hlater)
      rw [hnext]
      exact h.sim.goto_hidden hc
  · obtain ⟨hsim, hp'⟩ := h.sim.effect_hidden hc hp hok he
    exact hdone rfl hsim (.inr hp')

theorem Sim.elapse (h : Sim B s t) (d : ℕ) : Sim B { s with now := s.now + d } { t with now := t.now + d } := by
  have hsh := h.shared
  simp only [State.shared, Prod.mk.injEq] at hsh
  refine ⟨?_, h.conns, h.sessions, h.byId⟩
  simp only [State.shared, Prod.mk.injEq]
  exact ⟨by rw [hsh.1], hsh.2⟩

theorem Related.elapse {d : ℕ} (h : Related cfg B (.elapse d :: es) s t) :
    (machine cfg).can t (.elapse d) ∧
      Related cfg B es ((machine cfg).next s (.elapse d)) ((machine cfg).next t (.elapse d)) := by
  obtain ⟨hcan, -, hes⟩ := h.allows
  have hover : s.over = false := can_over hcan
  have hover' : t.over = false := by
    have hmain : t.main = s.main := congrArg (fun u => u.2.2.2.2.2.2.2) h.sim.shared
    unfold State.over
    rw [hmain]
    exact hover
  have hstep : step cfg s (.elapse d) = some { s with now := s.now + d } := by
    unfold step
    rw [hover]
    rfl
  have hstep' : step cfg t (.elapse d) = some { t with now := t.now + d } := by
    unfold step
    rw [hover']
    rfl
  obtain ⟨hcan', hnext'⟩ := machine_of_step hstep'
  have hnext := (machine_of_step hstep).2
  have hsplit := h.split.same hnext.symm rfl rfl fun _ => .inl rfl
  refine ⟨hcan', h.registered.step hcan, ?_, hnext ▸ hsplit, hes⟩
  rw [hnext, hnext']
  exact h.sim.elapse d

theorem Related.accept (h : Related cfg B (.main (.accept c) :: es) s t)
    (he : MainEffect cfg s (.accept c) ((machine cfg).next s (.main (.accept c)))) :
    (c ∉ B → (machine cfg).can t (.main (.accept c)) ∧
        Related cfg B es ((machine cfg).next s (.main (.accept c))) ((machine cfg).next t (.main (.accept c)))) ∧
      (c ∈ B → Related cfg B es ((machine cfg).next s (.main (.accept c))) t) := by
  obtain ⟨hcan, -, hes⟩ := h.allows
  have hreg := h.registered.step hcan
  have hsplit : Split cfg B es ((machine cfg).next s (.main (.accept c))) :=
    h.split.same rfl rfl he.sessions he.conns
  have hmain : t.main = s.main := congrArg (fun u => u.2.2.2.2.2.2.2) h.sim.shared
  have hover : t.over = false := by
    unfold State.over
    rw [hmain]
    exact can_over hcan
  have hacc : s.main = .accepting ∧ s.conns c = .absent ∧
      (machine cfg).next s (.main (.accept c)) = { s with accepted := s.accepted ++ [c] }.goto c .handshake := by
    generalize hnext : (machine cfg).next s (.main (.accept c)) = s' at he
    cases he with
    | accept hm habs => exact ⟨hm, habs, rfl⟩
  obtain ⟨hm, habs, hnext⟩ := hacc
  constructor
  · intro hc
    have hstep : step cfg t (.main (.accept c)) = some ({ t with accepted := t.accepted ++ [c] }.goto c .handshake) := by
      unfold step
      rw [hover]
      have hg : t.main = .accepting ∧ t.conns c = .absent := ⟨hmain.trans hm, (h.sim.conn hc).trans habs⟩
      simp only [State.mainAct, if_pos hg]
      rfl
    obtain ⟨hcan', hnext'⟩ := machine_of_step hstep
    refine ⟨hcan', hreg, ?_, hsplit, hes⟩
    rw [hnext, hnext']
    obtain ⟨h1, h2, h3, h4⟩ := h.sim.goto (p := .handshake) hc
    exact ⟨h1, h2, h3, h4⟩
  · intro hc
    refine ⟨hreg, ?_, hsplit, hes⟩
    rw [hnext]
    obtain ⟨h1, h2, h3, h4⟩ := h.sim.goto_hidden (p := .handshake) hc
    exact ⟨h1, h2, h3, h4⟩

theorem Related.keep (h : Related cfg B (e :: es) s t) (hk : keeps B e = true) :
    (machine cfg).can t e ∧ Related cfg B es ((machine cfg).next s e) ((machine cfg).next t e) := by
  obtain ⟨hcan, hok, -⟩ := h.allows
  rcases step_cases hcan with ⟨c, a, rfl, he⟩ | ⟨a, rfl, he⟩ | ⟨d, rfl, -⟩
  · exact h.keep_conn (of_decide_eq_true hk) he
  · cases a with
    | accept c => exact (h.accept he).1 (of_decide_eq_true hk)
    | _ => exact hok.elim
  · exact h.elapse

theorem Related.drop (h : Related cfg B (e :: es) s t) (hk : keeps B e = false) :
    Related cfg B es ((machine cfg).next s e) t := by
  obtain ⟨hcan, hok, -⟩ := h.allows
  have hmem : ∀ {c : ℕ}, decide (c ∉ B) = false → c ∈ B := fun hc => not_not.1 (of_decide_eq_false hc)
  rcases step_cases hcan with ⟨c, a, rfl, he⟩ | ⟨a, rfl, he⟩ | ⟨d, rfl, -⟩
  · exact h.drop_conn (hmem hk) he
  · cases a with
    | accept c => exact (h.accept he).2 (hmem hk)
    | _ => exact hok.elim
  · cases hk

end Related

/-- **Check sessions do not take part in the once decision**: without the steps of their
connections a run is still a run, and after every step the same session is claimed, every
other connection stands where it stood, and the verdict and the failure flag are the same. -/
theorem check_connections_invisible {es : List Event}
    (hes : (machine cfg).Allows (Apart (checkConns cfg .start es)) .start es) :
    (machine cfg).Allows (fun _ _ => True) .start (es.filter (keeps (checkConns cfg .start es))) ∧
      ∀ es₁ es₂, es = es₁ ++ es₂ →
        let s := (machine cfg).run .start es₁
        let t := (machine cfg).run .start (es₁.filter (keeps (checkConns cfg .start es)))
        t.target = s.target ∧ t.targetClaimed = s.targetClaimed ∧
          (∀ c, c ∉ checkConns cfg .start es → t.conns c = s.conns c) ∧
          t.terminalFired = s.terminalFired ∧ t.exitCode = s.exitCode ∧ t.shouldExit = s.shouldExit ∧
          t.anyFailure = s.anyFailure := by
  have hsplit : Split cfg (checkConns cfg .start es) es .start := by
    refine ⟨?_, fun _ hc => .inl hc, fun _ hc => hc⟩
    intro c _ x hx
    cases hx
  have hstart : Related cfg (checkConns cfg .start es) es .start .start := ⟨registered_start, sim_start, hsplit, hes⟩
  obtain ⟨hall, hrel⟩ := hes.purge (fun _ _ _ _ hR _ _ hk => hR.keep hk) (fun _ _ _ _ hR _ _ hk => hR.drop hk) hstart
  refine ⟨hall, fun es₁ es₂ heq => ?_⟩
  have hsim := (hrel es₁ es₂ heq).sim
  have hsh := hsim.shared
  simp only [State.shared, Prod.mk.injEq] at hsh
  obtain ⟨-, htarget, hclaimed, hterm, hcode, hexit, hany, -⟩ := hsh
  exact ⟨htarget, hclaimed, fun c hc => hsim.conn hc, hterm, hcode, hexit, hany⟩

/-- A Sync session and a Check session of two connections, interleaved. -/
def interleaved : List Event :=
  [.main (.accept 0), .main (.accept 1), .main (.accept 2), .conn 1 .claimCheck, .conn 0 .claimAuth,
    .conn 1 (.create 8 43), .conn 0 (.create 7 42), .conn 1 .setType, .conn 1 .sendOk, .conn 2 (.claimJoin 43),
    .conn 0 .sendOk, .conn 2 .sendOk, .conn 2 .readType, .conn 2 .claim, .conn 0 .readType, .conn 0 .claim,
    .conn 2 .endError, .conn 0 .endClean, .conn 2 .close, .conn 0 .close, .conn 2 .sweep, .conn 0 .sweep,
    .conn 0 .check, .conn 2 .check, .conn 0 .readOk, .conn 0 .readErr, .conn 0 .exchange, .conn 0 .storeCode]

theorem check_connections_invisible_here :
    checkConns ⟨.once, 0, 300000⟩ .start interleaved = [1, 2] ∧
      ((machine ⟨.once, 0, 300000⟩).run .start interleaved).terminalFired = true ∧
      ((machine ⟨.once, 0, 300000⟩).run .start (interleaved.filter (keeps [1, 2]))).terminalFired =
        ((machine ⟨.once, 0, 300000⟩).run .start interleaved).terminalFired := by
  have hB : checkConns ⟨.once, 0, 300000⟩ .start interleaved = [1, 2] := by decide
  have hes : (machine ⟨.once, 0, 300000⟩).Allows (Apart (checkConns ⟨.once, 0, 300000⟩ .start interleaved)) .start interleaved := by
    decide
  have h := (check_connections_invisible hes).2 interleaved [] (List.append_nil _).symm
  rw [hB] at h
  exact ⟨hB, by decide, h.2.2.2.1⟩

/-- A Sync session goes idle for more than the TTL; then a Check connection comes, leaves and
sweeps, and a lane wants to join the Sync session. -/
def sweptAway : List Event :=
  [.main (.accept 0), .conn 0 .claimAuth, .conn 0 (.create 7 42), .conn 0 .sendOk, .conn 0 .readType, .conn 0 .claim,
    .conn 0 .endClean, .conn 0 .close, .conn 0 .sweep, .elapse 60001,
    .main (.accept 1), .conn 1 .claimCheck, .conn 1 (.create 8 43), .conn 1 .setType, .conn 1 .sendOk, .conn 1 .readType,
    .conn 1 .claim, .conn 1 .endClean, .conn 1 .close, .conn 1 .sweep,
    .main (.accept 2), .conn 2 (.claimJoin 42)]

/-- A lane joins a Check session before its type is set, reads it as a Sync session and claims
it; then an `Auth` comes. -/
def joinedEarly : List Event :=
  [.main (.accept 1), .conn 1 .claimCheck, .conn 1 (.create 8 43), .main (.accept 2), .conn 2 (.claimJoin 43),
    .conn 2 .sendOk, .conn 2 .readType, .conn 2 .claim, .main (.accept 0), .conn 0 .claimAuth]

/-- A Sync session gets the token of a Check session that is over, and is not registered; when
the Check session is swept away a lane wants to join the Sync session. -/
def tokenTaken : List Event :=
  [.main (.accept 1), .conn 1 .claimCheck, .conn 1 (.create 8 42), .conn 1 .setType, .conn 1 .sendOk, .conn 1 .readType,
    .conn 1 .claim, .conn 1 .endClean, .conn 1 .close, .conn 1 .sweep,
    .main (.accept 0), .conn 0 .claimAuth, .conn 0 (.create 7 42), .conn 0 .sendOk, .conn 0 .readType, .conn 0 .claim,
    .elapse 60001, .main (.accept 3), .conn 3 .refuse, .conn 3 .sweep, .main (.accept 2), .conn 2 (.claimJoin 42)]

/-- In each of the runs a connection is refused that is accepted without the Check connections'
steps. -/
theorem check_steps_decide :
    checkConns ⟨.onceMulti, 120000, 300000⟩ .start sweptAway = [1] ∧
      (machine ⟨.onceMulti, 120000, 300000⟩).Allows (fun _ _ => True) .start sweptAway ∧
      (machine ⟨.onceMulti, 120000, 300000⟩).Allows (fun _ _ => True) .start (sweptAway.filter (keeps [1])) ∧
      ((machine ⟨.onceMulti, 120000, 300000⟩).run .start sweptAway).conns 2 = .unresolved ∧
      ((machine ⟨.onceMulti, 120000, 300000⟩).run .start (sweptAway.filter (keeps [1]))).conns 2 = .sending 7 ∧
      checkConns ⟨.once, 0, 300000⟩ .start joinedEarly = [1, 2] ∧
      (machine ⟨.once, 0, 300000⟩).Allows (fun _ _ => True) .start joinedEarly ∧
      ((machine ⟨.once, 0, 300000⟩).run .start joinedEarly).conns 0 = .unresolved ∧
      ((machine ⟨.once, 0, 300000⟩).run .start (joinedEarly.filter (keeps [1, 2]))).conns 0 = .authPassed ∧
      checkConns ⟨.once, 0, 300000⟩ .start tokenTaken = [1] ∧
      (machine ⟨.once, 0, 300000⟩).Allows (fun _ _ => True) .start tokenTaken ∧
      ((machine ⟨.once, 0, 300000⟩).run .start tokenTaken).conns 2 = .unresolved ∧
      ((machine ⟨.once, 0, 300000⟩).run .start (tokenTaken.filter (keeps [1]))).conns 2 = .sending 7 :=
  ⟨by decide, by decide, by decide, by decide, by decide, by decide, by decide, by decide, by decide, by decide,
    by decide, by decide, by decide⟩

end FastClone.Sessions
