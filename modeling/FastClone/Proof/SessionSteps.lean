import FastClone.Spec.Sessions

/-!
# What a connection's thread can do

`Effect cfg s c a s'` lists the steps of one thread with the facts that each of them found,
`act_effect` says that there are no others, and `Effect.act` that each of them is one. Every invariant of the server is a case
analysis over `Effect`. `MainEffect` does the same for the main thread.
-/

namespace FastClone.Sessions

open Runs

/-! ### Fields -/

section Fields

variable (s : State) (c x id : ℕ) (p : Phase) (f : Session → Session) (k : SessionType)

@[simp] theorem goto_conns : (s.goto c p).conns = Function.update s.conns c p := rfl
@[simp] theorem closed_conns : (s.onConnectionClosed c x).conns = s.conns := rfl
@[simp] theorem serve_conns (b : Bool) :
    (s.serve c x b).conns = Function.update s.conns c (.serving x b) := rfl

theorem change_sessions_self {v : Session} (h : s.sessions x = some v) :
    (s.change x f).sessions x = some (f v) := by
  show Function.update s.sessions x _ x = _
  rw [Function.update_self, h]
  rfl

theorem change_sessions_ne {y : ℕ} (h : y ≠ x) : (s.change x f).sessions y = s.sessions y :=
  Function.update_of_ne h ..

end Fields

theorem liveConns_of {s : State} {x : ℕ} {v : Session} (h : s.sessions x = some v) : s.liveConns x = v.liveConns := by
  unfold State.liveConns
  rw [h]
  rfl

/-- The lane of `c` ends cleanly. -/
def State.endedClean (cfg : Config) (s : State) (c x : ℕ) (isCheck : Bool) : State :=
  { (if isCheck = false ∧ cfg.mode.oneShot then s.change x fun v => { v with completedOk := true } else s) with
    cleanEnds := s.cleanEnds ++ [(c, x)] }

/-- The lane of `c` ends with an error. -/
def State.endedError (cfg : Config) (s : State) (c x : ℕ) : State :=
  { (if cfg.mode.oneShot ∧ s.typeOf x ≠ .check then s.change x fun v => { v with hadError := true } else s) with
    errorEnds := s.errorEnds ++ [(c, x)] }

/-- The verdict of `FireOnceTerminal` is taken. -/
def State.fire (s : State) : State :=
  { s with
    terminalFired := true
    fired := s.fired ++ [(decide (∃ e ∈ s.cleanEnds, some e.2 = s.target),
      decide (∃ e ∈ s.errorEnds, some e.2 = s.target))] }

/-- One step of the thread of `c`, with what it found. -/
inductive Effect (cfg : Config) (s : State) (c : ℕ) : Act → State → Prop where
  | refused (h : s.conns c = .handshake ∨ s.conns c = .authPassed ∨ s.conns c = .checkPassed) :
      Effect cfg s c .refuse (s.goto c .unresolved)
  | refusedAuth (h : s.conns c = .handshake) (hm : cfg.mode = .once) (hc : s.targetClaimed = true) :
      Effect cfg s c .claimAuth (s.goto c .unresolved)
  | refusedJoin {id : ℕ} (h : s.conns c = .handshake) (hx : s.find id = none) :
      Effect cfg s c (.claimJoin id) (s.goto c .unresolved)
  | passAuth (h : s.conns c = .handshake) (hno : ¬ (cfg.mode = .once ∧ s.targetClaimed = true)) :
      Effect cfg s c .claimAuth (s.goto c .authPassed)
  | passCheck (h : s.conns c = .handshake) : Effect cfg s c .claimCheck (s.goto c .checkPassed)
  | join {x id : ℕ} (h : s.conns c = .handshake) (hx : s.find id = some x) :
      Effect cfg s c (.claimJoin id) ((s.joinSession c x).goto c (.sending x))
  | createSync {x id : ℕ} (h : s.conns c = .authPassed) (hx : s.sessions x = none) :
      Effect cfg s c (.create x id) ((s.createSession c x id .sync).goto c (.sending x))
  | createCheck {x id : ℕ} (h : s.conns c = .checkPassed) (hx : s.sessions x = none) :
      Effect cfg s c (.create x id) ((s.createSession c x id .check).goto c (.created x))
  | setType {x : ℕ} (h : s.conns c = .created x) :
      Effect cfg s c .setType ((s.change x fun v => { v with type := .check }).goto c (.sending x))
  | sendOk {x : ℕ} (h : s.conns c = .sending x) : Effect cfg s c .sendOk (s.goto c (.resolved x))
  | sendFail {x : ℕ} (h : s.conns c = .sending x) :
      Effect cfg s c .sendFail ((s.onConnectionClosed c x).goto c .unresolved)
  | readType {x : ℕ} (h : s.conns c = .resolved x) :
      Effect cfg s c .readType (s.goto c (.typed x (decide (s.typeOf x = .check))))
  | claimNew {x : ℕ} (h : s.conns c = .typed x false) (hm : cfg.mode = .once) (hc : s.targetClaimed = false) :
      Effect cfg s c .claim ({ s with target := some x, targetClaimed := true }.serve c x false)
  | claimMatch {x : ℕ} (h : s.conns c = .typed x false) (hm : cfg.mode = .once) (hc : s.targetClaimed = true)
      (ht : s.target = some x) : Effect cfg s c .claim (s.serve c x false)
  | claimRefused {x : ℕ} (h : s.conns c = .typed x false) (hm : cfg.mode = .once) (hc : s.targetClaimed = true)
      (ht : s.target ≠ some x) : Effect cfg s c .claim (s.goto c (.ended x))
  | serve {x : ℕ} {b : Bool} (h : s.conns c = .typed x b) (hno : ¬ (cfg.mode = .once ∧ b = false)) :
      Effect cfg s c .claim (s.serve c x b)
  | endClean {x : ℕ} {b : Bool} (h : s.conns c = .serving x b) :
      Effect cfg s c .endClean ((s.endedClean cfg c x b).goto c (.ended x))
  | endError {x : ℕ} {b : Bool} (h : s.conns c = .serving x b) :
      Effect cfg s c .endError ((s.endedError cfg c x).goto c (.ended x))
  | close {x : ℕ} (h : s.conns c = .ended x) :
      Effect cfg s c .close ((s.onConnectionClosed c x).goto c (.closed x (s.liveConns x - 1)))
  | sweep {x r : ℕ} (h : s.conns c = .closed x r) : Effect cfg s c .sweep (s.sweepExpired.goto c (.swept x r))
  | sweepNone (h : s.conns c = .unresolved) : Effect cfg s c .sweep (s.sweepExpired.goto c .leaving)
  | checkTarget {x : ℕ} (h : s.conns c = .swept x 0) (hm : cfg.mode = .once) (hty : s.typeOf x ≠ .check)
      (ht : s.target = some x) :
      Effect cfg s c .check (s.goto c (.judging x))
  | checkFold {x : ℕ} (h : s.conns c = .swept x 0) (hm : cfg.mode = .onceMulti) (hty : s.typeOf x ≠ .check) :
      Effect cfg s c .check (s.goto c (.folding x))
  | checkDone {x r : ℕ} (h : s.conns c = .swept x r)
      (hno : ¬ (cfg.mode = .onceMulti ∧ s.typeOf x ≠ .check ∧ r = 0))
      (hno' : ¬ (cfg.mode = .once ∧ s.typeOf x ≠ .check ∧ s.target = some x ∧ r = 0)) :
      Effect cfg s c .check (s.goto c .leaving)
  | judgeOk {x : ℕ} (h : s.conns c = .judging x) (ho : s.completedOk x = true) :
      Effect cfg s c .readOk (s.goto c (.judgedOk x))
  | judgeBad {x : ℕ} (h : s.conns c = .judging x) (ho : s.completedOk x = false) :
      Effect cfg s c .readOk (s.goto c (.firing false))
  | judgeErr {x : ℕ} (h : s.conns c = .judgedOk x) : Effect cfg s c .readErr (s.goto c (.firing (!s.hadError x)))
  | exchangeLost {b : Bool} (h : s.conns c = .firing b) (hf : s.terminalFired = true) :
      Effect cfg s c .exchange (s.goto c .leaving)
  | exchangeWon {b : Bool} (h : s.conns c = .firing b) (hf : s.terminalFired = false) :
      Effect cfg s c .exchange (s.fire.goto c (.publishing b))
  | storeCode {b : Bool} (h : s.conns c = .publishing b) :
      Effect cfg s c .storeCode ({ s with exitCode := if b then kExitOk else kExitOnceSessionFailed }.goto c .published)
  | storeExit (h : s.conns c = .published) : Effect cfg s c .storeExit ({ s with shouldExit := true }.goto c .leaving)
  | foldOk {x : ℕ} (h : s.conns c = .folding x) (ho : s.completedOk x = true) :
      Effect cfg s c .readOk (s.goto c (.foldOk x))
  | foldBad {x : ℕ} (h : s.conns c = .folding x) (ho : s.completedOk x = false) :
      Effect cfg s c .readOk (s.goto c .failing)
  | foldErr {x : ℕ} (h : s.conns c = .foldOk x) (he : s.hadError x = true) : Effect cfg s c .readErr (s.goto c .failing)
  | foldClean {x : ℕ} (h : s.conns c = .foldOk x) (he : s.hadError x = false) : Effect cfg s c .readErr (s.goto c .leaving)
  | storeFailure (h : s.conns c = .failing) : Effect cfg s c .storeFailure ({ s with anyFailure := true }.goto c .leaving)
  | leave (h : s.conns c = .leaving) : Effect cfg s c .leave (s.goto c .gone)

theorem claimStep_effect {cfg : Config} {s s' : State} {c : ℕ} {a : Act} (hp : s.conns c = .handshake)
    (h : s.claimStep cfg c a = some s') : Effect cfg s c a s' := by
  cases a with
  | claimAuth =>
    simp only [State.claimStep] at h
    split at h
    · rename_i hg
      cases h
      exact .refusedAuth hp hg.1 hg.2
    · rename_i hno
      cases h
      exact .passAuth hp hno
  | claimCheck =>
    cases h
    exact .passCheck hp
  | claimJoin id =>
    simp only [State.claimStep] at h
    split at h
    · rename_i x hx
      cases h
      exact .join hp hx
    · rename_i hx
      cases h
      exact .refusedJoin hp hx
  | refuse =>
    cases h
    exact .refused (.inl hp)
  | _ => cases h

/-- **A thread does nothing else.** -/
theorem act_effect {cfg : Config} {s s' : State} {c : ℕ} {a : Act} (h : s.act cfg c a = some s') :
    Effect cfg s c a s' := by
  unfold State.act at h
  split at h
  case h_1 hp => exact claimStep_effect hp h
  case h_2 x id hp =>
    split at h
    · rename_i hx
      cases h
      exact .createSync hp hx
    · cases h
  case h_3 hp => cases h; exact .refused (.inr (.inl hp))
  case h_4 x id hp =>
    split at h
    · rename_i hx
      cases h
      exact .createCheck hp hx
    · cases h
  case h_5 hp => cases h; exact .refused (.inr (.inr hp))
  case h_6 x hp => cases h; exact .setType hp
  case h_7 x hp => cases h; exact .sendOk hp
  case h_8 x hp => cases h; exact .sendFail hp
  case h_9 x hp => cases h; exact .readType hp
  case h_10 x b hp =>
    split at h
    · rename_i hm
      obtain ⟨hm, rfl⟩ := hm
      unfold State.claimOrMatchOnceTarget at h
      by_cases hc : s.targetClaimed = false
      · simp only [hc, if_true] at h
        cases h
        exact .claimNew hp hm hc
      · have hc' : s.targetClaimed = true := by simpa using hc
        by_cases ht : s.target = some x
        · simp only [hc', ht, decide_true, Bool.true_eq_false, if_false, if_true] at h
          cases h
          exact .claimMatch hp hm hc' ht
        · simp only [hc', ht, decide_false, Bool.true_eq_false, Bool.false_eq_true, if_false] at h
          cases h
          exact .claimRefused hp hm hc' ht
    · rename_i hno
      cases h
      exact .serve hp hno
  case h_11 x b hp => cases h; exact .endClean hp
  case h_12 x b hp => cases h; exact .endError hp
  case h_13 x hp => cases h; exact .close hp
  case h_14 x r hp => cases h; exact .sweep hp
  case h_15 hp => cases h; exact .sweepNone hp
  case h_16 x r hp =>
    split at h
    · rename_i hm
      have hno : ¬ (cfg.mode = .onceMulti ∧ s.typeOf x ≠ .check ∧ r = 0) := by
        rintro ⟨hm', -⟩
        rw [hm.1] at hm'
        cases hm'
      split at h
      · rename_i ht
        obtain ⟨ht, rfl⟩ := ht
        cases h
        exact .checkTarget hp hm.1 hm.2 ht
      · rename_i ht
        cases h
        exact .checkDone hp hno fun hall => ht hall.2.2
    · rename_i hm1
      have hno' : ¬ (cfg.mode = .once ∧ s.typeOf x ≠ .check ∧ s.target = some x ∧ r = 0) :=
        fun hall => hm1 ⟨hall.1, hall.2.1⟩
      split at h
      · rename_i hm
        split at h
        · rename_i hr
          subst hr
          cases h
          exact .checkFold hp hm.1 hm.2
        · rename_i hr
          cases h
          exact .checkDone hp (fun hall => hr hall.2.2) hno'
      · rename_i hm
        cases h
        exact .checkDone hp (fun hall => hm ⟨hall.1, hall.2.1⟩) hno'
  case h_17 x hp =>
    cases ho : s.completedOk x with
    | true =>
      rw [ho] at h
      cases h
      exact .judgeOk hp ho
    | false =>
      rw [ho] at h
      cases h
      exact .judgeBad hp ho
  case h_18 x hp => cases h; exact .judgeErr hp
  case h_19 b hp =>
    split at h
    · rename_i hf
      cases h
      exact .exchangeLost hp hf
    · rename_i hf
      cases h
      exact .exchangeWon hp (by simpa using hf)
  case h_20 b hp => cases h; exact .storeCode hp
  case h_21 hp => cases h; exact .storeExit hp
  case h_22 x hp =>
    cases ho : s.completedOk x with
    | true =>
      rw [ho] at h
      cases h
      exact .foldOk hp ho
    | false =>
      rw [ho] at h
      cases h
      exact .foldBad hp ho
  case h_23 x hp =>
    cases he : s.hadError x with
    | true =>
      rw [he] at h
      cases h
      exact .foldErr hp he
    | false =>
      rw [he] at h
      cases h
      exact .foldClean hp he
  case h_24 hp => cases h; exact .storeFailure hp
  case h_25 hp => cases h; exact .leave hp
  case h_26 => cases h

/-- Each of them is a step of the thread. -/
theorem Effect.act {cfg : Config} {s s' : State} {c : ℕ} {a : Act} (he : Effect cfg s c a s') :
    s.act cfg c a = some s' := by
  unfold State.act
  cases he with
  | refused h =>
    rcases h with h | h | h
    · rw [h]
      rfl
    · rw [h]
    · rw [h]
  | refusedAuth h hm hc =>
    rw [h]
    exact if_pos ⟨hm, hc⟩
  | refusedJoin h hx =>
    rw [h]
    dsimp only [State.claimStep]
    rw [hx]
  | passAuth h hno =>
    rw [h]
    exact if_neg hno
  | join h hx =>
    rw [h]
    dsimp only [State.claimStep]
    rw [hx]
  | createSync h hx =>
    rw [h]
    exact if_pos hx
  | createCheck h hx =>
    rw [h]
    exact if_pos hx
  | claimNew h hm hc =>
    rw [h]
    simp [hm, hc, State.claimOrMatchOnceTarget]
  | claimMatch h hm hc ht =>
    rw [h]
    simp [hm, hc, ht, State.claimOrMatchOnceTarget]
  | claimRefused h hm hc ht =>
    rw [h]
    simp [hm, hc, ht, State.claimOrMatchOnceTarget]
  | serve h hno =>
    rw [h]
    exact if_neg hno
  | checkTarget h hm hty ht =>
    rw [h]
    simp [hm, hty, ht]
  | checkFold h hm hty =>
    rw [h]
    simp [hm, hty]
  | @checkDone x r h hno hno' =>
    rw [h]
    by_cases hm : cfg.mode = .once ∧ s.typeOf x ≠ .check
    · exact (if_pos hm).trans (if_neg fun hall => hno' ⟨hm.1, hm.2, hall⟩)
    · refine (if_neg hm).trans ?_
      by_cases hm' : cfg.mode = .onceMulti ∧ s.typeOf x ≠ .check
      · exact (if_pos hm').trans (if_neg fun hr => hno ⟨hm'.1, hm'.2, hr⟩)
      · exact if_neg hm'
  | judgeOk h ho => simp only [h, ho, if_true]
  | judgeBad h ho => simp only [h, ho, Bool.false_eq_true, if_false]
  | exchangeLost h hf => simp only [h, hf, if_true]
  | exchangeWon h hf =>
    simp only [h, hf, Bool.false_eq_true, if_false]
    rfl
  | foldOk h ho => simp only [h, ho, if_true]
  | foldBad h ho => simp only [h, ho, Bool.false_eq_true, if_false]
  | foldErr h ho => simp only [h, ho, if_true]
  | foldClean h ho => simp only [h, ho, Bool.false_eq_true, if_false]
  | passCheck h | endClean h | endError h | storeCode h | storeExit h | storeFailure h =>
    rw [h]
    rfl
  | setType h | sendOk h | sendFail h | readType h | close h | sweep h | sweepNone h | judgeErr h | leave h => rw [h]

/-- One step of the main thread, with what it found. -/
inductive MainEffect (cfg : Config) (s : State) : MainAct → State → Prop where
  | accept {c : ℕ} (hm : s.main = .accepting) (hc : s.conns c = .absent) :
      MainEffect cfg s (.accept c) ({ s with accepted := s.accepted ++ [c] }.goto c .handshake)
  | waitSeen (hm : s.main = .accepting) (hmode : cfg.mode.oneShot = true) (hc : 0 < s.createdTotal) :
      MainEffect cfg s .waitSnapshot { s with firstConnSeen := true }
  | waitNone (hm : s.main = .accepting) (hmode : cfg.mode.oneShot = true) (hc : s.createdTotal = 0) :
      MainEffect cfg s .waitSnapshot { s with main := .waiting }
  | waitEarly (hm : s.main = .waiting) (ht : s.now < cfg.waitConnectTimeoutMs) :
      MainEffect cfg s .waitClock { s with main := .accepting }
  | waitLate (hm : s.main = .waiting) (ht : cfg.waitConnectTimeoutMs ≤ s.now) :
      MainEffect cfg s .waitClock { s with main := .overdue s.now }
  | waitDefer {now : ℕ} (hm : s.main = .overdue now) : MainEffect cfg s .waitLoad { s with main := .accepting }
  | waitExpire {now : ℕ} (hm : s.main = .overdue now)
      (ht : ¬ (0 < s.inFlight ∧ now < cfg.waitConnectTimeoutMs + kWaitConnectInFlightGraceMs)) :
      MainEffect cfg s .waitLoad { s with main := .expired }
  | drain (hm : s.main = .expired) :
      MainEffect cfg s .drain { s with main := .draining (s.now + kInFlightDrainTimeoutMs) }
  | drained {deadline : ℕ} (hm : s.main = .draining deadline) (hd : s.inFlight = 0 ∨ deadline ≤ s.now) :
      MainEffect cfg s .drained { s with main := .timedOut }
  | snapshot (hm : s.main = .accepting) (hmode : cfg.mode = .onceMulti) :
      MainEffect cfg s .snapshot { s with main := .snapped s.active.length s.createdTotal }
  | arm {created : ℕ} (hm : s.main = .snapped 0 created) (hc : 0 < created) (hi : s.idleSince = none) :
      MainEffect cfg s .decide { s with main := .accepting, idleSince := some s.now }
  | due {created t : ℕ} (hm : s.main = .snapped 0 created) (hc : 0 < created) (hi : s.idleSince = some t)
      (ht : cfg.graceMs ≤ s.now - t) : MainEffect cfg s .decide { s with main := .firing }
  | wait {created t : ℕ} (hm : s.main = .snapped 0 created) (hc : 0 < created) (hi : s.idleSince = some t)
      (ht : ¬ cfg.graceMs ≤ s.now - t) : MainEffect cfg s .decide { s with main := .accepting }
  | cancel {active created : ℕ} (hm : s.main = .snapped active created) (hc : ¬ (0 < created ∧ active = 0)) :
      MainEffect cfg s .decide { s with main := .accepting, idleSince := none }
  | exchangeLost (hm : s.main = .firing) (hf : s.terminalFired = true) :
      MainEffect cfg s .exchange { s with main := .accepting }
  | exchangeWon (hm : s.main = .firing) (hf : s.terminalFired = false) :
      MainEffect cfg s .exchange { s with main := .loading, terminalFired := true, firedAt := s.firedAt ++ [s.now] }
  | load (hm : s.main = .loading) : MainEffect cfg s .load
      { s with main := .storing s.anyFailure, failedAtVerdict := s.failedAtVerdict ++ [s.someFailed] }
  | publish {failed : Bool} (hm : s.main = .storing failed) : MainEffect cfg s .publish
      { s with
        main := .accepting
        exitCode := if failed then kExitOnceSessionFailed else kExitOk
        shouldExit := true }
  | ret (hm : s.main = .accepting) (hmode : cfg.mode.oneShot = true) (hx : s.shouldExit = true) :
      MainEffect cfg s .ret { s with main := .returned s.exitCode }

/-- **The main thread does nothing else.** -/
theorem mainAct_effect {cfg : Config} {s s' : State} {a : MainAct} (h : s.mainAct cfg a = some s') :
    MainEffect cfg s a s' := by
  cases a with
  | accept c =>
    simp only [State.mainAct] at h
    split at h
    · rename_i hg
      cases h
      exact .accept hg.1 hg.2
    · cases h
  | waitSnapshot =>
    simp only [State.mainAct] at h
    split at h
    · rename_i hg
      split at h
      · rename_i hc
        cases h
        exact .waitSeen hg.1 hg.2.1 hc
      · rename_i hc
        cases h
        exact .waitNone hg.1 hg.2.1 (Nat.eq_zero_of_not_pos hc)
    · cases h
  | waitClock =>
    simp only [State.mainAct] at h
    split at h
    · rename_i hm
      split at h
      · rename_i ht
        cases h
        exact .waitEarly hm ht
      · rename_i ht
        cases h
        exact .waitLate hm (Nat.le_of_not_lt ht)
    · cases h
  | waitLoad =>
    simp only [State.mainAct] at h
    split at h
    · rename_i now hm
      split at h
      · cases h
        exact .waitDefer hm
      · rename_i ht
        cases h
        exact .waitExpire hm ht
    · cases h
  | drain =>
    simp only [State.mainAct] at h
    split at h
    · rename_i hm
      cases h
      exact .drain hm
    · cases h
  | drained =>
    simp only [State.mainAct] at h
    split at h
    · rename_i deadline hm
      split at h
      · rename_i hd
        cases h
        exact .drained hm hd
      · cases h
    · cases h
  | snapshot =>
    simp only [State.mainAct] at h
    split at h
    · rename_i hg
      cases h
      exact .snapshot hg.1 hg.2
    · cases h
  | decide =>
    simp only [State.mainAct] at h
    split at h
    · rename_i active created hm
      split at h
      · rename_i hg
        obtain ⟨hc, rfl⟩ := hg
        split at h
        · rename_i hi
          cases h
          exact .arm hm hc hi
        · rename_i t hi
          split at h
          · rename_i ht
            cases h
            exact .due hm hc hi ht
          · rename_i ht
            cases h
            exact .wait hm hc hi ht
      · rename_i hg
        cases h
        exact .cancel hm hg
    · cases h
  | exchange =>
    simp only [State.mainAct] at h
    split at h
    · rename_i hm
      split at h
      · rename_i hf
        cases h
        exact .exchangeLost hm hf
      · rename_i hf
        cases h
        exact .exchangeWon hm (by simpa using hf)
    · cases h
  | load =>
    simp only [State.mainAct] at h
    split at h
    · rename_i hm
      cases h
      exact .load hm
    · cases h
  | publish =>
    simp only [State.mainAct] at h
    split at h
    · rename_i failed hm
      cases h
      exact .publish hm
    · cases h
  | ret =>
    simp only [State.mainAct] at h
    split at h
    · rename_i hg
      cases h
      exact .ret hg.1 hg.2.1 hg.2.2
    · cases h

theorem machine_of_step {cfg : Config} {s s' : State} {e : Event} (h : step cfg s e = some s') :
    (machine cfg).can s e ∧ (machine cfg).next s e = s' := by
  refine ⟨Option.isSome_iff_exists.2 ⟨s', h⟩, ?_⟩
  show (step cfg s e).getD s = s'
  rw [h]
  rfl

theorem can_over {cfg : Config} {s : State} {e : Event} (hc : (machine cfg).can s e) : s.over = false := by
  have hsome : (step cfg s e).isSome = true := hc
  unfold step at hsome
  split at hsome
  · cases hsome
  · rename_i hno
    exact (Bool.not_eq_true _).mp hno

/-- A step of the machine: a thread's, the main thread's, or time. -/
theorem step_cases {cfg : Config} {s : State} {e : Event} (h : (machine cfg).can s e) :
    (∃ c a, e = .conn c a ∧ Effect cfg s c a ((machine cfg).next s e)) ∨
      (∃ a, e = .main a ∧ MainEffect cfg s a ((machine cfg).next s e)) ∨
      ∃ d, e = .elapse d ∧ (machine cfg).next s e = { s with now := s.now + d } := by
  have hsome : (step cfg s e).isSome = true := h
  obtain ⟨s', hs'⟩ := Option.isSome_iff_exists.1 hsome
  rw [(machine_of_step hs').2]
  unfold step at hs'
  split at hs'
  · cases hs'
  · cases e with
    | conn c a => exact .inl ⟨c, a, rfl, act_effect hs'⟩
    | main a => exact .inr (.inl ⟨a, rfl, mainAct_effect hs'⟩)
    | elapse d =>
      cases hs'
      exact .inr (.inr ⟨d, rfl, rfl⟩)

end FastClone.Sessions
