import FastClone.Lib.Runs
import Mathlib.Data.List.Basic
import Mathlib.Logic.Function.Basic

/-!
# Sessions of the server (`sync_engine_server.cpp`)

Every accepted connection has a thread: it claims a session (a new one with `Auth` or
`CheckAuth`, an existing one with `SessionJoin`), serves it, and then closes, sweeps the
registry and, in the one-shot modes, may decide how the process exits. The main thread
accepts connections; in the one-shot modes it gives up when no session comes in time, and
under `--once-multi` it watches for an idle period.

One step is one access to what the threads share: an atomic variable, or a section under
`mu_` (the registry) or `g_onceMu` (the claim). Time is a clock that other steps leave alone.
-/

namespace FastClone.Sessions

open Runs

/-! ### State -/

inductive Mode where
  | plain
  /-- `--once` (`exitAfterSync`). -/
  | once
  /-- `--once-multi`. -/
  | onceMulti
  deriving DecidableEq, Repr

structure Config where
  mode : Mode
  /-- `onceIdleGraceMs`. -/
  graceMs : ℕ
  waitConnectTimeoutMs : ℕ

inductive SessionType where
  | sync
  | check
  deriving DecidableEq, Repr

/-- A `ServerSession`. -/
structure Session where
  sessionId : ℕ
  /-- By which claim it was made; `type` is set to it later. -/
  made : SessionType
  type : SessionType
  liveConns : ℕ
  lastActivity : ℕ
  completedOk : Bool
  hadError : Bool
  deriving DecidableEq, Repr

/-- Where a connection's thread is. The address of its session is kept as long as it holds
the session. -/
inductive Phase where
  | absent
  /-- Waiting for the hello and the claim. -/
  | handshake
  /-- An `Auth` that may create its session. -/
  | authPassed
  | checkPassed
  /-- A `CheckAuth` whose session is registered and not marked yet. -/
  | created (x : ℕ)
  /-- About to send `AuthOk`. -/
  | sending (x : ℕ)
  /-- The handshake has returned the session. -/
  | resolved (x : ℕ)
  | typed (x : ℕ) (isCheck : Bool)
  /-- In `RunSessionServer`. -/
  | serving (x : ℕ) (isCheck : Bool)
  /-- Out of it (or refused), about to close. -/
  | ended (x : ℕ)
  | closed (x remaining : ℕ)
  | swept (x remaining : ℕ)
  /-- The handshake threw; there is no session to close. -/
  | unresolved
  /-- `--once`: the last lane of the target, about to read its flags. -/
  | judging (x : ℕ)
  | judgedOk (x : ℕ)
  /-- About to call `FireOnceTerminal`. -/
  | firing (success : Bool)
  | publishing (success : Bool)
  | published
  /-- `--once-multi`: the last lane of a session, about to read its flags. -/
  | folding (x : ℕ)
  | foldOk (x : ℕ)
  | failing
  | leaving
  | gone
  deriving DecidableEq, Repr

/-- Where the main thread is in an evaluation of the first-connect wait or of the idle grace. -/
inductive Main where
  | accepting
  /-- `EvaluateWaitConnect` has found no session. -/
  | waiting
  /-- It has read a clock past the deadline. -/
  | overdue (now : ℕ)
  /-- It has returned true. -/
  | expired
  /-- In the loop of `DrainInFlightHandshakes`. -/
  | draining (deadline : ℕ)
  /-- `RunServer` has returned `kExitWaitConnectTimeout`. -/
  | timedOut
  | snapped (activeRealSessions createdTotal : ℕ)
  | firing
  | loading
  | storing (failed : Bool)
  | returned (code : ℕ)
  deriving DecidableEq, Repr

def kExitOk : ℕ := 0
def kExitOnceSessionFailed : ℕ := 5
def kExitWaitConnectTimeout : ℕ := 6
def kSessionIdleTtl : ℕ := 60000
def kWaitConnectInFlightGraceMs : ℕ := 1000
def kInFlightDrainTimeoutMs : ℕ := 2000

/-- What the threads share, with the history that the properties are about. -/
structure State where
  now : ℕ
  conns : ℕ → Phase
  sessions : ℕ → Option Session
  byId : List (ℕ × ℕ)
  createdTotal : ℕ
  targetClaimed : Bool
  target : Option ℕ
  terminalFired : Bool
  exitCode : ℕ
  shouldExit : Bool
  anyFailure : Bool
  main : Main
  firstConnSeen : Bool
  idleSince : Option ℕ
  /-- History: the connections accepted so far. -/
  accepted : List ℕ
  /-- History: the sessions passed to `RunSessionServer` as Sync sessions. -/
  served : List ℕ
  /-- History: lanes that ended, with their sessions. -/
  cleanEnds : List (ℕ × ℕ)
  errorEnds : List (ℕ × ℕ)
  /-- History: how often each connection was counted in a session, and taken off again. -/
  opens : ℕ → ℕ
  closes : ℕ → ℕ
  /-- History: sessions whose count a close brought to 0. -/
  emptied : List ℕ
  /-- History: the verdicts that fired, with what had ended cleanly and with an error then. -/
  fired : List (Bool × Bool)
  /-- History: the times at which the idle verdict fired. -/
  firedAt : List ℕ
  /-- History: whether a Sync session had failed when the idle verdict was read. -/
  failedAtVerdict : List Bool

def State.start : State where
  now := 0
  conns := fun _ => .absent
  sessions := fun _ => none
  byId := []
  createdTotal := 0
  targetClaimed := false
  target := none
  terminalFired := false
  exitCode := kExitOk
  shouldExit := false
  anyFailure := false
  main := .accepting
  firstConnSeen := false
  idleSince := none
  accepted := []
  served := []
  cleanEnds := []
  errorEnds := []
  opens := fun _ => 0
  closes := fun _ => 0
  emptied := []
  fired := []
  firedAt := []
  failedAtVerdict := []

/-! ### The registry -/

/-- `Join`: look a session up. -/
def State.find (s : State) (id : ℕ) : Option ℕ := s.byId.lookup id

/-- Change a session, if it is there. -/
def State.change (s : State) (x : ℕ) (f : Session → Session) : State :=
  { s with sessions := Function.update s.sessions x ((s.sessions x).map f) }

/-- `CreateSession` for the connection `c`, at the address `x` and with the token `id`;
`emplace` keeps an older entry. -/
def State.createSession (s : State) (c x id : ℕ) (made : SessionType) : State :=
  { s with
    opens := Function.update s.opens c (s.opens c + 1)
    sessions := Function.update s.sessions x (some
      { sessionId := id, made, type := .sync, liveConns := 1, lastActivity := s.now,
        completedOk := false, hadError := false })
    byId := if s.find id = none then s.byId ++ [(id, x)] else s.byId
    createdTotal := s.createdTotal + 1 }

/-- `Join` of the connection `c` on the session at `x`. -/
def State.joinSession (s : State) (c x : ℕ) : State :=
  let s' := s.change x fun v => { v with liveConns := v.liveConns + 1, lastActivity := s.now }
  { s' with opens := Function.update s.opens c (s.opens c + 1) }

def State.liveConns (s : State) (x : ℕ) : ℕ := ((s.sessions x).map Session.liveConns).getD 0

/-- `OnConnectionClosed` for the connection `c`: a count of 0 is left alone. -/
def State.onConnectionClosed (s : State) (c x : ℕ) : State :=
  let s' := s.change x fun v => { v with liveConns := v.liveConns - 1, lastActivity := s.now }
  { s' with
    closes := Function.update s.closes c (s.closes c + 1)
    emptied := if s.liveConns x - 1 = 0 then s.emptied ++ [x] else s.emptied }

/-- Idle longer than the TTL. -/
def State.expired (s : State) (x : ℕ) : Bool :=
  match s.sessions x with
  | some v => v.liveConns == 0 && decide (s.now - v.lastActivity > kSessionIdleTtl)
  | none => false

/-- `SweepExpired`. -/
def State.sweepExpired (s : State) : State := { s with byId := s.byId.filter fun e => !s.expired e.2 }

/-- The registered sessions that hold a live lane. -/
def State.active (s : State) : List (ℕ × ℕ) := s.byId.filter fun e => decide (0 < s.liveConns e.2)

def State.typeOf (s : State) (x : ℕ) : SessionType := ((s.sessions x).map Session.type).getD .sync

def State.completedOk (s : State) (x : ℕ) : Bool := ((s.sessions x).map Session.completedOk).getD false

def State.hadError (s : State) (x : ℕ) : Bool := ((s.sessions x).map Session.hadError).getD false

/-! ### Connection threads -/

inductive Act where
  /-- `Auth` with a password that passes; under `--once` the claim flag is read. -/
  | claimAuth
  | claimCheck
  | claimJoin (id : ℕ)
  /-- The handshake throws before it has a session. -/
  | refuse
  /-- `CreateSession`: the address and the token it gets. -/
  | create (x id : ℕ)
  | setType
  | sendOk
  | sendFail
  | readType
  | claim
  | endClean
  | endError
  | close
  | sweep
  | check
  | readOk
  | readErr
  | exchange
  | storeCode
  | storeExit
  | storeFailure
  | leave
  deriving DecidableEq, Repr

def State.goto (s : State) (c : ℕ) (p : Phase) : State := { s with conns := Function.update s.conns c p }

def Mode.oneShot : Mode → Bool
  | .plain => false
  | .once => true
  | .onceMulti => true

/-- The claim of `HandshakeAndResolveSession`. -/
def State.claimStep (cfg : Config) (s : State) (c : ℕ) : Act → Option State
  | .claimAuth =>
    if cfg.mode = .once ∧ s.targetClaimed = true then some (s.goto c .unresolved)
    else some (s.goto c .authPassed)
  | .claimCheck => some (s.goto c .checkPassed)
  | .claimJoin id =>
    match s.find id with
    | some x => some ((s.joinSession c x).goto c (.sending x))
    | none => some (s.goto c .unresolved)
  | .refuse => some (s.goto c .unresolved)
  | _ => none

/-- `ClaimOrMatchOnceTarget`: what it leaves and whether the session may be served. -/
def State.claimOrMatchOnceTarget (s : State) (x : ℕ) : State × Bool :=
  if s.targetClaimed = false then ({ s with target := some x, targetClaimed := true }, true)
  else (s, decide (s.target = some x))

def State.serve (s : State) (c x : ℕ) (isCheck : Bool) : State :=
  let s' := s.goto c (.serving x isCheck)
  { s' with served := if isCheck then s.served else s.served ++ [x] }

/-- One step of the thread of connection `c`; `none` if it is not there. -/
def State.act (cfg : Config) (s : State) (c : ℕ) (a : Act) : Option State :=
  match s.conns c, a with
  | .handshake, a => s.claimStep cfg c a
  | .authPassed, .create x id =>
    if s.sessions x = none then some ((s.createSession c x id .sync).goto c (.sending x)) else none
  | .authPassed, .refuse => some (s.goto c .unresolved)
  | .checkPassed, .create x id =>
    if s.sessions x = none then some ((s.createSession c x id .check).goto c (.created x)) else none
  | .checkPassed, .refuse => some (s.goto c .unresolved)
  | .created x, .setType => some ((s.change x fun v => { v with type := .check }).goto c (.sending x))
  | .sending x, .sendOk => some (s.goto c (.resolved x))
  | .sending x, .sendFail => some ((s.onConnectionClosed c x).goto c .unresolved)
  | .resolved x, .readType => some (s.goto c (.typed x (decide (s.typeOf x = .check))))
  | .typed x isCheck, .claim =>
    if cfg.mode = .once ∧ isCheck = false then
      let r := s.claimOrMatchOnceTarget x
      if r.2 then some (r.1.serve c x isCheck) else some (r.1.goto c (.ended x))
    else some (s.serve c x isCheck)
  | .serving x isCheck, .endClean =>
    let s' := if isCheck = false ∧ cfg.mode.oneShot then s.change x fun v => { v with completedOk := true } else s
    some ({ s' with cleanEnds := s.cleanEnds ++ [(c, x)] }.goto c (.ended x))
  | .serving x _, .endError =>
    let s' := if cfg.mode.oneShot ∧ s.typeOf x ≠ .check then s.change x fun v => { v with hadError := true } else s
    some ({ s' with errorEnds := s.errorEnds ++ [(c, x)] }.goto c (.ended x))
  | .ended x, .close => some ((s.onConnectionClosed c x).goto c (.closed x (s.liveConns x - 1)))
  | .closed x remaining, .sweep => some (s.sweepExpired.goto c (.swept x remaining))
  | .unresolved, .sweep => some (s.sweepExpired.goto c .leaving)
  | .swept x remaining, .check =>
    if cfg.mode = .once ∧ s.typeOf x ≠ .check then
      if s.target = some x ∧ remaining = 0 then some (s.goto c (.judging x)) else some (s.goto c .leaving)
    else if cfg.mode = .onceMulti ∧ s.typeOf x ≠ .check then
      if remaining = 0 then some (s.goto c (.folding x)) else some (s.goto c .leaving)
    else some (s.goto c .leaving)
  | .judging x, .readOk => some (s.goto c (if s.completedOk x then .judgedOk x else .firing false))
  | .judgedOk x, .readErr => some (s.goto c (.firing (!s.hadError x)))
  | .firing success, .exchange =>
    if s.terminalFired then some (s.goto c .leaving)
    else
      let s' := s.goto c (.publishing success)
      some { s' with
        terminalFired := true
        fired := s.fired ++ [(decide (∃ e ∈ s.cleanEnds, some e.2 = s.target),
          decide (∃ e ∈ s.errorEnds, some e.2 = s.target))] }
  | .publishing success, .storeCode =>
    let s' := s.goto c .published
    some { s' with exitCode := if success then kExitOk else kExitOnceSessionFailed }
  | .published, .storeExit =>
    let s' := s.goto c .leaving
    some { s' with shouldExit := true }
  | .folding x, .readOk => some (s.goto c (if s.completedOk x then .foldOk x else .failing))
  | .foldOk x, .readErr => some (s.goto c (if s.hadError x then .failing else .leaving))
  | .failing, .storeFailure =>
    let s' := s.goto c .leaving
    some { s' with anyFailure := true }
  | .leaving, .leave => some (s.goto c .gone)
  | _, _ => none

/-! ### The main thread -/

inductive MainAct where
  /-- A connection is accepted and its thread started. -/
  | accept (c : ℕ)
  /-- `EvaluateWaitConnect`: the snapshot, the clock, and the handshakes in flight. -/
  | waitSnapshot
  | waitClock
  | waitLoad
  /-- `DrainInFlightHandshakes` interrupts a handshake, which fails like any other, and waits. -/
  | drain
  | drained
  /-- `EvaluateIdleGrace`: the snapshot, and then what follows from it. -/
  | snapshot
  | decide
  /-- `FireOnceMultiTerminal`. -/
  | exchange
  | load
  | publish
  /-- `RunServer` returns the recorded code. -/
  | ret
  deriving DecidableEq, Repr

/-- Some Sync session whose last lane has closed did not end cleanly. -/
def State.someFailed (s : State) : Bool :=
  s.emptied.any fun x => (s.sessions x).any fun v =>
    decide (v.made = .sync) && v.liveConns == 0 && !(v.completedOk && !v.hadError)

/-- `g_inFlightHandshakes`: the connections whose threads have not come to their end. -/
def State.inFlight (s : State) : ℕ := s.accepted.countP fun c => decide (s.conns c ≠ .gone)

def State.mainAct (cfg : Config) (s : State) : MainAct → Option State
  | .accept c =>
    if s.main = .accepting ∧ s.conns c = .absent then
      let s' := s.goto c .handshake
      some { s' with accepted := s.accepted ++ [c] }
    else none
  | .waitSnapshot =>
    if s.main = .accepting ∧ cfg.mode.oneShot = true ∧ s.firstConnSeen = false then
      if 0 < s.createdTotal then some { s with firstConnSeen := true } else some { s with main := .waiting }
    else none
  | .waitClock =>
    match s.main with
    | .waiting =>
      if s.now < cfg.waitConnectTimeoutMs then some { s with main := .accepting }
      else some { s with main := .overdue s.now }
    | _ => none
  | .waitLoad =>
    match s.main with
    | .overdue now =>
      if 0 < s.inFlight ∧ now < cfg.waitConnectTimeoutMs + kWaitConnectInFlightGraceMs then
        some { s with main := .accepting }
      else some { s with main := .expired }
    | _ => none
  | .drain =>
    match s.main with
    | .expired => some { s with main := .draining (s.now + kInFlightDrainTimeoutMs) }
    | _ => none
  | .drained =>
    match s.main with
    | .draining deadline =>
      if s.inFlight = 0 ∨ deadline ≤ s.now then some { s with main := .timedOut } else none
    | _ => none
  | .snapshot =>
    if s.main = .accepting ∧ cfg.mode = .onceMulti then
      some { s with main := .snapped s.active.length s.createdTotal }
    else none
  | .decide =>
    match s.main with
    | .snapped active created =>
      if 0 < created ∧ active = 0 then
        match s.idleSince with
        | none => some { s with main := .accepting, idleSince := some s.now }
        | some t => if cfg.graceMs ≤ s.now - t then some { s with main := .firing } else some { s with main := .accepting }
      else some { s with main := .accepting, idleSince := none }
    | _ => none
  | .exchange =>
    match s.main with
    | .firing =>
      if s.terminalFired then some { s with main := .accepting }
      else some { s with main := .loading, terminalFired := true, firedAt := s.firedAt ++ [s.now] }
    | _ => none
  | .load =>
    match s.main with
    | .loading =>
      some { s with main := .storing s.anyFailure, failedAtVerdict := s.failedAtVerdict ++ [s.someFailed] }
    | _ => none
  | .publish =>
    match s.main with
    | .storing failed =>
      some { s with
        main := .accepting
        exitCode := if failed then kExitOnceSessionFailed else kExitOk
        shouldExit := true }
    | _ => none
  | .ret =>
    if s.main = .accepting ∧ cfg.mode.oneShot = true ∧ s.shouldExit = true then
      some { s with main := .returned s.exitCode }
    else none

/-! ### The machine -/

inductive Event where
  | conn (c : ℕ) (a : Act)
  | main (a : MainAct)
  /-- Time passes. -/
  | elapse (d : ℕ)
  deriving DecidableEq, Repr

/-- Nothing happens any more once `RunServer` has returned. -/
def State.over (s : State) : Bool :=
  match s.main with
  | .returned _ | .timedOut => true
  | _ => false

/-- The code that `RunServer` has returned. -/
def State.exitStatus (s : State) : Option ℕ :=
  match s.main with
  | .returned code => some code
  | .timedOut => some kExitWaitConnectTimeout
  | _ => none

def step (cfg : Config) (s : State) (e : Event) : Option State :=
  if s.over then none
  else match e with
    | .conn c a => s.act cfg c a
    | .main a => s.mainAct cfg a
    | .elapse d => some { s with now := s.now + d }

def machine (cfg : Config) : Machine State Event where
  init := .start
  can s e := (step cfg s e).isSome = true
  next s e := (step cfg s e).getD s

instance (cfg : Config) (s : State) (e : Event) : Decidable ((machine cfg).can s e) :=
  inferInstanceAs (Decidable ((step cfg s e).isSome = true))

end FastClone.Sessions
