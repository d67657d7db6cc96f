import FastClone.Lib.Runs
import Mathlib.Data.List.Basic
import Mathlib.Logic.Function.Basic

/-!
# The teardown after a wait-connect timeout (`sync_engine_server.cpp`)

The main thread remembers the socket of the connection it accepted last. When no client has
come in time it interrupts the handshake on that socket (`DrainInFlightHandshakes`): on
Windows it closes the socket and then tells the thread that it has, elsewhere it shuts the
socket down. Every thread closes its own socket at its end, unless it was told.

Handles are numbers that the operating system gives out again once they are closed.
-/

namespace FastClone.Teardown

open Runs

/-! ### State -/

inductive Platform where
  | windows
  | posix
  deriving DecidableEq, Repr

/-- Where the thread of a connection is. -/
inductive Phase where
  | absent
  | running
  /-- In `recv`. -/
  | blocked
  /-- Past `g_inFlightHandshakes.fetch_sub`. -/
  | left
  /-- Has found its socket in `g_heldOpenHandshakeSock`, about to clear it. -/
  | clearing
  | cleared
  /-- Has found its socket in `g_drainedHandshakeSock`: `Release`, and about to clear it. -/
  | releasing
  /-- About to run the destructor of `client`, which closes the socket. -/
  | destroying
  | done
  deriving DecidableEq, Repr

/-- Where the main thread is. -/
inductive Main where
  | accepting
  /-- `EvaluateWaitConnect` has returned true. -/
  | draining
  | loaded (s : Option ℕ)
  /-- Windows: the socket is closed, and not published yet. -/
  | closed (s : ℕ)
  /-- Waiting for the threads. -/
  | waiting
  | returned
  deriving DecidableEq, Repr

structure State where
  conns : ℕ → Phase
  /-- `client.Get()` of a connection. -/
  sock : ℕ → ℕ
  /-- The connection whose socket is open under a handle. -/
  openBy : ℕ → Option ℕ
  /-- The connection's socket was shut down or closed by the drain. -/
  interrupted : ℕ → Bool
  /-- `g_heldOpenHandshakeSock`. -/
  heldOpen : Option ℕ
  /-- `g_drainedHandshakeSock`. -/
  drained : Option ℕ
  inFlight : ℕ
  main : Main
  /-- History: the connections accepted so far. -/
  accepted : List ℕ
  /-- History: every close, by the drain (`none`) or a thread, with the connection whose socket
  it closed (`none` if the handle was not open). -/
  closes : List (Option ℕ × Option ℕ)

def State.start : State where
  conns := fun _ => .absent
  sock := fun _ => 0
  openBy := fun _ => none
  interrupted := fun _ => false
  heldOpen := none
  drained := none
  inFlight := 0
  main := .accepting
  accepted := []
  closes := []

def State.goto (s : State) (c : ℕ) (p : Phase) : State := { s with conns := Function.update s.conns c p }

/-- Whoever has a socket open under this handle is woken up. -/
def State.interrupt (s : State) (h : ℕ) : State :=
  match s.openBy h with
  | some c => { s with interrupted := Function.update s.interrupted c true }
  | none => s

/-- `closesocket` / `close`. -/
def State.closeHandle (s : State) (by' : Option ℕ) (h : ℕ) : State :=
  { s with
    openBy := Function.update s.openBy h none
    closes := s.closes ++ [(by', s.openBy h)] }

/-! ### The threads -/

inductive Act where
  /-- `recv` blocks. -/
  | recv
  /-- `recv` returns: data, an end, or an error after an interruption. -/
  | wake
  /-- The handshake or the session is over, `fetch_sub`. -/
  | leave
  | loadSlot
  | storeSlot
  | loadDrained
  | release
  | destroy
  deriving DecidableEq, Repr

def State.act (s : State) (c : ℕ) (a : Act) : Option State :=
  match s.conns c, a with
  | .running, .recv => if s.interrupted c = false then some (s.goto c .blocked) else none
  | .blocked, .wake => some (s.goto c .running)
  | .running, .leave => some ({ s with inFlight := s.inFlight - 1 }.goto c .left)
  | .left, .loadSlot => some (s.goto c (if s.heldOpen = some (s.sock c) then .clearing else .cleared))
  | .clearing, .storeSlot => some ({ s with heldOpen := none }.goto c .cleared)
  | .cleared, .loadDrained => some (s.goto c (if s.drained = some (s.sock c) then .releasing else .destroying))
  | .releasing, .release => some ({ s with drained := none }.goto c .done)
  | .destroying, .destroy => some ((s.closeHandle (some c) (s.sock c)).goto c .done)
  | _, _ => none

/-! ### The main thread -/

inductive MainAct where
  /-- A connection is accepted under a handle that is free, and its thread started. -/
  | accept (c h : ℕ)
  /-- The deadline is over, and the bounded grace for a handshake in flight too or not. -/
  | timeout (graceOver : Bool)
  /-- `DrainInFlightHandshakes`: load the slot, interrupt, publish, wait. -/
  | load
  | interrupt
  | publish
  | ret (deadlineOver : Bool)
  deriving DecidableEq, Repr

def State.mainAct (p : Platform) (s : State) : MainAct → Option State
  | .accept c h =>
    if s.main = .accepting ∧ s.conns c = .absent ∧ s.openBy h = none then
      some ({ s with
        sock := Function.update s.sock c h
        openBy := Function.update s.openBy h (some c)
        heldOpen := some h
        inFlight := s.inFlight + 1
        accepted := s.accepted ++ [c] }.goto c .running)
    else none
  | .timeout graceOver =>
    if s.main = .accepting ∧ (s.inFlight = 0 ∨ graceOver = true) then some { s with main := .draining } else none
  | .load => if s.main = .draining then some { s with main := .loaded s.heldOpen } else none
  | .interrupt =>
    match s.main with
    | .loaded none => some { s with main := .waiting }
    | .loaded (some h) =>
      match p with
      | .windows => some { (s.interrupt h).closeHandle none h with main := .closed h }
      | .posix => some { s.interrupt h with main := .waiting }
    | _ => none
  | .publish =>
    match s.main with
    | .closed h => some { s with main := .waiting, drained := some h }
    | _ => none
  | .ret deadlineOver =>
    if s.main = .waiting ∧ (s.inFlight = 0 ∨ deadlineOver = true) then some { s with main := .returned } else none

/-! ### The machine -/

inductive Event where
  | conn (c : ℕ) (a : Act)
  | main (a : MainAct)
  deriving DecidableEq, Repr

/-- Nothing happens any more once `RunServer` has returned. -/
def step (p : Platform) (s : State) (e : Event) : Option State :=
  if s.main = .returned then none
  else match e with
    | .conn c a => s.act c a
    | .main a => s.mainAct p a

def machine (p : Platform) : Machine State Event where
  init := .start
  can s e := (step p s e).isSome = true
  next s e := (step p s e).getD s

instance (p : Platform) (s : State) (e : Event) : Decidable ((machine p).can s e) :=
  inferInstanceAs (Decidable ((step p s e).isSome = true))

end FastClone.Teardown
