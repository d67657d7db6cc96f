import FastClone.Spec.DiskIo

/-!
# The counters of the disk driver

`Driver` has what the driver decides with; here are the counters it reports. They change in sections
of their own under `countMu_`: `submit` counts what it has queued after it has let `qmu_` go, the
scheduler counts what it has reaped after it has freed the slots, and `requestCancel` what it has
flushed when it has delivered it all. Between these sections each thread keeps its part by itself.
-/

namespace FastClone.DiskIo

/-- The part of `IoCounters` that the driver changes itself. -/
structure IoCounters where
  queued : ℕ := 0
  submitted : ℕ := 0
  completed : ℕ := 0
  cancelled : ℕ := 0
  failed : ℕ := 0
  readSubmitted : ℕ := 0
  writeSubmitted : ℕ := 0
  bytesRead : ℕ := 0
  bytesWritten : ℕ := 0
  deriving DecidableEq

/-- The local counts of one turn of `SchedulerLoop`. -/
structure Tally where
  completed : ℕ := 0
  failed : ℕ := 0
  cancelled : ℕ := 0
  bytesRead : ℕ := 0
  bytesWritten : ℕ := 0
  deriving DecidableEq

/-- One completion of the loop over `comps`. -/
def Tally.add (t : Tally) (c : IoCompletion) : Tally :=
  match c.status with
  | .error => { t with failed := t.failed + 1 }
  | .cancelled => { t with cancelled := t.cancelled + 1 }
  | .ok | .eof =>
    match c.kind with
    | .read => { t with completed := t.completed + 1, bytesRead := t.bytesRead + c.transferred }
    | .write => { t with completed := t.completed + 1, bytesWritten := t.bytesWritten + c.transferred }

/-- The section under `countMu_` at the end of the turn. -/
def IoCounters.merge (c : IoCounters) (t : Tally) : IoCounters :=
  { c with
    completed := c.completed + t.completed
    failed := c.failed + t.failed
    cancelled := c.cancelled + t.cancelled
    bytesRead := c.bytesRead + t.bytesRead
    bytesWritten := c.bytesWritten + t.bytesWritten }

/-- What the scheduler has reaped and not counted: nothing, while it delivers, and between its
sections under `qmu_` and `countMu_`. -/
inductive Reaping where
  | idle
  | delivering (t : Tally)
  | counting (t : Tally)

def Reaping.isIdle : Reaping → Bool
  | .idle => true
  | _ => false

def Reaping.isCounting : Reaping → Bool
  | .counting _ => true
  | _ => false

structure Counted where
  driver : Driver
  counters : IoCounters := {}
  /-- The calls of `submit` between their two sections, with what they have accepted. -/
  submitting : List ℕ := []
  reaping : Reaping := .idle
  /-- What the call of `requestCancel` that has the queues has delivered. -/
  flushed : Option ℕ := none
  /-- How many operations the backend has refused. -/
  refused : ℕ := 0

namespace Counted

/-- `submit` has accepted `n`. -/
def noteAccepted (s : Counted) (n : ℕ) : Counted :=
  if n = 0 then s else { s with submitting := s.submitting ++ [n] }

/-- The section of `submit` under `countMu_`. -/
def countQueued (s : Counted) (n : ℕ) : Counted :=
  { s with
    submitting := s.submitting.erase n
    counters := { s.counters with queued := s.counters.queued + n } }

/-- The section of `PickAndSubmit` under `countMu_`. -/
def countSubmitted (s : Counted) (isRead : Bool) : Counted :=
  let c := { s.counters with submitted := s.counters.submitted + 1 }
  { s with
    counters :=
      if isRead then { c with readSubmitted := c.readSubmitted + 1 }
      else { c with writeSubmitted := c.writeSubmitted + 1 } }

/-- A completion on its way: the scheduler sorts those it has reaped, `requestCancel` counts its own. -/
def noteDelivered (s : Counted) (who : Caller) (d : Option Done) : Counted :=
  match who, d with
  | .scheduler, some d =>
    match s.reaping with
    | .delivering t => { s with reaping := .delivering (t.add d.completion) }
    | _ => s
  | .canceller, some _ => { s with flushed := s.flushed.map (· + 1) }
  | _, none => s

/-- The scheduler has freed the slots of what it reaped. -/
def noteFinished (s : Counted) : Counted :=
  match s.reaping with
  | .delivering t => { s with reaping := .counting t }
  | _ => s

/-- The section of the scheduler under `countMu_`. -/
def countReaped (s : Counted) : Counted :=
  match s.reaping with
  | .counting t => { s with reaping := .idle, counters := s.counters.merge t }
  | _ => s

/-- The section of `requestCancel` under `countMu_`. -/
def countFlushed (s : Counted) : Counted :=
  match s.flushed with
  | some n =>
    { s with flushed := none, counters := { s.counters with cancelled := s.counters.cancelled + n } }
  | none => s

end Counted

inductive CountedEvent where
  | driver (e : Event)
  | countQueued (n : ℕ)
  | countReaped
  | countFlushed

namespace CountedEvent

/-- The scheduler counts one turn before the next, and a call of `requestCancel` when it has delivered. -/
def Can (cfg : IoDriverConfig) (s : Counted) : CountedEvent → Prop
  | driver e =>
    e.Can cfg s.driver ∧
      match e with
      | .pick | .backendSubmit _ | .reap _ _ => s.reaping.isIdle
      | .enqueuePush .scheduler _ | .finish => s.reaping.isCounting = false
      | _ => True
  | countQueued n => n ∈ s.submitting
  | countReaped => s.reaping.isCounting
  | countFlushed =>
    s.flushed.isSome ∧ s.driver.flush = [] ∧ s.driver.enqueuing.map Enqueue.who ≠ some .canceller

instance (cfg : IoDriverConfig) (s : Counted) : (e : CountedEvent) → Decidable (Can cfg s e)
  | driver e =>
    match e with
    | .pick | .backendSubmit _ | .reap _ _ => inferInstanceAs (Decidable (_ ∧ _ = true))
    | .enqueuePush .scheduler _ | .finish => inferInstanceAs (Decidable (_ ∧ _ = false))
    | .submit _ | .enqueuePush .canceller _ | .enqueueSettle | .enqueueEnd | .drainCompletions
    | .drainCompletionsForFile _ | .requestCancel | .releaseFile _ | .releaseNow _ =>
      inferInstanceAs (Decidable (_ ∧ True))
  | countQueued _ => inferInstanceAs (Decidable (_ ∈ _))
  | countReaped => inferInstanceAs (Decidable (_ = true))
  | countFlushed => inferInstanceAs (Decidable (_ ∧ _ ∧ _))

def exec (cfg : IoDriverConfig) (s : Counted) : CountedEvent → Counted
  | driver e =>
    let t := { s with driver := e.exec cfg s.driver }
    match e with
    | .submit _ => t.noteAccepted (t.driver.accepted.length - s.driver.accepted.length)
    | .pick => t.countSubmitted (s.driver.renewCredit cfg).isRead
    | .backendSubmit ok => if ok then t else { t with refused := t.refused + 1 }
    | .reap _ _ => { t with reaping := .delivering {} }
    | .enqueuePush who _ => t.noteDelivered who (s.driver.nextDone who)
    | .finish => t.noteFinished
    | .requestCancel => if s.driver.cancelled then t else { t with flushed := some 0 }
    | _ => t
  | countQueued n => s.countQueued n
  | countReaped => s.countReaped
  | countFlushed => s.countFlushed

/-- The backend accepts what it is given. -/
def Accepts : CountedEvent → Prop
  | driver (.backendSubmit ok) => ok = true
  | _ => True

instance : (e : CountedEvent) → Decidable e.Accepts
  | driver (.backendSubmit ok) => inferInstanceAs (Decidable (ok = true))
  | driver (.submit _) | driver .pick | driver (.reap _ _) | driver .finish | driver (.enqueuePush _ _)
  | driver .enqueueSettle | driver .enqueueEnd | driver .drainCompletions
  | driver (.drainCompletionsForFile _) | driver .requestCancel | driver (.releaseFile _)
  | driver (.releaseNow _) | countQueued _ | countReaped | countFlushed => .isTrue trivial

end CountedEvent

def countedMachine (cfg : IoDriverConfig) : Runs.Machine Counted CountedEvent where
  init := { driver := .init cfg }
  can := CountedEvent.Can cfg
  next := CountedEvent.exec cfg

instance (cfg : IoDriverConfig) (s : Counted) (e : CountedEvent) : Decidable ((countedMachine cfg).can s e) :=
  inferInstanceAs (Decidable (CountedEvent.Can cfg s e))

namespace Counted

/-- No operation is queued or in flight, the scheduler is at the top of its loop, and no other thread is
inside a call of the driver. -/
structure AtRest (s : Counted) : Prop where
  readQ : s.driver.readQ = []
  writeQ : s.driver.writeQ = []
  inFlight : s.driver.inFlight = 0
  scheduler : s.driver.scheduler.atTop = true
  reaping : s.reaping.isIdle = true
  submitting : s.submitting = []
  flushed : s.flushed = none
  enqueuing : s.driver.enqueuing = none
  releasing : s.driver.releasing = []

/-- What was queued has ended. -/
def Balanced (s : Counted) : Prop :=
  s.counters.queued = s.counters.completed + s.counters.failed + s.counters.cancelled

end Counted

end FastClone.DiskIo
