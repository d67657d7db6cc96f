import FastClone.Lib.Runs
import FastClone.Spec.DeltaSigner
import Mathlib.Data.Int.Notation

/-!
# Hash and signature requests on the server

A session's receive loop reads the fingerprint of the file a request names, first the size and
then the time of the last write, and looks the answer up in a process-wide cache. On a miss it
counts a pending job and puts it into the pool; a worker reads the file, computes the answer,
reads the fingerprint again, stores the answer in the cache and sends it. The teardown of a
session waits for its pending jobs.

One step is one lock section or one access to the file system, so the runs of `machine` are
the interleavings of all sessions, all workers and the changes of the files. The queries ahead
of a size decide nothing but that it is read, and are one step with it. A path goes
through states: a regular file with its content, or nothing that can be served. Steps carry
what the file system answers; the numbers of requests and the indices into the states of a
path are read by no decision.
-/

namespace FastClone.ServerHash

open Delta

/-! ### Files -/

structure HashFingerprint where
  fileSize : ℕ
  mtimeNs : ℤ
  deriving DecidableEq

/-- A regular file at one time. -/
structure Version where
  mtimeNs : ℤ
  content : Bytes
  size_lt : content.length < 2 ^ 64

def Version.fingerprint (v : Version) : HashFingerprint := ⟨v.content.length, v.mtimeNs⟩

/-- The states of a path, oldest first; `none` where there is no regular file. -/
abbrev History := List (Option Version)

/-- The state it is in. -/
def History.current (h : History) : Option Version := h.getLast?.join

/-- `TryReadHashFingerprint` up to the size; `ok` is false when one of its queries fails. -/
def History.fileSize (h : History) (ok : Bool) : Option ℕ :=
  if ok then h.current.map fun v => v.content.length else none

/-- `last_write_time` may answer the time of the file or an error, and any time for what is not a
regular file. -/
def History.mayAnswer (h : History) (mtimeNs : Option ℤ) : Bool :=
  match h.current, mtimeNs with
  | some v, some m => decide (m = v.mtimeNs)
  | _, _ => true

/-! ### Answers -/

inductive Kind where
  | hash
  | blockSig
  deriving DecidableEq

/-- What a job computes. -/
inductive Value where
  | hash (hash : Strong)
  | blockSig (res : StreamingResult)

/-- `kServerSigChunkBytes`. -/
def kServerSigChunkBytes : ℕ := 2 ^ 20

/-- `kSmallFileDirectThreshold`, also the read buffer of `ComputeHashFromSource`. -/
def kSmallFileDirectThreshold : ℕ := 256 * 1024

/-- Consecutive pieces of at most `n` bytes. -/
def pieces (n : ℕ) : ℕ → Bytes → List Bytes
  | 0, _ => []
  | fuel + 1, bytes => if bytes = [] then [] else bytes.take n :: pieces n fuel (bytes.drop n)

/-- `ComputeFileHashViaDriver` on the bytes it has read. -/
def computeFileHash (X : Xxh3) (bytes : Bytes) : Strong :=
  if bytes.length ≤ kSmallFileDirectThreshold then X.computeBufferHash bytes
  else X.raw (X.stream.digest
    ((pieces kSmallFileDirectThreshold bytes.length bytes).foldl X.stream.update X.stream.reset))

/-- The signing loop of the job on the bytes it has read. -/
def signFile (X : Xxh3) (bytes : Bytes) : Option StreamingResult :=
  ((StreamingSigner.init X bytes.length).feed (pieces kServerSigChunkBytes bytes.length bytes)).bind
    fun signer => signer.finish.toOption

/-- What the two jobs compute; `none` when it throws. -/
def Kind.compute (X : Xxh3) (bytes : Bytes) : Kind → Option Value
  | .hash => some (.hash (computeFileHash X bytes))
  | .blockSig => (signFile X bytes).map Value.blockSig

variable {P : Type}

inductive Answer (P : Type) where
  | hashResponse (rel : P) (hash : Strong)
  | blockSigResponse (rel : P) (res : StreamingResult)
  | deltaError (rel : P)

/-- `hash.fill(0xFF)`. -/
def failedHash : Strong := Vector.replicate 16 0xFF

/-- The answer a job sends; `none` is a failure. -/
def Kind.answer (rel : P) : Kind → Option Value → Answer P
  | .hash, some (.hash h) => .hashResponse rel h
  | .hash, _ => .hashResponse rel failedHash
  | .blockSig, some (.blockSig res) => .blockSigResponse rel res
  | .blockSig, _ => .deltaError rel

def Answer.kind : Answer P → Kind
  | .hashResponse _ _ => .hash
  | .blockSigResponse _ _ | .deltaError _ => .blockSig

def Answer.rel : Answer P → P
  | .hashResponse rel _ | .blockSigResponse rel _ | .deltaError rel => rel

/-! ### The caches -/

/-- `ServerHashMemCache` and `BlockSigMemCache`, which differ in the values alone. -/
structure MemCache (P V : Type) where
  enabled : Bool
  cache : P → Option (HashFingerprint × V) := fun _ => none

namespace MemCache

variable {V : Type} [DecidableEq P]

/-- `TryGet`; an entry with another fingerprint is erased. -/
def tryGet (c : MemCache P V) (rel : P) (fp : HashFingerprint) : MemCache P V × Option V :=
  if c.enabled then
    match c.cache rel with
    | none => (c, none)
    | some (fp', v) =>
      if fp' = fp then (c, some v) else ({ c with cache := Function.update c.cache rel none }, none)
  else (c, none)

/-- `Upsert`. -/
def upsert (c : MemCache P V) (rel : P) (fp : HashFingerprint) (v : V) : MemCache P V :=
  if c.enabled then { c with cache := Function.update c.cache rel (some (fp, v)) } else c

end MemCache

/-! ### Jobs and sessions -/

/-- A request on its way: what the job's closure captures, the number of the request in its
session, and the index of the state of the path at the end of `TryReadHashFingerprint`. -/
structure Job (P : Type) where
  session : ℕ
  request : ℕ
  kind : Kind
  rel : P
  fingerprint : Option HashFingerprint
  since : ℕ

/-- Where a job stands. `start` is the index of the state of the path when its size was asked. -/
inductive Phase where
  | started
  | reading (start : ℕ) (got : List (Option UInt8))
  | computed (start : ℕ) (value : Value)
  /-- The size of the second fingerprint is read. -/
  | resized (start : ℕ) (value : Value) (fileSize : ℕ)
  | caching (fp : HashFingerprint) (value : Value)
  | answering (value : Option Value)
  /-- `done` was not set. -/
  | cleared (value : Option Value)
  | ending

/-- Where the receive loop stands. -/
inductive Recv (P : Type) where
  | idle
  /-- The size of the first fingerprint is read. -/
  | dating (job : Job P) (fileSize : ℕ)
  | looking (job : Job P)
  | hit (job : Job P) (value : Value)
  | missed (job : Job P)
  /-- The job is counted and about to enter the pool. -/
  | counted (job : Job P)
  /-- The pool has refused the job. -/
  | refused (job : Job P)
  | dead

def Recv.isIdle : Recv P → Bool
  | .idle => true
  | _ => false

def Recv.isDead : Recv P → Bool
  | .dead => true
  | _ => false

/-- The request the receive loop works on. -/
def Recv.job : Recv P → Option (Job P)
  | .dating job _ | .looking job | .hit job _ | .missed job | .counted job | .refused job => some job
  | .idle | .dead => none

structure Session (P : Type) where
  /-- `sessionType == SessionType::Check`. -/
  check : Bool
  done : Bool := false
  recv : Recv P := .idle
  sessionPendingHashJobs : ℕ := 0
  /-- The answers in `outboundHigh`, with the numbers of their requests. -/
  outboundHigh : List (ℕ × Answer P) := []
  sent : List (ℕ × Answer P) := []
  /-- The requests received. -/
  received : List (Kind × P) := []
  /-- Those given up because the session is done. -/
  dropped : List ℕ := []
  /-- Those a check session passes over. -/
  ignored : List ℕ := []
  /-- The drain has returned; true when it has timed out. -/
  drained : Option Bool := none

structure State (P : Type) where
  history : P → History
  caches : Kind → MemCache P Value
  sessions : List (Session P)
  /-- `tasks_` of the pool. -/
  tasks : List (Job P) := []
  /-- The jobs the workers run. -/
  running : List (Job P × Phase) := []
  /-- The answers taken from a cache. -/
  hits : List (Job P × Value) := []

structure Config where
  X : Xxh3
  workers : ℕ
  /-- `Configure` refuses 0. -/
  workers_pos : 0 < workers

namespace Session

/-- `enqueueHigh`. -/
def enqueueHigh (t : Session P) (request : ℕ) (a : Answer P) : Session P :=
  { t with outboundHigh := t.outboundHigh ++ [(request, a)] }

/-- `if (sessionPendingHashJobs > 0) --sessionPendingHashJobs`. -/
def uncount (t : Session P) : Session P :=
  { t with sessionPendingHashJobs := t.sessionPendingHashJobs - 1 }

def drop (t : Session P) (request : ℕ) : Session P := { t with dropped := t.dropped ++ [request] }

/-- `done.store(true)`. -/
def finish (t : Session P) : Session P := { t with done := true }

end Session

namespace State

/-- Change one session. -/
def onSession (s : State P) (sid : ℕ) (f : Session P → Session P) : State P :=
  { s with sessions := s.sessions.modify sid f }

/-- A job goes to another phase. -/
def setPhase (s : State P) (i : ℕ) (job : Job P) (phase : Phase) : State P :=
  { s with running := s.running.set i (job, phase) }

/-- The session of a job is done. -/
def isDone (s : State P) (sid : ℕ) : Bool := (s.sessions[sid]?).any Session.done

/-! #### The receive loop -/

/-- A request arrives and the size of its file is read. A check session passes over signature
requests. -/
def receive (s : State P) (sid : ℕ) (kind : Kind) (rel : P) (sizeOk : Bool) : State P :=
  s.onSession sid fun t =>
    let t' := { t with received := t.received ++ [(kind, rel)] }
    if t.check && decide (kind = .blockSig) then
      { t' with ignored := t.ignored ++ [t.received.length] }
    else
      let job : Job P :=
        { session := sid
          request := t.received.length
          kind := kind
          rel := rel
          fingerprint := none
          since := (s.history rel).length - 1 }
      match (s.history rel).fileSize sizeOk with
      | some size => { t' with recv := .dating job size }
      | none => { t' with recv := .looking job }

/-- The time of the last write is read. -/
def lastWriteTime (s : State P) (sid : ℕ) (mtimeNs : Option ℤ) : State P :=
  match (s.sessions[sid]?).map Session.recv with
  | some (.dating job size) =>
    let job' : Job P :=
      { job with
        fingerprint := mtimeNs.map fun m => ⟨size, m⟩
        since := (s.history job.rel).length - 1 }
    s.onSession sid fun t => { t with recv := .looking job' }
  | _ => s

variable [DecidableEq P]

/-- The lookup. -/
def lookup (s : State P) (sid : ℕ) : State P :=
  match (s.sessions[sid]?).map Session.recv with
  | some (.looking job) =>
    match job.fingerprint with
    | none => s.onSession sid fun t => { t with recv := .missed job }
    | some fp =>
      let r := (s.caches job.kind).tryGet job.rel fp
      let s := { s with caches := Function.update s.caches job.kind r.1 }
      match r.2 with
      | none => s.onSession sid fun t => { t with recv := .missed job }
      | some v => { s with hits := s.hits ++ [(job, v)] }.onSession sid fun t => { t with recv := .hit job v }
  | _ => s

/-- The answer to a hit. -/
def answerHit (s : State P) (sid : ℕ) : State P :=
  match (s.sessions[sid]?).map Session.recv with
  | some (.hit job v) =>
    s.onSession sid fun t =>
      { t with recv := .idle }.enqueueHigh job.request (job.kind.answer job.rel (some v))
  | _ => s

/-- `++sessionPendingHashJobs`. -/
def count (s : State P) (sid : ℕ) : State P :=
  match (s.sessions[sid]?).map Session.recv with
  | some (.missed job) =>
    s.onSession sid fun t =>
      { t with recv := .counted job, sessionPendingHashJobs := t.sessionPendingHashJobs + 1 }
  | _ => s

/-- `Enqueue`, which may throw. -/
def enqueue (s : State P) (sid : ℕ) (ok : Bool) : State P :=
  match (s.sessions[sid]?).map Session.recv with
  | some (.counted job) =>
    if ok then { s with tasks := s.tasks ++ [job] }.onSession sid fun t => { t with recv := .idle }
    else s.onSession sid fun t => { t with recv := .refused job }
  | _ => s

/-- The handler of a refusal takes the count back, and the loop ends. -/
def refuse (s : State P) (sid : ℕ) : State P :=
  match (s.sessions[sid]?).map Session.recv with
  | some (.refused job) =>
    s.onSession sid fun t => ({ t with recv := .dead }.uncount.drop job.request).finish
  | _ => s

/-- Another exception ends the receive loop. -/
def recvThrow (s : State P) (sid : ℕ) : State P :=
  s.onSession sid fun t =>
    match t.recv with
    | .idle => { t with recv := .dead }.finish
    | .dating job _ | .looking job | .hit job _ | .missed job =>
      ({ t with recv := .dead }.drop job.request).finish
    | .counted _ | .refused _ | .dead => t

/-- The loop ends because the session is done. -/
def recvExit (s : State P) (sid : ℕ) : State P := s.onSession sid fun t => { t with recv := .dead }

/-- The sender takes an answer. -/
def send (s : State P) (sid : ℕ) : State P :=
  s.onSession sid fun t =>
    { t with sent := t.sent ++ t.outboundHigh.take 1, outboundHigh := t.outboundHigh.drop 1 }

/-- The drain at the teardown returns. -/
def drain (s : State P) (sid : ℕ) (timedOut : Bool) : State P :=
  s.onSession sid fun t => { t with drained := some timedOut }

/-! #### The pool -/

/-- A worker takes a task. -/
def take (s : State P) : State P :=
  match s.tasks with
  | [] => s
  | job :: rest => { s with tasks := rest, running := s.running ++ [(job, .started)] }

/-- The job begins: a signature job gives up when the session is done; then the size of the
file is asked. -/
def begin (s : State P) (i : ℕ) (sizeOk : Bool) : State P :=
  match s.running[i]? with
  | some (job, .started) =>
    if decide (job.kind = .blockSig) && s.isDone job.session then
      (s.setPhase i job .ending).onSession job.session (·.drop job.request)
    else
      match sizeOk, (s.history job.rel).current with
      | true, some v =>
        s.setPhase i job (.reading ((s.history job.rel).length - 1) (List.replicate v.content.length none))
      | _, _ => s.setPhase i job (.answering none)
  | _ => s

/-- A read of the disk returns bytes of one of the states the path has been in since. -/
def read (s : State P) (i off len src : ℕ) : State P :=
  match s.running[i]? with
  | some (job, .reading start got) =>
    match (s.history job.rel)[src]? with
    | some (some v) =>
      s.setPhase i job (.reading start
        (got.take off ++ ((v.content.drop off).take len).map some ++ got.drop (off + len)))
    | _ => s
  | _ => s

/-- The open or a read fails, or comes short. -/
def readFail (s : State P) (i : ℕ) : State P :=
  match s.running[i]? with
  | some (job, .reading _ _) => s.setPhase i job (.answering none)
  | _ => s

/-- All bytes are there. -/
def compute (cfg : Config) (s : State P) (i : ℕ) : State P :=
  match s.running[i]? with
  | some (job, .reading start got) =>
    match job.kind.compute cfg.X (got.filterMap id) with
    | some v => s.setPhase i job (.computed start v)
    | none => s.setPhase i job (.answering none)
  | _ => s

/-- With the cache switched on the fingerprint is read again, first the size. -/
def fileSizeAgain (s : State P) (i : ℕ) (ok : Bool) : State P :=
  match s.running[i]? with
  | some (job, .computed start v) =>
    if (s.caches job.kind).enabled then
      match (s.history job.rel).fileSize ok with
      | some size => s.setPhase i job (.resized start v size)
      | none => s.setPhase i job (.answering (some v))
    else s.setPhase i job (.answering (some v))
  | _ => s

/-- Then the time of the last write: the answer may be cached when the first fingerprint was not
valid or is the same. -/
def lastWriteTimeAgain (s : State P) (i : ℕ) (mtimeNs : Option ℤ) : State P :=
  match s.running[i]? with
  | some (job, .resized _ v size) =>
    match mtimeNs with
    | some m =>
      let afterFingerprint : HashFingerprint := ⟨size, m⟩
      if job.fingerprint.isNone || decide (job.fingerprint = some afterFingerprint) then
        s.setPhase i job (.caching afterFingerprint v)
      else s.setPhase i job (.answering (some v))
    | none => s.setPhase i job (.answering (some v))
  | _ => s

/-- `Upsert`; an exception is swallowed. -/
def upsert (s : State P) (i : ℕ) (ok : Bool) : State P :=
  match s.running[i]? with
  | some (job, .caching fp v) =>
    let s := if ok then
        { s with caches :=
          Function.update s.caches job.kind ((s.caches job.kind).upsert job.rel fp v) }
      else s
    s.setPhase i job (.answering (some v))
  | _ => s

/-- `if (!done.load())`. -/
def checkDone (s : State P) (i : ℕ) : State P :=
  match s.running[i]? with
  | some (job, .answering v) =>
    if s.isDone job.session then
      (s.setPhase i job .ending).onSession job.session (·.drop job.request)
    else s.setPhase i job (.cleared v)
  | _ => s

/-- The answer is sent; an exception ends the session. -/
def respond (s : State P) (i : ℕ) (ok : Bool) : State P :=
  match s.running[i]? with
  | some (job, .cleared v) =>
    (s.setPhase i job .ending).onSession job.session fun t =>
      if ok then t.enqueueHigh job.request (job.kind.answer job.rel v)
      else (t.drop job.request).finish
  | _ => s

/-- The last access of a job to its session: it is taken off the count. -/
def finishJob (s : State P) (i : ℕ) : State P :=
  match s.running[i]? with
  | some (job, .ending) =>
    { s with running := s.running.eraseIdx i }.onSession job.session Session.uncount
  | _ => s

/-- An exception leaves a signature job outside its try blocks (`openFile`, `closeFile`); the
worker swallows it. -/
def escape (s : State P) (i : ℕ) : State P := { s with running := s.running.eraseIdx i }

/-- A path goes to another state. -/
def modify (s : State P) (rel : P) (v : Option Version) : State P :=
  { s with history := Function.update s.history rel (s.history rel ++ [v]) }

end State

/-! ### Runs -/

inductive Event (P : Type) where
  | receive (sid : ℕ) (kind : Kind) (rel : P) (sizeOk : Bool)
  | lastWriteTime (sid : ℕ) (mtimeNs : Option ℤ)
  | lookup (sid : ℕ)
  | answerHit (sid : ℕ)
  | count (sid : ℕ)
  | enqueue (sid : ℕ) (ok : Bool)
  | refuse (sid : ℕ)
  | recvThrow (sid : ℕ)
  | recvExit (sid : ℕ)
  | setDone (sid : ℕ)
  | send (sid : ℕ)
  | drain (sid : ℕ) (timedOut : Bool)
  | take
  | begin (i : ℕ) (sizeOk : Bool)
  | read (i off len src : ℕ)
  | readFail (i : ℕ)
  | compute (i : ℕ)
  | fileSizeAgain (i : ℕ) (ok : Bool)
  | lastWriteTimeAgain (i : ℕ) (mtimeNs : Option ℤ)
  | upsert (i : ℕ) (ok : Bool)
  | checkDone (i : ℕ)
  | respond (i : ℕ) (ok : Bool)
  | finishJob (i : ℕ)
  | escape (i : ℕ)
  | modify (rel : P) (v : Option Version)

/-- The phases in which an exception can leave a signature job. -/
def Phase.unguarded : Phase → Bool
  | .started | .reading _ _ => true
  | _ => false

namespace Event

variable [DecidableEq P]

/-- When a step can happen. The drain returns when nothing is pending, or at its time limit; a
new state of a path never has the fingerprint of an old one with another content. -/
def Can (cfg : Config) (s : State P) : Event P → Prop
  | receive sid _ _ _ => (s.sessions[sid]?).any fun t => t.recv.isIdle
  | lastWriteTime sid mtimeNs => (s.sessions[sid]?).any fun t =>
      match t.recv with | .dating job _ => (s.history job.rel).mayAnswer mtimeNs | _ => false
  | lookup sid => (s.sessions[sid]?).any fun t => match t.recv with | .looking _ => true | _ => false
  | answerHit sid => (s.sessions[sid]?).any fun t => match t.recv with | .hit _ _ => true | _ => false
  | count sid => (s.sessions[sid]?).any fun t => match t.recv with | .missed _ => true | _ => false
  | enqueue sid _ => (s.sessions[sid]?).any fun t => match t.recv with | .counted _ => true | _ => false
  | refuse sid => (s.sessions[sid]?).any fun t => match t.recv with | .refused _ => true | _ => false
  | recvThrow sid => (s.sessions[sid]?).any fun t =>
      match t.recv with | .idle | .dating _ _ | .looking _ | .hit _ _ | .missed _ => true | _ => false
  | recvExit sid => (s.sessions[sid]?).any fun t => t.recv.isIdle && t.done
  | drain sid timedOut => (s.sessions[sid]?).any fun t =>
      t.done && t.recv.isDead && t.drained.isNone &&
        (decide (t.sessionPendingHashJobs = 0) || timedOut)
  | take => s.tasks ≠ [] ∧ s.running.length < cfg.workers
  | begin i _ => (s.running[i]?).any fun r => match r.2 with | .started => true | _ => false
  | read i off len src =>
    (s.running[i]?).any fun r =>
      match r.2, (s.history r.1.rel)[src]? with
      | .reading start got, some (some v) =>
        decide (start ≤ src ∧ 0 < len ∧ off + len ≤ got.length ∧ off + len ≤ v.content.length ∧
          none ∈ (got.drop off).take len)
      | _, _ => false
  | readFail i => (s.running[i]?).any fun r => match r.2 with | .reading _ _ => true | _ => false
  | compute i => (s.running[i]?).any fun r =>
      match r.2 with | .reading _ got => decide (none ∉ got) | _ => false
  | fileSizeAgain i _ => (s.running[i]?).any fun r =>
      match r.2 with | .computed _ _ => true | _ => false
  | lastWriteTimeAgain i mtimeNs => (s.running[i]?).any fun r =>
      match r.2 with | .resized _ _ _ => (s.history r.1.rel).mayAnswer mtimeNs | _ => false
  | upsert i _ => (s.running[i]?).any fun r => match r.2 with | .caching _ _ => true | _ => false
  | checkDone i => (s.running[i]?).any fun r => match r.2 with | .answering _ => true | _ => false
  | respond i _ => (s.running[i]?).any fun r => match r.2 with | .cleared _ => true | _ => false
  | finishJob i => (s.running[i]?).any fun r => match r.2 with | .ending => true | _ => false
  | escape i => (s.running[i]?).any fun r => decide (r.1.kind = .blockSig) && r.2.unguarded
  | modify rel v => (s.history rel).all fun old =>
      match old, v with
      | some u, some v => decide (u.fingerprint = v.fingerprint → u.content = v.content)
      | _, _ => true
  | setDone _ | send _ => True

/-- What a step does. -/
def exec (cfg : Config) (s : State P) : Event P → State P
  | receive sid kind rel sizeOk => s.receive sid kind rel sizeOk
  | lastWriteTime sid mtimeNs => s.lastWriteTime sid mtimeNs
  | lookup sid => s.lookup sid
  | answerHit sid => s.answerHit sid
  | count sid => s.count sid
  | enqueue sid ok => s.enqueue sid ok
  | refuse sid => s.refuse sid
  | recvThrow sid => s.recvThrow sid
  | recvExit sid => s.recvExit sid
  | setDone sid => s.onSession sid Session.finish
  | send sid => s.send sid
  | drain sid timedOut => s.drain sid timedOut
  | take => s.take
  | begin i sizeOk => s.begin i sizeOk
  | read i off len src => s.read i off len src
  | readFail i => s.readFail i
  | compute i => s.compute cfg i
  | fileSizeAgain i ok => s.fileSizeAgain i ok
  | lastWriteTimeAgain i mtimeNs => s.lastWriteTimeAgain i mtimeNs
  | upsert i ok => s.upsert i ok
  | checkDone i => s.checkDone i
  | respond i ok => s.respond i ok
  | finishJob i => s.finishJob i
  | escape i => s.escape i
  | modify rel v => s.modify rel v

instance (cfg : Config) (s : State P) : (e : Event P) → Decidable (Can cfg s e)
  | take => inferInstanceAs (Decidable (_ ∧ _))
  | setDone _ | send _ => .isTrue trivial
  | receive _ _ _ _ | lastWriteTime _ _ | lookup _ | answerHit _ | count _ | enqueue _ _ | refuse _
  | recvThrow _ | recvExit _ | drain _ _ | begin _ _ | read _ _ _ _ | readFail _ | compute _
  | fileSizeAgain _ _ | lastWriteTimeAgain _ _ | upsert _ _ | checkDone _ | respond _ _
  | finishJob _ | escape _ | modify _ _ => inferInstanceAs (Decidable (_ = true))

end Event

/-- What the server starts with: its files, its two caches (one switch), its sessions. -/
structure Start (P : Type) where
  files : P → Option Version
  enableHashMemcache : Bool
  /-- Which sessions are check sessions. -/
  sessions : List Bool

variable [DecidableEq P]

def State.init (start : Start P) : State P where
  history := fun rel => [start.files rel]
  caches := fun _ => { enabled := start.enableHashMemcache }
  sessions := start.sessions.map fun check => { check := check }

def machine (cfg : Config) (start : Start P) : Runs.Machine (State P) (Event P) where
  init := .init start
  can := Event.Can cfg
  next := Event.exec cfg

instance (cfg : Config) (start : Start P) (s : State P) (e : Event P) :
    Decidable ((machine cfg start).can s e) :=
  inferInstanceAs (Decidable (Event.Can cfg s e))

end FastClone.ServerHash
