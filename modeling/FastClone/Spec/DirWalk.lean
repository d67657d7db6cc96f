import FastClone.Lib.Worklist

/-!
# `ParallelDirWalk` (`parallel_dir_walk.h`)

Several threads walk a tree of directories. Each takes a batch from the end of a shared queue, runs the
callback on one directory after the other outside the lock, and puts the subdirectories behind the queue.
A thread sleeps on a condition variable while the queue is empty and others may still add to it; it leaves
when nobody can. Exceptions of the callback are caught, and the first one is thrown again at the end.

One step is one critical section, one call of the callback, or one wake of a sleeper; a notification
reaches every sleeper at once, and a sleeper may wake without one.
-/

namespace FastClone.DirWalk

/-- A finite tree of directories: no directory is below itself. -/
structure Dirs (D : Type) where
  children : D → List D
  finite : WellFounded fun c d => c ∈ children d

/-- The arguments of a call. `processDir` adds the children to `subdirs` and changes the context. -/
structure Call (D C : Type) where
  dirs : Dirs D
  rootDir : D
  numWorkers : ℕ
  numWorkers_pos : 0 < numWorkers
  dirPopBatch : ℕ
  dirPopBatch_pos : 0 < dirPopBatch
  ctxPrototype : C
  processDir : D → C → C

/-- Where a thread stands: before it looks at the queue, asleep on `qcv`, with a batch (what is left of it,
its size, and what was found), with an exception before and after `errMu`, out of the loop, or through
with `finishWorker`. -/
inductive Worker (D E : Type) where
  | waiting
  | asleep
  | busy (batch : List D) (size : ℕ) (subdirs : List D)
  | catching (size : ℕ) (e : E)
  | caught (size : ℕ)
  | leaving
  | gone

structure State (D C E : Type) where
  queue : List D
  activeDirs : ℕ
  done : Bool
  firstError : Option E
  worker : ℕ → Worker D E
  ctx : ℕ → C
  /-- The calls of `finishWorker`, in order. -/
  merged : List (ℕ × C)
  /-- The directories on which each thread has run the callback. -/
  processed : ℕ → List D
  /-- What the callback has thrown, and what the handlers have got hold of, in order. -/
  thrown : List E
  captured : List E

inductive Event (C E : Type) where
  /-- The thread evaluates its predicate and, if it may, takes a batch or leaves. -/
  | check (w : ℕ)
  | wake (w : ℕ)
  | process (w : ℕ)
  /-- The callback throws; what it has done to the context before stays. -/
  | throw (w : ℕ) (e : E) (ctx : C)
  | capture (w : ℕ)
  | book (w : ℕ)
  | finish (w : ℕ)
  | cancel

variable {D C E : Type}

def State.start (W : Call D C) : State D C E where
  queue := [W.rootDir]
  activeDirs := 0
  done := false
  firstError := none
  worker := fun _ => .waiting
  ctx := fun _ => W.ctxPrototype
  merged := []
  processed := fun _ => []
  thrown := []
  captured := []

def State.set (s : State D C E) (w : ℕ) (x : Worker D E) : State D C E :=
  { s with worker := Function.update s.worker w x }

/-- `qcv.notify_all()`. -/
def State.notifyAll (s : State D C E) : State D C E :=
  { s with
    worker := fun w =>
      match s.worker w with
      | .asleep => .waiting
      | x => x }

/-- The last directories of the queue, the last one first. -/
def State.take (s : State D C E) (dirPopBatch w : ℕ) : State D C E :=
  let take := min dirPopBatch s.queue.length
  { s.set w (.busy (s.queue.drop (s.queue.length - take)).reverse take []) with
    queue := s.queue.take (s.queue.length - take)
    activeDirs := s.activeDirs + take }

/-- The first section under `qmu`. -/
def State.check (W : Call D C) (s : State D C E) (w : ℕ) : State D C E :=
  if s.done = true ∨ s.queue ≠ [] ∨ s.activeDirs = 0 then
    if s.done then s.set w .leaving
    else if s.queue = [] then s.notifyAll.set w .leaving
    else s.take W.dirPopBatch w
  else s.set w .asleep

/-- The second section under `qmu`. -/
def State.book (s : State D C E) (w size : ℕ) (subdirs : List D) : State D C E :=
  let t := { s.set w .waiting with
    queue := s.queue ++ subdirs
    activeDirs := s.activeDirs - size }
  if t.queue ≠ [] ∨ t.activeDirs = 0 then t.notifyAll else t

def State.step (W : Call D C) (s : State D C E) : Event C E → Option (State D C E)
  | .check w =>
    match s.worker w with
    | .waiting => if w < W.numWorkers then some (s.check W w) else none
    | _ => none
  | .wake w =>
    match s.worker w with
    | .asleep => some (s.set w .waiting)
    | _ => none
  | .process w =>
    match s.worker w with
    | .busy (d :: batch) size subdirs =>
      some { s.set w (.busy batch size (subdirs ++ W.dirs.children d)) with
        ctx := Function.update s.ctx w (W.processDir d (s.ctx w))
        processed := Function.update s.processed w (s.processed w ++ [d]) }
    | _ => none
  | .throw w e ctx =>
    match s.worker w with
    | .busy (_ :: _) size _ =>
      some { s.set w (.catching size e) with
        ctx := Function.update s.ctx w ctx
        thrown := s.thrown ++ [e] }
    | _ => none
  | .capture w =>
    match s.worker w with
    | .catching size e =>
      some { s.set w (.caught size) with
        firstError := s.firstError <|> some e
        captured := s.captured ++ [e] }
    | _ => none
  | .book w =>
    match s.worker w with
    | .busy [] size subdirs => some (s.book w size subdirs)
    -- `threw`: the children of the failed batch are not pushed
    | .caught size => some (s.book w size [])
    | _ => none
  | .finish w =>
    match s.worker w with
    | .leaving => some { s.set w .gone with merged := s.merged ++ [(w, s.ctx w)] }
    | _ => none
  | .cancel => some { s with done := true }

def machine (W : Call D C) : Runs.Machine (State D C E) (Event C E) where
  init := .start W
  can s e := (s.step W e).isSome
  next s e := (s.step W e).getD s

instance (W : Call D C) (s : State D C E) (e : Event C E) : Decidable ((machine W).can s e) :=
  inferInstanceAs (Decidable ((s.step W e).isSome = true))

def Event.notCancel : Event C E → Bool
  | .cancel => false
  | _ => true

def Event.isWake : Event C E → Bool
  | .wake _ => true
  | _ => false

def Event.isThrow : Event C E → Bool
  | .throw _ _ _ => true
  | _ => false

/-- All threads are joined. -/
def State.finished (W : Call D C) (s : State D C E) : Prop := ∀ w < W.numWorkers, s.worker w matches .gone

instance (W : Call D C) (s : State D C E) : Decidable (s.finished W) :=
  inferInstanceAs (Decidable (∀ w < W.numWorkers, (s.worker w matches .gone) = true))

/-- How the call ends, once all threads are joined. -/
def State.outcome (s : State D C E) : Except E Unit :=
  match s.firstError with
  | none => .ok ()
  | some e => .error e

/-- The directories at and under one. -/
def Dirs.all (T : Dirs D) (d : D) : List D :=
  T.finite.fix (C := fun _ => List D) (fun d ih => d :: (T.children d).attach.flatMap fun c => ih c.1 c.2) d

end FastClone.DirWalk
