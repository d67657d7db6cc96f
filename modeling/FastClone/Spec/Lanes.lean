import FastClone.Spec.Batch
import Mathlib.Data.List.AList

/-!
# Lanes and streams of the client

A lane is one connection of the pool, named by its index; lane 0 is the primary. The lanes'
`healthy` flags only ever fall. Streams are keyed by lane and stream id, and the ids of a
lane are handed out in order, so a fresh key is free (`Streams.below`).
-/

namespace FastClone.Client

/-- `ClientConnection`, as far as scheduling and failover read it. -/
structure Lane where
  healthy : Bool := true
  drained : Bool := false
  inFlight : ℕ := 0
  deriving DecidableEq, Repr

/-- `pool`. -/
abbrev Pool := List Lane

namespace Pool

/-- `healthy` of a lane; a lane outside the pool counts as dead (`staleFromDeadLane`). -/
def healthy (pool : Pool) (i : ℕ) : Bool := pool[i]?.any Lane.healthy

/-- `inFlight` of a lane. -/
def inFlight (pool : Pool) (i : ℕ) : ℕ := (pool[i]?.map Lane.inFlight).getD 0

/-- `healthyConnCount`. -/
def healthyConnCount (pool : Pool) : ℕ := pool.countP Lane.healthy

/-- `markConnDown`, and the end of a lane's receive thread. -/
def markConnDown (pool : Pool) (i : ℕ) : Pool :=
  pool.modify i fun l => { l with healthy := false }

/-- `++conn->inFlight`. -/
def acquireSlot (pool : Pool) (i : ℕ) : Pool :=
  pool.modify i fun l => { l with inFlight := l.inFlight + 1 }

/-- `releaseSlot`. -/
def releaseSlot (pool : Pool) (i : ℕ) : Pool :=
  pool.modify i fun l => { l with inFlight := l.inFlight - 1 }

/-- `controlConn`: the primary if healthy, else the first healthy lane, else the primary. -/
def controlConn (pool : Pool) : ℕ :=
  if pool.healthy 0 then 0 else (pool.findIdx? Lane.healthy).getD 0

/-- The lanes `SelectLeastLoadedLane` may answer below a cap. Which of them it answers depends
on the weighted loads; the model leaves that choice open. -/
def canPick (pool : Pool) (laneCap : ℕ) (forcePrimary : Bool) (i : ℕ) : Bool :=
  if forcePrimary && pool.healthy 0 then i == 0 && decide (pool.inFlight 0 < laneCap)
  else pool.healthy i && decide (pool.inFlight i < laneCap)

end Pool

/-- `ComputeFileRangeReservedSlots`. -/
def computeFileRangeReservedSlots (streamLimit : ℕ) : ℕ :=
  if streamLimit ≤ 2 then streamLimit - 1
  else
    let r := max 2 (streamLimit / 8)
    let r := if r > 4 then 4 else r
    if r ≥ streamLimit then streamLimit - 1 else r

/-- `ActiveDeltaRange` and `ActiveFileRange`. -/
structure ActiveRange (P : Type) where
  rel : P
  destOffset : ℕ
  length : ℕ
  received : ℕ := 0

/-- What an open stream carries. The source keeps the four kinds in four maps over one key
space. `requested` is a ghost: the client sends these paths and does not record them. -/
inductive Stream (P : Type) where
  | download (rel : P)
  | batch (requested : List P) (state : BatchDownloadState P)
  | deltaRange (range : ActiveRange P)
  | fileRange (range : ActiveRange P)

/-- `streamKey`: lane and stream id. -/
abbrev Key := ℕ × ℕ

/-- The open streams and the stream ids handed out so far. -/
structure Streams (P : Type) where
  table : AList fun _ : Key => Stream P
  nextStreamId : ℕ → ℕ
  below : ∀ k ∈ table, k.2 < nextStreamId k.1

namespace Streams

variable {P : Type}

/-- No stream is open; ids start at 1. -/
def none (P : Type) : Streams P where
  table := ∅
  nextStreamId := fun _ => 1
  below := fun k hk => absurd hk (AList.notMem_empty k)

/-- The stream behind a key. -/
def find (s : Streams P) (k : Key) : Option (Stream P) := s.table.lookup k

/-- The key the next stream of a lane gets. -/
def nextKey (s : Streams P) (conn : ℕ) : Key := (conn, s.nextStreamId conn)

/-- `nextStreamId++` of a lane. -/
def skipId (s : Streams P) (conn : ℕ) : Streams P where
  table := s.table
  nextStreamId := Function.update s.nextStreamId conn (s.nextStreamId conn + 1)
  below := by
    intro k hk
    have h := s.below k hk
    by_cases hc : k.1 = conn
    · subst hc
      rw [Function.update_self]
      omega
    · rw [Function.update_of_ne hc]
      exact h

/-- Open a stream under the next key of a lane. -/
def openNext (s : Streams P) (conn : ℕ) (st : Stream P) : Streams P where
  table := s.table.insert (s.nextKey conn) st
  nextStreamId := (s.skipId conn).nextStreamId
  below := by
    intro k hk
    rcases (AList.mem_insert s.table).1 hk with rfl | hk
    · simp [nextKey, skipId]
    · exact (s.skipId conn).below k hk

/-- Erase a stream. -/
def close (s : Streams P) (k : Key) : Streams P where
  table := s.table.erase k
  nextStreamId := s.nextStreamId
  below := fun j hj => s.below j (AList.mem_erase.1 hj).2

/-- Replace the state of an open stream. -/
def update (s : Streams P) (k : Key) (st : Stream P) : Streams P :=
  if h : k ∈ s.table then
    { table := s.table.insert k st
      nextStreamId := s.nextStreamId
      below := by
        intro j hj
        rcases (AList.mem_insert s.table).1 hj with rfl | hj
        · exact s.below _ h
        · exact s.below j hj }
  else s

/-- How many open streams satisfy a test. -/
def countWhere (s : Streams P) (p : Stream P → Bool) : ℕ :=
  s.table.entries.countP fun e => p e.2

end Streams

/-- A key of `activeDownloads`. -/
def Stream.isDownload {P : Type} : Stream P → Bool
  | .download _ => true
  | _ => false

/-- A key of `activeBatchDownloads`. -/
def Stream.isBatch {P : Type} : Stream P → Bool
  | .batch _ _ => true
  | _ => false

/-- A key of `activeDeltaRanges`. -/
def Stream.isDeltaRange {P : Type} : Stream P → Bool
  | .deltaRange _ => true
  | _ => false

/-- A key of `activeFileRanges`. -/
def Stream.isFileRange {P : Type} : Stream P → Bool
  | .fileRange _ => true
  | _ => false

end FastClone.Client
