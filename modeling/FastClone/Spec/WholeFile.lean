import FastClone.Spec.DriverAnswers
import FastClone.Spec.WriteHandles

/-!
# Writing a whole file (`driverWriteWholeFile`, `sync_engine_client.cpp`)

A worker of the write pool writes a small file through the driver: it keeps up to eight pieces in flight,
stops submitting after a failure, and goes on until the data is submitted and nothing is in flight. Here
the driver answers turn by turn: how many pieces it accepts before it rejects one, and what it delivers.
-/

namespace FastClone.WholeFile

open FastClone.DiskIo

/-- A call, after the file was opened. -/
structure Call where
  fileId : ℕ
  data : List UInt8
  /-- `chunkBytes`; 0 stands for 1 MiB. -/
  chunkBytes : ℕ

def Call.chunk (c : Call) : ℕ := if c.chunkBytes = 0 then 2 ^ 20 else c.chunkBytes

/-- The piece at an offset. -/
def Call.piece (c : Call) (off : ℕ) : IoRequest :=
  WriteHandles.writeRequest c.fileId off ((c.data.drop off).take (min c.chunk (c.data.length - off)))

structure Loop where
  off : ℕ := 0
  inflight : ℕ := 0
  ok : Bool := true
  /-- Accepted and not delivered. -/
  outstanding : List IoRequest := []
  /-- In the order of their acceptance. -/
  accepted : List IoRequest := []
  delivered : List (IoRequest × IoResult) := []

def kWindow : ℕ := 8

/-- The condition of the outer loop. -/
def Loop.running (c : Call) (l : Loop) : Bool := l.off < c.data.length || 0 < l.inflight

/-- The condition of the inner loop. -/
def Loop.submits (c : Call) (l : Loop) : Bool := l.ok && l.off < c.data.length && l.inflight < kWindow

def Loop.accept (l : Loop) (r : IoRequest) : Loop :=
  { l with
    off := l.off + r.length
    inflight := l.inflight + 1
    outstanding := l.outstanding ++ [r]
    accepted := l.accepted ++ [r] }

/-- The inner loop, where the driver accepts so many pieces and rejects the next. -/
def Loop.submitLoop (c : Call) : ℕ → Loop → Loop
  | 0, l => l
  | took + 1, l => if l.submits c then submitLoop c took (l.accept (c.piece l.off)) else l

def Loop.deliver (l : Loop) (d : IoRequest × IoResult) : Loop :=
  { l with
    inflight := if 0 < l.inflight then l.inflight - 1 else l.inflight
    ok := l.ok && !WriteHandles.failed (d.1.completion d.2)
    outstanding := l.outstanding.erase d.1
    delivered := l.delivered ++ [d] }

/-- What the driver answers in one turn of the outer loop. -/
structure Turn where
  took : ℕ
  done : List (IoRequest × IoResult)

def Loop.turn (c : Call) (t : Turn) (l : Loop) : Loop := t.done.foldl Loop.deliver (l.submitLoop c t.took)

/-- The loop after so many turns; where it has ended it stays. -/
def run (c : Call) (answers : ℕ → Turn) : ℕ → Loop
  | 0 => {}
  | k + 1 =>
    if (run c answers k).running c then (run c answers k).turn c (answers k) else run c answers k

/-- The result behind the loop, with what `closeFile` returns. -/
def Loop.result (l : Loop) (closeOk : Bool) : Bool := l.ok && closeOk

/-- The driver delivers what is outstanding, and every accepted write at some time. -/
structure Answers (c : Call) (answers : ℕ → Turn) : Prop where
  delivers : ∀ k, (run c answers k).running c = true →
    Deliverable ((run c answers k).submitLoop c (answers k).took).outstanding (answers k).done
  completes : ∀ k, ∀ r ∈ (run c answers k).outstanding, ∃ m, k ≤ m ∧ r ∉ (run c answers m).outstanding

end FastClone.WholeFile
