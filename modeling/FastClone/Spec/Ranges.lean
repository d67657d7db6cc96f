import FastClone.Spec.Lanes
import FastClone.Lib.Spans
import Mathlib.Data.Finset.Basic

/-!
# Files fetched in ranges: delta misses and large-file blocks

A delta file and a large file in block mode are fetched as ranges over several lanes.
`deltaStates` and `fileRangeStates` have the same shape, and so have the ranges that wait
for a lane; `RangeBook` is either. The barrier of a file is its `pendingRanges`, a 32-bit
count of the ranges that are still out.
-/

namespace FastClone.Client

/-- `DeltaRangeTask` and `FileRangeTask`. -/
structure RangeTask (P : Type) where
  rel : P
  offset : ℕ
  length : ℕ

/-- The offset and length of a task. -/
def RangeTask.span {P : Type} (t : RangeTask P) : Spans.Span := (t.offset, t.length)

/-- The offset and length of an active range. -/
def ActiveRange.span {P : Type} (r : ActiveRange P) : Spans.Span := (r.destOffset, r.length)

/-- `DeltaFileState` and `FileRangeFileState`: the size of the new file, whether its temp file
is open (the plan is built), the barrier, and for delta files whether the signature is there.
`plan` and `ended` are ghosts: the planned ranges and those that received their End. -/
structure RangeState where
  bytes : ℕ
  planned : Bool := false
  pendingRanges : ℕ := 0
  sigReceived : Bool := false
  plan : List Spans.Span := []
  ended : List Spans.Span := []

/-- The state of a file that adopts a plan: `uint32_t` counts the ranges. -/
def RangeState.adopted (st : RangeState) (plan : List Spans.Span) : RangeState :=
  { st with
    planned := true
    pendingRanges := plan.length % 2 ^ 32
    plan := plan
    ended := [] }

/-- A finalized file with its size and the ghosts it had. -/
structure Finalized (P : Type) where
  rel : P
  bytes : ℕ
  plan : List Spans.Span
  ended : List Spans.Span

/-- The managed files, the files that never enter again this session, the ranges waiting for a
lane, and a ghost log of the finalized files. -/
structure RangeBook (P : Type) where
  states : AList fun _ : P => RangeState
  abandoned : Finset P
  pending : List (RangeTask P)
  finalized : List (Finalized P)
  disjoint : ∀ f ∈ states, f ∉ abandoned

namespace RangeBook

variable {P : Type}

/-- Nothing is managed. -/
def empty (P : Type) : RangeBook P where
  states := ∅
  abandoned := ∅
  pending := []
  finalized := []
  disjoint := fun f hf => absurd hf (AList.notMem_empty f)

/-- Replace the ranges that wait for a lane. -/
def setPending (b : RangeBook P) (pending : List (RangeTask P)) : RangeBook P :=
  { b with pending := pending }

variable [DecidableEq P]

/-- Manage a file that is neither abandoned nor managed. -/
def manage (b : RangeBook P) (rel : P) (bytes : ℕ) : Option (RangeBook P) :=
  if h : rel ∈ b.abandoned ∨ rel ∈ b.states then none
  else some
    { b with
      states := b.states.insert rel { bytes := bytes }
      disjoint := by
        intro f hf
        rcases (AList.mem_insert b.states).1 hf with rfl | hf
        · exact fun hn => h (.inl hn)
        · exact b.disjoint f hf }

/-- Replace the state of a managed file. -/
def update (b : RangeBook P) (rel : P) (st : RangeState) : RangeBook P :=
  if h : rel ∈ b.states then
    { b with
      states := b.states.insert rel st
      disjoint := by
        intro f hf
        rcases (AList.mem_insert b.states).1 hf with rfl | hf
        · exact b.disjoint _ h
        · exact b.disjoint f hf }
  else b

/-- Erase the state of a file. -/
def forget (b : RangeBook P) (rel : P) : RangeBook P :=
  { b with
    states := b.states.erase rel
    disjoint := fun f hf => b.disjoint f (AList.mem_erase.1 hf).2 }

/-- Erase the state of a file and never manage it again. -/
def abandon (b : RangeBook P) (rel : P) : RangeBook P :=
  { b with
    states := b.states.erase rel
    abandoned := insert rel b.abandoned
    disjoint := by
      intro f hf
      obtain ⟨hne, hf⟩ := AList.mem_erase.1 hf
      simp only [Finset.mem_insert, not_or]
      exact ⟨hne, b.disjoint f hf⟩ }

/-- Adopt the plan of a managed file: its ranges join the queue and the barrier counts them. -/
def adopt (b : RangeBook P) (rel : P) (st : RangeState) (plan : List Spans.Span) : RangeBook P :=
  (b.update rel (st.adopted plan)).setPending
    (b.pending ++ plan.map fun r => ⟨rel, r.1, r.2⟩)

/-- One End: the barrier falls by one unless it is 0. -/
def endRange (b : RangeBook P) (rel : P) (st : RangeState) (span : Spans.Span) : RangeBook P :=
  b.update rel
    { st with
      pendingRanges := st.pendingRanges - 1
      ended := st.ended ++ [span] }

/-- Note in the ghost log that a file is finalized. -/
def noteFinalized (b : RangeBook P) (rel : P) (st : RangeState) : RangeBook P :=
  { b with finalized := ⟨rel, st.bytes, st.plan, st.ended⟩ :: b.finalized }

/-- The failover of a lane puts a range back if its file is still managed. -/
def requeue (b : RangeBook P) (r : ActiveRange P) : RangeBook P :=
  if r.rel ∈ b.states then b.setPending (b.pending ++ [⟨r.rel, r.destOffset, r.length⟩]) else b

end RangeBook

/-- The slicing loops of `beginFileRangePlan` and `buildDeltaPlanOffloaded`: pieces of at most
`step` bytes from `off` on. The fuel is the number of bytes left, which every turn lowers. -/
def slices (step : ℕ) : ℕ → ℕ → ℕ → List Spans.Span
  | 0, _, _ => []
  | fuel + 1, off, remaining =>
    if remaining = 0 then []
    else (off, min step remaining) ::
      slices step fuel (off + min step remaining) (remaining - min step remaining)

/-- The block plan of `beginFileRangePlan`. -/
def fileRangePlan (largeFileBlockBytes fileSize : ℕ) : List Spans.Span :=
  slices (min largeFileBlockBytes fileSize) fileSize 0 fileSize

/-- The ranges `buildDeltaPlanOffloaded` makes of the misses of a plan. -/
def deltaRanges (effectiveChunkSize : ℕ) (misses : List Spans.Span) : List Spans.Span :=
  misses.flatMap fun m => slices (min (effectiveChunkSize * 8) 0xFFFFFFFF) m.2 m.1 m.2

end FastClone.Client
