import FastClone.Spec.ComparePipeline

/-!
# `Drain` and the counter of waiting results (`compare_pipeline.cpp`)

`Drain` swaps the results out under `resultMu_` and takes their number off `pending_` afterwards; a thread puts
its results in under `resultMu_` and adds their number afterwards. Here the two halves of `Drain` are steps of
their own, with steps of the pool in between. `pending_` is a 64-bit counter, read by `PendingResults`.
-/

namespace FastClone.ComparePipeline

open Worklist (total)

/-- Results that a thread has put in and not added to `pending_`. -/
def Worker.uncounted : Worker → ℕ
  | .published n => n
  | _ => 0

/-- The results put in and not added to `pending_`. -/
def State.uncounted (cfg : ComparePipelineConfig) (s : State) : ℕ := total cfg.count fun w => (s.worker w).uncounted

/-- `PendingResults`: the 64-bit value of the counter. -/
def State.pendingResults (s : State) : ℕ := (s.pending % 2 ^ 64).toNat

/-- `HasResults`. -/
def State.hasResults (s : State) : Bool := s.pendingResults != 0

/-- The pipeline and `Drain` under way: `ready` is swapped out and still on the counter. It is empty outside
`Drain`, which returns at once when there are no results. -/
structure Halves where
  pipe : State := {}
  ready : List ComparedItem := []

namespace Halves

inductive Event where
  /-- Anything but a drain. -/
  | pipe (e : ComparePipeline.Event)
  /-- The first half of `Drain`: `ready.swap(results_)`. -/
  | swap
  /-- The second half. -/
  | subtract

/-- `pending_.fetch_sub(n)`, `drained_.fetch_add(n)`, and the results go out. -/
def subtract (h : Halves) : Halves where
  pipe := { h.pipe with
    pending := h.pipe.pending - h.ready.length
    drained := h.pipe.drained + h.ready.length
    out := h.pipe.out ++ h.ready }
  ready := []

def step (cfg : ComparePipelineConfig) (h : Halves) : Event → Option Halves
  | .pipe .drain => none
  | .pipe e => (h.pipe.step cfg e).map fun s => { h with pipe := s }
  -- one caller, so one `Drain` at a time
  | .swap => if h.ready = [] then some ⟨{ h.pipe with results := [] }, h.pipe.results⟩ else none
  | .subtract => if h.ready = [] then none else some h.subtract

end Halves

def halvesMachine (cfg : ComparePipelineConfig) : Runs.Machine Halves Halves.Event where
  init := {}
  can h e := (h.step cfg e).isSome
  next h e := (h.step cfg e).getD h

instance (cfg : ComparePipelineConfig) (h : Halves) (e : Halves.Event) : Decidable ((halvesMachine cfg).can h e) :=
  inferInstanceAs (Decidable ((h.step cfg e).isSome = true))

/-- When the counter goes down, as many results wait as the threads still have to add. -/
def Covered (cfg : ComparePipelineConfig) (h : Halves) : Halves.Event → Prop
  | .subtract => h.pipe.uncounted cfg ≤ h.pipe.results.length
  | _ => True

instance (cfg : ComparePipelineConfig) (h : Halves) : ∀ e, Decidable (Covered cfg h e)
  | .subtract => inferInstanceAs (Decidable (h.pipe.uncounted cfg ≤ h.pipe.results.length))
  | .pipe _ => .isTrue trivial
  | .swap => .isTrue trivial

end FastClone.ComparePipeline
