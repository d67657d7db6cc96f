import FastClone.Proof.ClientAccounting
import FastClone.Spec.Retries
import Mathlib.Algebra.Order.BigOperators.Group.List
import Mathlib.Algebra.BigOperators.Group.List.Lemmas
import Mathlib.Algebra.Order.Ring.Nat
import Mathlib.Data.List.Perm.Subperm

/-!
# Every file is opened at most four times

`State.course s n f` is the course of the file `f` as the state `s` has it, `n` times opened so
far. Every function of the main loop makes moves of `RetryLife` (`Turns`), so the opens of a
file stay within its schedule, its retries and its counts.
-/

set_option linter.unusedSectionVars false

namespace FastClone.Client

open RetryLife Table Runs

variable {P H : Type} [DecidableEq P]

/-! ### Places -/

/-- How often a stream has `f`, counted also while a batch waits for its reply. -/
def Stream.carried : Stream P → P → ℕ
  | .download rel, f => if rel = f then 1 else 0
  | .batch requested b, f =>
    entriesHeld b.entries f + if b.headerReady then 0 else requested.count f
  | .deltaRange _, _ => 0
  | .fileRange _, _ => 0

/-- How often the open streams have `f`. -/
def Streams.carried (s : Streams P) (f : P) : ℕ := total (fun _ st => st.carried f) s.table

/-- Whether `f` is among the files that were asked for, and is neither managed nor abandoned. -/
def RangeBook.loose (b : RangeBook P) (asked : Finset P) (f : P) : Bool :=
  decide (f ∈ asked) && decide (f ∉ b.states) && decide (f ∉ b.abandoned)

namespace RangeBook

variable {b b' : RangeBook P} {asked asked' : Finset P} {rel f : P}

theorem loose_congr (ha : f ∈ asked' ↔ f ∈ asked) (hs : f ∈ b'.states ↔ f ∈ b.states)
    (hb : f ∈ b'.abandoned ↔ f ∈ b.abandoned) : b'.loose asked' f = b.loose asked f := by
  simp only [loose, ha, hs, hb]

theorem loose_of_mem (h : f ∈ b.states) : b.loose asked f = false := by
  simp [loose, h]

theorem loose_of_abandoned (h : f ∈ b.abandoned) : b.loose asked f = false := by
  simp [loose, h]

theorem mem_of_held (h : b'.held f = b.held f) : f ∈ b'.states ↔ f ∈ b.states := by
  unfold held at h
  by_cases h1 : f ∈ b.states <;> by_cases h2 : f ∈ b'.states <;> simp [h1, h2] at h ⊢

theorem loose_update (b : RangeBook P) (asked : Finset P) (rel : P) (st : RangeState) (f : P) :
    (b.update rel st).loose asked f = b.loose asked f := by
  refine loose_congr .rfl (mem_of_held (b.held_update rel st f)) ?_
  unfold update
  split <;> exact .rfl

theorem loose_requeue (b : RangeBook P) (asked : Finset P) (r : ActiveRange P) (f : P) :
    (b.requeue r).loose asked f = b.loose asked f := by
  unfold requeue
  split <;> rfl

/-- A file that was never asked for can be managed. -/
theorem loose_manage {n : ℕ} (h : b.manage rel n = some b') (ha : rel ∉ asked) :
    b'.loose asked f = b.loose asked f := by
  obtain ⟨-, -, hdisjoint, rfl⟩ := manage_eq_some h
  by_cases hf : f = rel
  · simp [loose, hf, ha]
  · exact loose_congr .rfl ((AList.mem_insert b.states).trans (or_iff_right hf)) .rfl

/-- Abandoning a managed file. -/
theorem loose_abandon (hm : rel ∈ b.states) (ha : f ≠ rel → (f ∈ asked' ↔ f ∈ asked)) :
    (b.abandon rel).loose asked' f = b.loose asked f := by
  by_cases hf : f = rel
  · subst hf
    rw [loose_of_mem hm]
    exact loose_of_abandoned (Finset.mem_insert_self f b.abandoned)
  · refine loose_congr (ha hf) (AList.mem_erase.trans (and_iff_right hf)) ?_
    exact Finset.mem_insert.trans (or_iff_right hf)

/-- Forgetting does not touch the other files. -/
theorem loose_forget_of_ne (h : f ≠ rel) : (b.forget rel).loose asked f = b.loose asked f :=
  loose_congr .rfl (AList.mem_erase.trans (and_iff_right h)) .rfl

theorem loose_forget_absent (h : rel ∉ b.states) :
    (b.forget rel).loose asked f = b.loose asked f :=
  loose_congr .rfl (mem_of_held (held_forget_absent h f)) .rfl

end RangeBook

/-! ### Queues and counts -/

namespace Transfers

theorem queued_enqueueTransfer (size : P → Option ℕ) (x : Transfers P) (rel : P) (b : Bool) (f : P) :
    (x.enqueueTransfer size rel b).queued f = x.queued f + if rel = f then 1 else 0 := by
  unfold enqueueTransfer
  split <;> split <;>
    simp only [queued, List.count_append, List.count_singleton, beq_iff_eq] <;> omega

theorem enqueueTransfer_frame (size : P → Option ℕ) (x : Transfers P) (rel : P) (b : Bool) :
    (x.enqueueTransfer size rel b).transferRetryCounts = x.transferRetryCounts ∧
      (x.enqueueTransfer size rel b).tally = x.tally ∧
      (x.enqueueTransfer size rel b).scheduledTransfers = x.scheduledTransfers := by
  unfold enqueueTransfer
  split <;> split <;> exact ⟨rfl, rfl, rfl⟩

theorem resolved_count (x : Transfers P) (rel : Option P) (o : Outcome) (f : P) :
    (x.count rel o).resolved f =
      x.resolved f + if rel = some f ∧ o ≠ .unchanged then 1 else 0 := by
  unfold resolved count Tally.count
  rw [List.countP_cons]
  simp only [Bool.and_eq_true, decide_eq_true_eq]

theorem queued_setQueue (x : Transfers P) (l : List P) (q : Queue) (f : P) :
    (x.setQueue l q).queued f + (x.queue q).count f = x.queued f + l.count f := by
  cases q <;> simp only [queued, setQueue, queue] <;> omega

theorem setQueue_frame (x : Transfers P) (l : List P) (q : Queue) :
    (x.setQueue l q).transferRetryCounts = x.transferRetryCounts ∧
      (x.setQueue l q).tally = x.tally ∧
      (x.setQueue l q).scheduledTransfers = x.scheduledTransfers := by
  cases q <;> exact ⟨rfl, rfl, rfl⟩

end Transfers

/-! ### The course of a file -/

/-- One time for `rel`. -/
def once (rel f : P) : ℕ := if rel = f then 1 else 0

theorem once_self (rel : P) : once rel rel = 1 := if_pos rfl

theorem once_ne {rel f : P} (h : rel ≠ f) : once rel f = 0 := if_neg h

namespace State

/-- How often `f` is compared, waits for its hashes, or is managed. -/
def inside (s : State P H) (f : P) : ℕ :=
  s.compare.held f + s.hash.held f + s.delta.book.held f + s.range.book.held f

/-- The course of a file that was opened `n` times. -/
def course (s : State P H) (n : ℕ) (f : P) : Course where
  inside := s.inside f
  queued := s.xfer.queued f
  away := s.streams.carried f + s.io.held f
  retries := s.xfer.transferRetryCounts f
  resolved := s.xfer.resolved f
  opens := n
  scheduled := decide (f ∈ s.xfer.scheduledTransfers)
  known := decide (f ∈ s.remoteFiles)
  loose := s.delta.book.loose s.delta.deltaSigRequested f

/-- Transfers that differ in their queues only. -/
theorem course_queued (s : State P H) (x : Transfers P) {y : Transfers P}
    (h : y.transferRetryCounts = x.transferRetryCounts ∧ y.tally = x.tally ∧
      y.scheduledTransfers = x.scheduledTransfers) (n : ℕ) (f : P) :
    { s with xfer := y }.course n f = { { s with xfer := x }.course n f with queued := y.queued f } := by
  obtain ⟨hcounts, htally, hsched⟩ := h
  apply Course.ext
  · rfl
  · rfl
  · rfl
  · exact congrFun hcounts f
  · simp only [course, Transfers.resolved, htally]
  · rfl
  · simp only [course, hsched]
  · rfl
  · rfl

theorem course_enqueueTransfer (s : State P H) (x : Transfers P) (size : P → Option ℕ) (rel : P)
    (b : Bool) (n : ℕ) (f : P) :
    { s with xfer := x.enqueueTransfer size rel b }.course n f =
      { { s with xfer := x }.course n f with queued := x.queued f + once rel f } := by
  rw [s.course_queued x (x.enqueueTransfer_frame size rel b), x.queued_enqueueTransfer]
  rfl

/-- Counted transferred or failed, a file forgets its retries. -/
theorem course_resolve (s : State P H) (rel : P) {o : Outcome} (ho : o ≠ .unchanged) (n : ℕ) (f : P) :
    { s with xfer := (s.xfer.count (some rel) o).forgetRetries rel }.course n f =
      if rel = f then (s.course n f).resolve else s.course n f := by
  have hres := s.xfer.resolved_count (some rel) o f
  by_cases hf : rel = f
  · subst hf
    rw [if_pos ⟨rfl, ho⟩] at hres
    rw [if_pos rfl]
    apply Course.ext <;> first | rfl | exact hres | exact Function.update_self ..
  · rw [if_neg fun h => hf (Option.some.inj h.1)] at hres
    rw [if_neg hf]
    apply Course.ext <;> first | rfl | exact hres | exact Function.update_of_ne (Ne.symm hf) ..

/-- A count of another kind resolves nothing. -/
theorem course_count (s : State P H) {rel : Option P} {o : Outcome}
    (h : ∀ f, ¬ (rel = some f ∧ o ≠ .unchanged)) (n : ℕ) (f : P) :
    (s.count rel o).course n f = s.course n f := by
  have hres := s.xfer.resolved_count rel o f
  rw [if_neg (h f)] at hres
  apply Course.ext <;> first | rfl | exact hres

theorem course_retryOrFail (s : State P H) (rel : P) (n : ℕ) (f : P) :
    (s.retryOrFail rel).course n f =
      if rel = f then
        if s.xfer.transferRetryCounts rel < kMaxTransferRetries then
          { s.course n f with
            queued := s.xfer.queued f + 1
            retries := s.xfer.transferRetryCounts f + 1 }
        else (s.course n f).resolve
      else s.course n f := by
  unfold retryOrFail Transfers.retryOrFail
  split
  · rw [course_enqueueTransfer]
    by_cases hf : rel = f
    · subst hf
      rw [if_pos rfl, once_self]
      apply Course.ext <;> first | rfl | exact Function.update_self ..
    · rw [if_neg hf, once_ne hf]
      apply Course.ext <;> first | rfl | exact Function.update_of_ne (Ne.symm hf) ..
  · have hfailed : Outcome.failed ≠ .unchanged := by decide
    exact s.course_resolve rel hfailed n f

theorem course_scheduleTransfer (s : State P H) (rel : P) (n : ℕ) (f : P) :
    (s.scheduleTransfer rel).course n f =
      if rel = f ∧ rel ∉ s.xfer.scheduledTransfers then (s.course n f).schedule
      else s.course n f := by
  unfold scheduleTransfer Transfers.scheduleTransfer
  split
  · rename_i hs
    rw [if_neg fun h => h.2 hs]
  · rename_i hs
    rw [course_enqueueTransfer]
    by_cases hf : rel = f
    · subst hf
      rw [if_pos ⟨rfl, hs⟩, once_self]
      apply Course.ext <;> first | rfl | simp [course, Course.schedule]
    · rw [if_neg fun h => hf h.1, once_ne hf]
      have hf' : f ≠ rel := Ne.symm hf
      apply Course.ext <;> first | rfl | simp [course, hf']

/-! ### Streams and the write pool -/

theorem course_streams (s : State P H) (t : Streams P) (pool : Pool) (n : ℕ) (f : P) {m k : ℕ}
    (h : t.carried f + m = s.streams.carried f + k) :
    ({ s with
        streams := t
        pool := pool }.course n f).addAway m = (s.course n f).addAway k := by
  apply Course.ext <;> first | rfl | skip
  simp only [course, Course.addAway]
  omega

/-- A closed stream hands back what it carried. -/
theorem course_close {s : State P H} {k : Key} {st : Stream P} (h : s.streams.find k = some st)
    (pool : Pool) (n : ℕ) (f : P) :
    s.course n f = ({ s with
      streams := s.streams.close k
      pool := pool }.course n f).addAway (st.carried f) := by
  have hc : s.streams.carried f = (s.streams.close k).carried f + st.carried f :=
    Streams.total_close (fun st => st.carried f) h
  exact (s.course_streams (s.streams.close k) pool n f (k := 0) (by rw [hc, Nat.add_zero])).symm

theorem course_closeStream {s : State P H} {k : Key} {st : Stream P}
    (h : s.streams.find k = some st) (n : ℕ) (f : P) :
    s.course n f = ((s.closeStream k).course n f).addAway (st.carried f) :=
  course_close h _ n f

theorem course_update {s : State P H} {k : Key} {st : Stream P} (h : s.streams.find k = some st)
    (st' : Stream P) (n : ℕ) (f : P) :
    ({ s with streams := s.streams.update k st' }.course n f).addAway (st.carried f) =
      (s.course n f).addAway (st'.carried f) :=
  s.course_streams (s.streams.update k st') s.pool n f
    (Streams.total_update (fun st => st.carried f) h st')

/-- A stream update that carries the same files. -/
theorem course_update_same {s : State P H} {k : Key} {st st' : Stream P}
    (h : s.streams.find k = some st) (n : ℕ) (f : P) (hc : st'.carried f = st.carried f) :
    { s with streams := s.streams.update k st' }.course n f = s.course n f := by
  have hu := course_update h st' n f
  rw [hc] at hu
  exact Course.addAway_inj hu

theorem course_openNext (s : State P H) (lane : ℕ) (st : Stream P) (pool : Pool) (n : ℕ) (f : P) :
    { s with
      streams := s.streams.openNext lane st
      pool := pool }.course n f = (s.course n f).addAway (st.carried f) :=
  s.course_streams _ pool n f (m := 0)
    (Streams.total_openNext (fun st => st.carried f) s.streams lane st)

theorem course_unknownStream (s : State P H) (conn : ℕ) (what : String) (n : ℕ) (f : P) :
    (s.unknownStream conn what).course n f = s.course n f := by
  unfold unknownStream
  split <;> rfl

theorem course_io (s : State P H) (io : IoPool P) (n : ℕ) (f : P) {k : ℕ}
    (h : io.held f = s.io.held f + k) :
    { s with io := io }.course n f = (s.course n f).addAway k := by
  apply Course.ext <;> first | rfl | skip
  simp only [course, Course.addAway]
  omega

/-! ### Stages -/

theorem course_compare (s : State P H) (c : CompareStage P) (n : ℕ) (f : P) {k : ℕ}
    (h : c.held f = s.compare.held f + k) :
    { s with compare := c }.course n f = (s.course n f).addInside k := by
  apply Course.ext <;> first | rfl | skip
  simp only [course, inside, Course.addInside]
  omega

theorem course_hash (s : State P H) (h' : HashStage P H) (n : ℕ) (f : P) {k : ℕ}
    (h : h'.held f = s.hash.held f + k) :
    { s with hash := h' }.course n f = (s.course n f).addInside k := by
  apply Course.ext <;> first | rfl | skip
  simp only [course, inside, Course.addInside]
  omega

theorem course_delta (s : State P H) (d : DeltaStage P) (n : ℕ) (f : P) {k : ℕ}
    (h : d.book.held f = s.delta.book.held f + k)
    (hl : d.book.loose d.deltaSigRequested f = s.delta.book.loose s.delta.deltaSigRequested f) :
    { s with delta := d }.course n f = (s.course n f).addInside k := by
  apply Course.ext <;> first | rfl | exact hl | skip
  simp only [course, inside, Course.addInside]
  omega

theorem course_range (s : State P H) (r : FileRangeStage P) (n : ℕ) (f : P) {k : ℕ}
    (h : r.book.held f = s.range.book.held f + k) :
    { s with range := r }.course n f = (s.course n f).addInside k := by
  apply Course.ext <;> first | rfl | skip
  simp only [course, inside, Course.addInside]
  omega

end State

/-! ### Turns -/

/-- Every file moves. -/
def Turns (orderly : Bool) (s s' : State P H) : Prop :=
  ∀ n f, Moves kMaxTransferRetries orderly (s.course n f) (s'.course n f)

/-- Every file moves, and the attempts in hand come back. -/
def Returns (orderly : Bool) (k : P → ℕ) (s s' : State P H) : Prop :=
  ∀ n f, Moves kMaxTransferRetries orderly ((s.course n f).addAway (k f)) (s'.course n f)

/-- Every file moves, and `rel`, which was inside, is put somewhere. -/
def Lands (orderly : Bool) (rel : P) (s s' : State P H) : Prop :=
  ∀ n f, Moves kMaxTransferRetries orderly ((s.course n f).addInside (once rel f)) (s'.course n f)

variable {orderly : Bool} {s s₁ s' : State P H} {rel : P} {k k' : P → ℕ}

namespace Turns

theorem refl (s : State P H) : Turns orderly s s := fun _ _ => .refl

theorem trans (h : Turns orderly s s₁) (h' : Turns orderly s₁ s') : Turns orderly s s' :=
  fun n f => (h n f).trans (h' n f)

theorem of_eq (h : ∀ n f, s'.course n f = s.course n f) : Turns orderly s s' := by
  intro n f
  rw [h n f]

theorem foldl {α : Type} {step : State P H → α → State P H} (h : ∀ s a, Turns orderly s (step s a))
    (l : List α) (s : State P H) : Turns orderly s (l.foldl step s) := by
  induction l generalizing s with
  | nil => exact .refl s
  | cons a l ih => exact (h s a).trans (ih (step s a))

/-- Attempts that were taken in hand come back. -/
theorem of_returns (h : ∀ n f, s.course n f = (s₁.course n f).addAway (k f))
    (hr : Returns orderly k s₁ s') : Turns orderly s s' := by
  intro n f
  rw [h n f]
  exact hr n f

/-- A file that was taken from inside is put somewhere. -/
theorem of_lands (h : ∀ n f, s.course n f = (s₁.course n f).addInside (once rel f))
    (hl : Lands orderly rel s₁ s') : Turns orderly s s' := by
  intro n f
  rw [h n f]
  exact hl n f

/-- A file that was taken from inside is counted transferred. It may be loose from then on. -/
theorem finish (hrel : ∀ n, s.course n rel =
      { (s₁.course n rel).addInside 1 with loose := (s.course n rel).loose })
    (hothers : ∀ n f, f ≠ rel → s.course n f = s₁.course n f) :
    Turns orderly s (s₁.countTransferred rel) := by
  have htransferred : Outcome.transferred ≠ .unchanged := by decide
  intro n f
  have hc : (s₁.countTransferred rel).course n f =
      if rel = f then (s₁.course n f).resolve else s₁.course n f :=
    s₁.course_resolve rel htransferred n f
  rw [hc]
  by_cases hf : f = rel
  · subst hf
    rw [if_pos rfl, hrel n]
    exact .single (.finished { s₁.course n f with loose := (s.course n f).loose } _)
  · rw [if_neg (Ne.symm hf), hothers n f hf]

/-- A file that is loose or was counted before is scheduled. -/
theorem scheduleTransfer (s : State P H) (rel : P)
    (h : ∀ n, orderly = true → (s.course n rel).loose = true ∨ 0 < (s.course n rel).resolved) :
    Turns orderly s (s.scheduleTransfer rel) := by
  intro n f
  rw [State.course_scheduleTransfer]
  split
  · rename_i hs
    obtain ⟨rfl, hs⟩ := hs
    exact .single (.late _ (h n) (decide_eq_false hs))
  · exact .refl

end Turns

/-! ### Attempts that come back -/

namespace Returns

theorem append (h : Returns orderly k s s₁) (h' : Returns orderly k' s₁ s') :
    Returns orderly (fun f => k f + k' f) s s' := by
  intro n f
  have hm := (h n f).addAway (k' f)
  rw [Course.addAway_addAway] at hm
  exact hm.trans (h' n f)

theorem congr (h : Returns orderly k s s') (hk : ∀ f, k' f = k f) : Returns orderly k' s s' := by
  intro n f
  rw [hk f]
  exact h n f

theorem of_eq (h : ∀ n f, s'.course n f = (s.course n f).addAway (k f)) :
    Returns orderly k s s' := by
  intro n f
  rw [h n f]

/-- Some of the attempts are lost. -/
theorem lose (h : Returns orderly k s s') (k' : P → ℕ) :
    Returns orderly (fun f => k f + k' f) s s' := by
  intro n f
  rw [← Course.addAway_addAway]
  exact (Moves.lose _ _).trans (h n f)

theorem retryOrFail (s : State P H) (rel : P) : Returns orderly (once rel) s (s.retryOrFail rel) := by
  intro n f
  rw [State.course_retryOrFail]
  by_cases hf : rel = f
  · subst hf
    rw [once_self, if_pos rfl]
    split
    · rename_i hlt
      exact .single (.retried (s.course n rel) hlt)
    · exact .single (.settled _)
  · rw [once_ne hf, if_neg hf]
    exact .refl

/-- An attempt ends with a count of its file. -/
theorem resolve (s : State P H) (rel : P) {o : Outcome} (ho : o ≠ .unchanged) :
    Returns orderly (once rel) s
      { s with xfer := (s.xfer.count (some rel) o).forgetRetries rel } := by
  intro n f
  rw [s.course_resolve rel ho]
  by_cases hf : rel = f
  · subst hf
    rw [once_self, if_pos rfl]
    exact .single (.settled _)
  · rw [once_ne hf, if_neg hf]
    exact .refl

theorem countTransferred (s : State P H) (rel : P) :
    Returns orderly (once rel) s (s.countTransferred rel) :=
  resolve s rel (o := .transferred) (by decide)

theorem applyOut (s : State P H) (o : BatchOut P) :
    Returns orderly (once o.rel) s (s.applyOut o) := by
  cases o with
  | write task =>
    exact of_eq fun n f => s.course_io (s.io.dispatch task) n f (IoPool.held_dispatch s.io task f)
  | fail rel => exact resolve s rel (o := .failed) (by decide)
  | retry rel => exact retryOrFail s rel

theorem applyOuts (s : State P H) (outs : List (BatchOut P)) :
    Returns orderly (outsHeld outs) s (s.applyOuts outs) := by
  induction outs generalizing s with
  | nil => exact fun _ _ => .refl
  | cons o outs ih =>
    refine ((applyOut s o).append (ih (s.applyOut o))).congr fun f => ?_
    simp only [outsHeld, List.map_cons, List.count_cons, beq_iff_eq, once]
    omega

theorem retryAll (paths : List P) (s : State P H) :
    Returns orderly (fun f => paths.count f) s (paths.foldl State.retryOrFail s) := by
  induction paths generalizing s with
  | nil => exact fun _ _ => .refl
  | cons rel paths ih =>
    refine ((retryOrFail s rel).append (ih (s.retryOrFail rel))).congr fun f => ?_
    simp only [List.count_cons, beq_iff_eq, once]
    omega

end Returns

/-! ### Files that were inside -/

namespace Lands

/-- The file is dropped, or its count is no attempt's. -/
theorem of_left (h : ∀ n f, s'.course n f = s.course n f) : Lands orderly rel s s' := by
  intro n f
  rw [h n f]
  by_cases hf : rel = f
  · rw [hf, once_self]
    exact .single (.left _)
  · rw [once_ne hf]
    exact .refl

/-- The file stays inside. -/
theorem of_inside (h : ∀ n f, s'.course n f = (s.course n f).addInside (once rel f)) :
    Lands orderly rel s s' := by
  intro n f
  rw [h n f]

theorem count (s : State P H) (rel : P) : Lands orderly rel s (s.count (some rel) .unchanged) :=
  of_left fun n f => s.course_count (fun _ h => h.2 rfl) n f

theorem scheduleTransfer (s : State P H) (rel : P) :
    Lands orderly rel s (s.scheduleTransfer rel) := by
  intro n f
  rw [State.course_scheduleTransfer]
  by_cases hf : rel = f
  · subst hf
    rw [once_self]
    split
    · rename_i hs
      exact .single (.scheduled _ (decide_eq_false hs.2))
    · exact .single (.left _)
  · rw [once_ne hf, if_neg fun h => hf h.1]
    exact .refl

theorem tryEnterFileRange {cfg : Config} (h : s.tryEnterFileRange cfg rel = some s') :
    Lands orderly rel s s' := by
  obtain ⟨book, hb, rfl⟩ := State.tryEnterFileRange_eq_some h
  exact of_inside fun n f => s.course_range _ n f (RangeBook.held_manage hb f)

theorem tryEnterDelta {cfg : Config} {old : Bool} (h : s.tryEnterDelta cfg rel old = some s') :
    Lands orderly rel s s' := by
  obtain ⟨hnew, book, hb, rfl⟩ := State.tryEnterDelta_eq_some h
  exact of_inside fun n f =>
    s.course_delta _ n f (RangeBook.held_manage hb f) (RangeBook.loose_manage hb hnew)

theorem enterFileRangeOrSchedule (cfg : Config) (s : State P H) (rel : P) :
    Lands orderly rel s (s.enterFileRangeOrSchedule cfg rel) := by
  unfold State.enterFileRangeOrSchedule
  cases h : s.tryEnterFileRange cfg rel with
  | none => exact scheduleTransfer s rel
  | some s' => exact tryEnterFileRange h

theorem enterOrSchedule (cfg : Config) (s : State P H) (rel : P) (old : Bool) :
    Lands orderly rel s (s.enterOrSchedule cfg rel old) := by
  unfold State.enterOrSchedule
  cases h : s.tryEnterDelta cfg rel old with
  | none => exact enterFileRangeOrSchedule cfg s rel
  | some s' => exact tryEnterDelta h

end Lands

namespace Turns

/-! ### Compare and hash stages -/

theorem of_compare (s : State P H) {c : CompareStage P} (h : ∀ f, c.held f = s.compare.held f) :
    Turns orderly s { s with compare := c } :=
  of_eq fun n f => s.course_compare c n f (k := 0) (h f)

theorem of_hash (s : State P H) {h' : HashStage P H} (h : HashStage.Same s.hash h') :
    Turns orderly s { s with hash := h' } :=
  of_eq fun n f => s.course_hash h' n f (k := 0) (h.held f)

theorem drainCompare (cfg : Config) (s : State P H) (old : Bool) :
    Turns orderly s (s.drainCompare cfg old) := by
  unfold State.drainCompare
  split
  · exact .refl s
  · rename_i r c h
    have hcourse : ∀ n f, s.course n f = (({ s with compare := c } : State P H).course n f).addInside (once r.1 f) :=
      fun n f => State.course_compare { s with compare := c } s.compare n f (CompareStage.held_drainOne h f)
    refine of_lands hcourse ?_
    · unfold State.handleCompareResult
      split
      · exact Lands.enterOrSchedule cfg _ r.1 old
      · exact Lands.count _ r.1
      · by_cases hr : r.1 ∈ s.hash.hashRequested
        · rw [HashStage.request_again hr]
          exact Lands.of_left fun _ _ => rfl
        · exact Lands.of_inside fun n f =>
            State.course_hash { s with compare := c } _ n f (HashStage.held_request hr f)

theorem dispatchHashRequests (cfg : Config) (s : State P H) (lane : ℕ) (sendOk : Bool) (reached : ℕ) :
    Turns orderly s (s.dispatchHashRequests cfg lane sendOk reached) := by
  unfold State.dispatchHashRequests
  split
  · exact .refl s
  · split
    · exact of_hash s (HashStage.same_dispatch _ _ _ _)
    · exact of_hash s (HashStage.same_dispatch _ lane reached s.hash)

section

variable [DecidableEq H]

/-- A waiting file that is resolved leaves the hash stage. -/
theorem of_resolve (hr : rel ∈ s.hash.hashRequested) (hn : rel ∉ s.hash.hashResolved)
    (h : Lands orderly rel { s with hash := s.hash.resolve rel } s') : Turns orderly s s' := by
  refine of_lands (fun n f => ?_) h
  exact State.course_hash { s with hash := s.hash.resolve rel } s.hash n f
    (HashStage.held_resolve hr hn f)

theorem resolveCandidate (cfg : Config) (s : State P H) (rel : P) (old : Bool) :
    Turns orderly s (s.resolveCandidate cfg rel old) := by
  rcases s.resolveCandidate_eq cfg rel old with h | ⟨hr, hn, h | h⟩
  · rw [h]
    exact .refl s
  · rw [h]
    exact of_resolve hr hn (Lands.enterOrSchedule cfg _ rel old)
  · rw [h]
    exact of_resolve hr hn (Lands.count _ rel)

theorem resolveFallback (cfg : Config) (s : State P H) (old : Bool) :
    Turns orderly s (s.resolveFallback cfg old) := by
  unfold State.resolveFallback
  split
  · exact .refl s
  · rename_i rel rest _
    have h₁ : Turns orderly s { s with hash := { s.hash with fallbackReadyQueue := rest } } :=
      of_eq fun _ _ => rfl
    exact h₁.trans (resolveCandidate cfg _ rel old)

theorem forceTransfer (s : State P H) (hr : rel ∈ s.hash.hashRequested) :
    Turns orderly s (s.forceTransfer rel) := by
  unfold State.forceTransfer
  split
  · exact .refl s
  · rename_i hn
    exact of_resolve hr hn (Lands.scheduleTransfer { s with hash := s.hash.resolve rel } rel)

theorem forceTransfers (unresolved : List P) (s : State P H)
    (hr : ∀ rel ∈ unresolved, rel ∈ s.hash.hashRequested) :
    Turns orderly s (unresolved.foldl State.forceTransfer s) := by
  induction unresolved generalizing s with
  | nil => exact .refl s
  | cons rel unresolved ih =>
    refine (forceTransfer s (hr rel List.mem_cons_self)).trans (ih (s.forceTransfer rel) ?_)
    intro r hmem
    rw [State.requested_forceTransfer]
    exact hr r (List.mem_cons_of_mem _ hmem)

theorem sweep (cfg : Config) (s : State P H) (unresolved : List P) (old : P → Bool)
    (hr : ∀ rel ∈ unresolved, rel ∈ s.hash.hashRequested) :
    Turns orderly s (s.sweepUnresolvedFallbackIfQuiescent cfg unresolved old) := by
  unfold State.sweepUnresolvedFallbackIfQuiescent
  split
  · extract_lets ready src s₁ s₂
    have h₁ : Turns orderly s s₁ := of_eq fun _ _ => rfl
    -- first what is ready, then the rest by force
    have h₂ : Turns orderly s₁ s₂ :=
      foldl (fun s rel => resolveCandidate cfg s rel (old rel)) ready s₁
    have hreq : s₂.hash.hashRequested = s.hash.hashRequested := by
      have hgo : ∀ (l : List P) (s : State P H),
          (l.foldl (fun s rel => s.resolveCandidate cfg rel (old rel)) s).hash.hashRequested =
            s.hash.hashRequested := by
        intro l
        induction l with
        | nil => exact fun _ => rfl
        | cons rel l ih =>
          intro s
          rw [List.foldl_cons, ih, State.requested_resolveCandidate]
      exact hgo ready s₁
    refine (h₁.trans h₂).trans (forceTransfers unresolved s₂ fun rel hmem => ?_)
    rw [hreq]
    exact hr rel hmem
  · exact .refl s

end

/-! ### Ranges -/

theorem of_delta (s : State P H) {d : DeltaStage P} (hh : ∀ f, d.book.held f = s.delta.book.held f)
    (hl : ∀ f, d.book.loose d.deltaSigRequested f = s.delta.book.loose s.delta.deltaSigRequested f) :
    Turns orderly s { s with delta := d } :=
  of_eq fun n f => s.course_delta d n f (k := 0) (hh f) (hl f)

theorem of_range (s : State P H) {r : FileRangeStage P}
    (hh : ∀ f, r.book.held f = s.range.book.held f) : Turns orderly s { s with range := r } :=
  of_eq fun n f => s.course_range r n f (k := 0) (hh f)

/-- A delta file is given up, and goes on in another way. -/
theorem of_abandonDelta {d : DeltaStage P} (h : Lands orderly rel { s with delta := d } s')
    {b : RangeBook P} (hm : rel ∈ b.states) (hh : ∀ f, b.held f = s.delta.book.held f)
    (hl : ∀ f, b.loose s.delta.deltaSigRequested f = s.delta.book.loose s.delta.deltaSigRequested f)
    (hd : d.book = b.abandon rel)
    (ha : ∀ f, f ≠ rel → (f ∈ d.deltaSigRequested ↔ f ∈ s.delta.deltaSigRequested)) :
    Turns orderly s s' := by
  refine of_lands (fun n f => ?_) h
  refine State.course_delta { s with delta := d } s.delta n f ?_ ?_
  · rw [← hh f, hd]
    exact RangeBook.held_abandon hm f
  · show _ = d.book.loose d.deltaSigRequested f
    rw [← hl f, hd]
    exact (RangeBook.loose_abandon hm (ha f)).symm

/-- A block-mode file is given up, and goes on in another way. -/
theorem of_abandonRange {r : FileRangeStage P} (h : Lands orderly rel { s with range := r } s')
    {b : RangeBook P} (hm : rel ∈ b.states) (hh : ∀ f, b.held f = s.range.book.held f)
    (hr : r.book = b.abandon rel) : Turns orderly s s' := by
  refine of_lands (fun n f => ?_) h
  refine State.course_range { s with range := r } s.range n f ?_
  rw [← hh f, hr]
  exact RangeBook.held_abandon hm f

theorem finalizeDelta (cfg : Config) (s : State P H) (rel : P) (fin : TempFinalizeResult) :
    Turns orderly s (s.finalizeDelta cfg rel fin) := by
  unfold State.finalizeDelta
  split
  · exact .refl s
  · rename_i st hst
    have hm : rel ∈ (s.delta.book.noteFinalized rel st).states := State.mem_of_lookup hst
    extract_lets book
    split
    · refine finish (fun n => ?_) (fun n f hf => ?_)
      · have hh := RangeBook.held_forget hm rel
        rw [if_pos rfl] at hh
        apply Course.ext <;> first | rfl | skip
        have hh' : s.delta.book.held rel = (book.forget rel).held rel + 1 := hh
        simp only [State.course, State.inside, Course.addInside, hh']
        omega
      · have hh := RangeBook.held_forget hm f
        rw [if_neg (Ne.symm hf)] at hh
        refine State.course_delta { s with delta := { s.delta with book := book.forget rel } } s.delta
          n f (k := 0) hh ?_
        exact (RangeBook.loose_forget_of_ne (b := book) hf).symm
    · exact of_abandonDelta (Lands.enterFileRangeOrSchedule cfg _ rel) hm (fun _ => rfl)
        (fun _ => rfl) rfl fun _ _ => .rfl

theorem finalizeFileRange (s : State P H) (rel : P) (fin : TempFinalizeResult) :
    Turns orderly s (s.finalizeFileRange rel fin) := by
  unfold State.finalizeFileRange
  split
  · exact .refl s
  · rename_i st hst
    have hm : rel ∈ (s.range.book.noteFinalized rel st).states := State.mem_of_lookup hst
    extract_lets book
    split
    · have hc : ∀ n f, s.course n f = (State.course { s with range := { s.range with
          book := book.forget rel } } n f).addInside (once rel f) := fun n f =>
        State.course_range { s with range := { s.range with book := book.forget rel } } s.range n f
          (RangeBook.held_forget hm f)
      refine finish (fun n => ?_) (fun n f hf => ?_)
      · have h := hc n rel
        rw [once_self] at h
        rw [h]
      · rw [hc n f, once_ne (Ne.symm hf)]
        rfl
    · exact of_abandonRange (Lands.scheduleTransfer _ rel) hm (fun _ => rfl) rfl

theorem applyDeltaPlanResult (cfg : Config) (s : State P H) (fin : TempFinalizeResult) :
    Turns orderly s (s.applyDeltaPlanResult cfg fin) := by
  unfold State.applyDeltaPlanResult
  split
  · exact .refl s
  · rename_i r d hd
    obtain ⟨-, hb, ha, -⟩ := State.drainPlan_eq_some hd
    split
    · exact of_delta s (fun f => by rw [hb]) (fun f => by rw [hb, ha])
    · rename_i st hst
      have hm : r.rel ∈ d.book.states := State.mem_of_lookup hst
      split
      · exact of_abandonDelta (Lands.enterFileRangeOrSchedule cfg _ r.rel) hm (fun f => by rw [hb])
          (fun f => by rw [hb]) rfl fun f _ => by rw [ha]
      · rename_i ranges _
        extract_lets s₁
        have h₁ : Turns orderly s s₁ := by
          refine of_delta s (fun f => ?_) (fun f => ?_)
          · rw [RangeBook.held_adopt, hb]
          · rw [← hb, ← ha]
            exact d.book.loose_update _ r.rel _ f
        split
        · exact h₁.trans (finalizeDelta cfg s₁ r.rel fin)
        · exact h₁

theorem pumpDeltaSignatures (cfg : Config) (s : State P H) (lane : ℕ) (sendOk : Bool) (reached : ℕ) :
    Turns orderly s (s.pumpDeltaSignatures cfg lane sendOk reached) := by
  unfold State.pumpDeltaSignatures
  extract_lets room r
  split
  · exact of_eq fun _ _ => rfl
  · split
    · refine of_delta s (fun _ => rfl) fun f => ?_
      by_cases hf : f ∈ s.delta.book.states
      · rw [RangeBook.loose_of_mem hf, RangeBook.loose_of_mem hf]
      · refine RangeBook.loose_congr ?_ .rfl .rfl
        -- only delta files are asked for
        rw [Finset.mem_union, List.mem_toFinset]
        refine or_iff_left fun hmem => hf ?_
        have hmanaged := State.mem_sigBatch hmem
        exact of_decide_eq_true hmanaged
    · exact of_eq fun _ _ => rfl

theorem openRange (s : State P H) (lane : ℕ) {st : Stream P} (h : ∀ f, st.carried f = 0) (pool : Pool) :
    Turns orderly s
      { s with
        streams := s.streams.openNext lane st
        pool := pool } := by
  refine of_eq fun n f => ?_
  rw [s.course_openNext lane st pool n f, h f]
  rfl

theorem tryStartDeltaRange (cfg : Config) (s : State P H) (lane : ℕ) (sendOk : Bool) :
    Turns orderly s (s.tryStartDeltaRange cfg lane sendOk) := by
  unfold State.tryStartDeltaRange
  split
  · exact .refl s
  · rename_i t rest _
    extract_lets popped
    have h₁ : Turns orderly s { s with delta := popped } := of_eq fun _ _ => rfl
    split
    · exact h₁
    · split
      · split
        · exact h₁.trans (openRange { s with delta := popped } lane (fun _ => rfl) (s.pool.acquireSlot lane))
        · exact of_eq fun _ _ => rfl
      · exact .refl s

theorem tryStartFileRange (cfg : Config) (s : State P H) (lane : ℕ) (sendOk : Bool) :
    Turns orderly s (s.tryStartFileRange cfg lane sendOk) := by
  unfold State.tryStartFileRange
  split
  · exact .refl s
  · rename_i t rest _
    extract_lets popped
    have h₁ : Turns orderly s { s with range := popped } := of_eq fun _ _ => rfl
    split
    · exact h₁
    · split
      · split
        · exact h₁.trans (openRange { s with range := popped } lane (fun _ => rfl) (s.pool.acquireSlot lane))
        · exact of_eq fun _ _ => rfl
      · exact .refl s

theorem beginFileRangePlan (cfg : Config) (s : State P H) (openOk : Bool) (fin : TempFinalizeResult) :
    Turns orderly s (s.beginFileRangePlan cfg openOk fin) := by
  unfold State.beginFileRangePlan
  split
  · exact .refl s
  · rename_i rel rest _
    extract_lets src s₁
    have h₁ : Turns orderly s s₁ := of_eq fun _ _ => rfl
    split
    · exact h₁
    · rename_i st hst
      have hm : rel ∈ s₁.range.book.states := State.mem_of_lookup hst
      split
      · exact h₁
      · split
        · exact h₁.trans (of_abandonRange (Lands.scheduleTransfer _ rel) hm (fun _ => rfl) rfl)
        · extract_lets plan s₂
          have h₂ : Turns orderly s₁ s₂ := of_range s₁ fun f => RangeBook.held_adopt _ _ _ _ f
          split
          · exact (h₁.trans h₂).trans (finalizeFileRange s₂ rel fin)
          · exact h₁.trans h₂

/-! ### Transfers -/

/-- Files that are taken from a queue are opened, and then in hand. -/
theorem take (s : State P H) (q : Transfers.Queue) {l : List P} {n : ℕ} {f : P} {m : ℕ}
    (hq : (s.xfer.queue q).count f = l.count f + m) :
    Moves kMaxTransferRetries orderly (s.course n f)
      ((State.course { s with xfer := s.xfer.setQueue l q } (n + m) f).addAway m) := by
  have hc := s.course_queued s.xfer (s.xfer.setQueue_frame l q) n f
  have hqueued := s.xfer.queued_setQueue l q f
  -- before, the `m` files were in the queue once more each
  have hs : s.course n f =
      { State.course { s with xfer := s.xfer.setQueue l q } n f with
        queued := (s.xfer.setQueue l q).queued f + m } := by
    rw [hc]
    apply Course.ext <;> first | rfl | skip
    simp only [State.course]
    omega
  rw [hs]
  exact .open (State.course { s with xfer := s.xfer.setQueue l q } n f) m

theorem startBatch (cfg : Config) (s : State P H) (q : Transfers.Queue) (lane : ℕ) (sendOk : Bool)
    (n : ℕ) (f : P) :
    Moves kMaxTransferRetries orderly (s.course n f)
      ((s.startBatch cfg q lane sendOk).course (n + (s.batchPaths cfg q lane).count f) f) := by
  unfold State.startBatch State.batchPaths
  split
  · generalize Transfers.batchTake s.size s.xfer.smallBatchMaxFiles s.xfer.smallBatchMaxBytes
      (s.xfer.queue q) 0 0 = t
    extract_lets _ batchPaths s₁
    have hq : (s.xfer.queue q).count f = ((s.xfer.queue q).drop t).count f + batchPaths.count f := by
      rw [Nat.add_comm]
      exact (CompareStage.count_take_drop _ t f).symm
    -- the files of the batch leave the queue, and are opened
    refine (take s q hq).trans ?_
    split
    · exact Moves.lose _ _
    · split
      · have hopen := s₁.course_openNext lane (.batch batchPaths {}) (s₁.pool.acquireSlot lane)
          (n + batchPaths.count f) f
        have hcarried : (Stream.batch batchPaths {}).carried f = batchPaths.count f := Nat.zero_add _
        rw [hcarried] at hopen
        exact hopen ▸ .refl
      -- the send failed: every file is tried again or counted failed
      · exact Returns.retryAll batchPaths
          { s₁ with
            streams := s₁.streams.skipId lane
            pool := s₁.pool.markConnDown lane } (n + batchPaths.count f) f
  · exact .refl

theorem startDownload (cfg : Config) (s : State P H) (q : Transfers.Queue) (globalSlotCap lane : ℕ)
    (openOk sendOk : Bool) (n : ℕ) (f : P) :
    Moves kMaxTransferRetries orderly (s.course n f)
      ((s.startDownload cfg q globalSlotCap lane openOk sendOk).course
        (n + (s.downloadPath cfg q globalSlotCap lane).count f) f) := by
  unfold State.startDownload State.downloadPath
  extract_lets reservedBatchSlots
  split
  · exact .refl
  · cases hqueue : s.xfer.queue q with
    | nil => exact .refl
    | cons rel rest =>
      dsimp only
      split
      · have hcount : [rel].count f = once rel f := by
          rw [List.count_singleton]
          simp only [beq_iff_eq, once]
        have hq : (s.xfer.queue q).count f = rest.count f + once rel f := by
          rw [hqueue, List.count_cons]
          simp only [beq_iff_eq, once]
        rw [hcount]
        refine (take s q hq).trans ?_
        split
        · exact Returns.retryOrFail _ rel (n + once rel f) f
        · have hopen := State.course_openNext { s with xfer := s.xfer.setQueue rest q } lane
            (.download rel) (if sendOk then s.pool.acquireSlot lane else s.pool.markConnDown lane)
            (n + once rel f) f
          have hcarried : (Stream.download rel).carried f = once rel f := rfl
          rw [hcarried] at hopen
          exact hopen ▸ .refl
      · exact .refl

/-- One turn of the loop of `tryStartTransfers` opens what it takes. -/
theorem tryStartTransfer (cfg : Config) (s : State P H) (lane healthyAtStart : ℕ)
    (openOk sendOk : Bool) (n : ℕ) (f : P) :
    Moves kMaxTransferRetries orderly (s.course n f)
      ((s.tryStartTransfer cfg lane healthyAtStart openOk sendOk).course
        (n + (s.startedPaths cfg lane healthyAtStart).count f) f) := by
  unfold State.tryStartTransfer State.startedPaths
  extract_lets globalSlotCap
  split
  · exact .refl
  · split
    · exact .refl
    · cases s.xfer.nextQueue with
      | none => exact .refl
      | some q =>
        cases q with
        | batch => exact startBatch cfg s .batch lane sendOk n f
        | retryBatch => exact startBatch cfg s .retryBatch lane sendOk n f
        | regular => exact startDownload cfg s .regular globalSlotCap lane openOk sendOk n f
        | retryRegular => exact startDownload cfg s .retryRegular globalSlotCap lane openOk sendOk n f

theorem of_io (s : State P H) {io : IoPool P} (h : ∀ f, io.held f = s.io.held f) :
    Turns orderly s { s with io := io } :=
  of_eq fun n f => s.course_io io n f (k := 0) (h f)

theorem refresh (streamLimit : ℕ) (s : State P H) :
    Turns orderly s { s with xfer := s.xfer.refreshSmallBatchTuning streamLimit } := by
  refine of_eq fun n f => ?_
  unfold Transfers.refreshSmallBatchTuning
  extract_lets backlog t
  split <;> rfl

theorem rebalance (s : State P H) :
    Turns orderly s { s with xfer := s.xfer.rebalanceTransfersTowardBatch s.size } := by
  refine of_eq fun n f => ?_
  have hheld := Transfers.held_rebalance s.size s.xfer f
  have hframe : (s.xfer.rebalanceTransfersTowardBatch s.size).transferRetryCounts =
        s.xfer.transferRetryCounts ∧
      (s.xfer.rebalanceTransfersTowardBatch s.size).tally = s.xfer.tally ∧
      (s.xfer.rebalanceTransfersTowardBatch s.size).scheduledTransfers =
        s.xfer.scheduledTransfers := by
    unfold Transfers.rebalanceTransfersTowardBatch
    split <;> exact ⟨rfl, rfl, rfl⟩
  rw [s.course_queued s.xfer hframe]
  simp only [Transfers.held, Transfers.counted, hframe.2.1, Nat.add_right_cancel_iff] at hheld
  rw [hheld]
  rfl

theorem drainIo (s : State P H) : Turns orderly s s.drainIo := by
  unfold State.drainIo
  split
  · exact .refl s
  · rename_i r io h
    have hc : ∀ n f, s.course n f = (State.course { s with io := io } n f).addAway (once r.1 f) :=
      fun n f => State.course_io { s with io := io } s.io n f (IoPool.held_drainOne h f)
    split
    · exact of_returns hc (Returns.countTransferred _ r.1)
    · exact of_returns hc (Returns.retryOrFail _ r.1)

/-! ### Frames -/

theorem unknownStream (s : State P H) (conn : ℕ) (what : String) :
    Turns orderly s (s.unknownStream conn what) :=
  of_eq fun n f => s.course_unknownStream conn what n f

/-- A batch stream that ends gives back the files of its unfinished entries. What it asked for
and was not answered is lost. -/
theorem closeBatch {k : Key} {requested : List P} {b : BatchDownloadState P}
    (hk : s.streams.find k = some (.batch requested b)) (pool : Pool)
    (g : BatchDownloadEntry P → List (BatchOut P)) (hg : ∀ e f, outsHeld (g e) f = e.held f) :
    Turns orderly s
      ({ s with
        streams := s.streams.close k
        pool := pool }.applyOuts (b.entries.flatMap g)) := by
  refine of_returns (fun n f => State.course_close hk pool n f) ?_
  refine ((Returns.applyOuts _ _).lose fun f =>
    if b.headerReady then 0 else requested.count f).congr fun f => ?_
  rw [outsHeld_entries g f fun e => hg e f]
  rfl

theorem fileBatchOpen (s : State P H) (k : Key) (records : List (BatchFileRecord P))
    (hc : ∀ requested b, s.streams.find k = some (.batch requested b) →
      b.headerReady = false ∧ records.map BatchFileRecord.relativePath = requested) :
    Turns orderly s (s.fileBatchOpen k records) := by
  unfold State.fileBatchOpen
  split
  · rename_i requested b hk
    obtain ⟨hr, hp⟩ := hc requested b hk
    extract_lets r
    -- the entries of the reply and the requests it finishes at once are what was asked for
    have hcarried : ∀ f, (Stream.batch requested b).carried f =
        outsHeld r.2 f + entriesHeld b.entries f + (Stream.batch requested r.1).carried f := by
      intro f
      have hheld : entriesHeld r.1.entries f + outsHeld r.2 f = requested.count f := by
        rw [← hp]
        exact batchOpen_held records f
      have hready : r.1.headerReady = true := rfl
      simp only [Stream.carried, hr, hready, Bool.false_eq_true, if_false, if_true]
      omega
    -- entries from before the reply are lost
    refine of_returns (fun n f => ?_)
      ((Returns.applyOuts _ r.2).lose fun f => entriesHeld b.entries f)
    have hu := State.course_update hk (.batch requested r.1) n f
    rw [hcarried f, ← Course.addAway_addAway] at hu
    exact (Course.addAway_inj hu).symm
  · exact unknownStream s _ _

theorem fileBatchChunk (s : State P H) (k : Key) (payload : List UInt8) :
    Turns orderly s (s.fileBatchChunk k payload) := by
  unfold State.fileBatchChunk
  split
  · rename_i requested b hk
    split
    · rename_i hr
      extract_lets r
      have hcarried : ∀ f, (Stream.batch requested b).carried f =
          outsHeld r.2 f + (Stream.batch requested r.1).carried f := by
        intro f
        have hheld : entriesHeld b.entries f = entriesHeld r.1.entries f + outsHeld r.2 f :=
          batchChunk_held b payload f
        have hready : r.1.headerReady = true := hr
        simp only [Stream.carried, hr, hready, if_true]
        omega
      refine of_returns (fun n f => ?_) (Returns.applyOuts _ r.2)
      have hu := State.course_update hk (.batch requested r.1) n f
      rw [hcarried f, ← Course.addAway_addAway] at hu
      exact (Course.addAway_inj hu).symm
    · exact of_eq fun _ _ => rfl
  · exact unknownStream s _ _

theorem fileBatchEnd (s : State P H) (k : Key) : Turns orderly s (s.fileBatchEnd k) := by
  unfold State.fileBatchEnd
  split
  · rename_i requested b hk
    exact closeBatch hk _ endBatchEntry endBatchEntry_held
  · exact unknownStream s _ _

theorem fileChunk (s : State P H) (k : Key) : Turns orderly s (s.fileChunk k) := by
  unfold State.fileChunk
  split
  · exact .refl s
  · exact unknownStream s _ _

theorem fileEnd (s : State P H) (k : Key) (ok : Bool) : Turns orderly s (s.fileEnd k ok) := by
  unfold State.fileEnd
  split
  · rename_i rel hk
    have hc : ∀ n f, s.course n f = ((s.closeStream k).course n f).addAway (once rel f) :=
      fun n f => State.course_closeStream hk n f
    split
    · exact of_returns hc (Returns.countTransferred _ rel)
    · exact of_returns hc (Returns.retryOrFail _ rel)
  · exact unknownStream s _ _

theorem fileError (s : State P H) (k : Key) : Turns orderly s (s.fileError k) := by
  unfold State.fileError
  split
  · rename_i requested b hk
    exact closeBatch hk _ errorBatchEntry errorBatchEntry_held
  · rename_i rel hk
    exact of_returns (fun n f => State.course_closeStream hk n f) (Returns.retryOrFail _ rel)
  · refine of_eq fun n f => ?_
    exact State.course_count { s with pool := s.pool.releaseSlot k.1 } (fun _ h => by cases h.1) n f

theorem blockSigResponse (s : State P H) (conn : ℕ) (rel : P) :
    Turns orderly s (s.blockSigResponse conn rel) := by
  unfold State.blockSigResponse
  extract_lets src d
  split
  · exact of_eq fun _ _ => rfl
  · split
    · exact of_eq fun _ _ => rfl
    · exact of_delta s (fun f => RangeBook.held_update _ _ _ f)
        (fun f => RangeBook.loose_update _ _ _ _ f)

/-- A range stream that ends had no file in hand. -/
theorem closeRange {k : Key} {st : Stream P} (hk : s.streams.find k = some st)
    (h : ∀ f, st.carried f = 0) (pool : Pool) :
    Turns orderly s
      { s with
        streams := s.streams.close k
        pool := pool } := by
  refine of_eq fun n f => ?_
  rw [State.course_close hk pool n f, h f]
  rfl

theorem updateRange {k : Key} {st st' : Stream P} (hk : s.streams.find k = some st)
    (h : ∀ f, st'.carried f = st.carried f) :
    Turns orderly s { s with streams := s.streams.update k st' } :=
  of_eq fun n f => State.course_update_same hk n f (h f)

theorem deltaRangeChunk (s : State P H) (k : Key) (len : ℕ) :
    Turns orderly s (s.deltaRangeChunk k len) := by
  unfold State.deltaRangeChunk
  split
  · rename_i r hk
    exact updateRange hk fun _ => rfl
  · exact unknownStream s _ _

theorem fileRangeData (s : State P H) (k : Key) (len : ℕ) :
    Turns orderly s (s.fileRangeData k len) := by
  unfold State.fileRangeData
  split
  · rename_i r hk
    exact updateRange hk fun _ => rfl
  · exact unknownStream s _ _

theorem deltaRangeEnd (cfg : Config) (s : State P H) (k : Key) (fin : TempFinalizeResult) :
    Turns orderly s (s.deltaRangeEnd cfg k fin) := by
  unfold State.deltaRangeEnd
  split
  · rename_i r hk
    have h₁ : Turns orderly s (s.closeStream k) := closeRange hk (fun _ => rfl) _
    extract_lets s₁
    split
    · exact h₁
    · rename_i st _
      extract_lets s₂
      have h₂ : Turns orderly s₁ s₂ := of_delta s₁ (fun f => RangeBook.held_endRange _ _ _ _ f)
        (fun f => RangeBook.loose_update _ _ _ _ f)
      split
      · exact (h₁.trans h₂).trans (finalizeDelta cfg s₂ r.rel fin)
      · exact h₁.trans h₂
  · exact unknownStream s _ _

theorem fileRangeEnd (s : State P H) (k : Key) (fin : TempFinalizeResult) :
    Turns orderly s (s.fileRangeEnd k fin) := by
  unfold State.fileRangeEnd
  split
  · rename_i r hk
    have h₁ : Turns orderly s (s.closeStream k) := closeRange hk (fun _ => rfl) _
    extract_lets s₁
    split
    · exact h₁
    · rename_i st _
      extract_lets s₂
      have h₂ : Turns orderly s₁ s₂ := of_range s₁ fun f => RangeBook.held_endRange _ _ _ _ f
      split
      · exact (h₁.trans h₂).trans (finalizeFileRange s₂ r.rel fin)
      · exact h₁.trans h₂
  · exact unknownStream s _ _

/-! ### Errors of ranges -/

/-- Files may stop to be loose. -/
theorem of_tightened (s : State P H) {d : DeltaStage P}
    (hh : ∀ f, d.book.held f = s.delta.book.held f)
    (hl : ∀ f, d.book.loose d.deltaSigRequested f = false ∨
      d.book.loose d.deltaSigRequested f = s.delta.book.loose s.delta.deltaSigRequested f) :
    Turns orderly s { s with delta := d } := by
  intro n f
  rcases hl f with h | h
  · have htight : State.course { s with delta := d } n f =
        { s.course n f with loose := false } := by
      apply Course.ext <;> first | rfl | exact h | skip
      simp only [State.course, State.inside, hh f]
    rw [htight]
    exact .single (.tightened _)
  · rw [s.course_delta d n f (k := 0) (hh f) h]
    exact .refl

theorem deltaErrorFor (s : State P H) (tagged : Bool) (rel : P) :
    Turns orderly s (s.deltaErrorFor tagged rel) := by
  unfold State.deltaErrorFor
  extract_lets st wasManaged releases src d
  -- a managed file is given up; another is scheduled only if it was asked for
  by_cases hm : rel ∈ s.delta.book.states
  · have hna := s.delta.book.disjoint rel hm
    have hcond : (wasManaged && decide (rel ∉ s.delta.book.abandoned)) = true := by
      simp only [wasManaged, st, AList.lookup_isSome.2 hm, hna, Bool.true_or, Bool.true_and,
        not_false_eq_true, decide_true]
    rw [if_pos hcond]
    refine of_abandonDelta (Lands.scheduleTransfer _ rel) hm (fun _ => rfl) (fun _ => rfl) rfl ?_
    intro f hf
    -- only the window slot of `rel` itself is released
    show f ∈ (if releases then s.delta.deltaSigRequested.erase rel else s.delta.deltaSigRequested) ↔ _
    split
    · exact Finset.mem_erase.trans (and_iff_right hf)
    · exact .rfl
  · have hst : st = none := AList.lookup_eq_none.2 hm
    have hrel : releases = false := by
      simp only [releases, hst, Option.isSome_none, State.deltaErrorReleasesSigSlot, Bool.and_false,
        Bool.false_and]
    have hasked : d.deltaSigRequested = s.delta.deltaSigRequested := by
      show (if releases then _ else _) = _
      rw [hrel]
      rfl
    split
    · rename_i hcond
      simp only [wasManaged, hst, Option.isSome_none, Bool.false_or, Bool.and_eq_true,
        decide_eq_true_eq] at hcond
      -- a file that was asked for, and is over: it is scheduled once more
      have hl : ∀ n, orderly = true →
          (s.course n rel).loose = true ∨ 0 < (s.course n rel).resolved := by
        intro n _
        left
        simp [State.course, RangeBook.loose, hcond.1, hm, hcond.2]
      refine (scheduleTransfer s rel hl).trans
        (of_tightened (s.scheduleTransfer rel) (fun f => RangeBook.held_abandon_absent hm f)
          fun f => ?_)
      by_cases hf : f = rel
      · subst hf
        exact .inl (RangeBook.loose_of_abandoned (Finset.mem_insert_self f _))
      · refine .inr (RangeBook.loose_congr ?_
          (RangeBook.mem_of_held (RangeBook.held_abandon_absent hm f))
          (Finset.mem_insert.trans (or_iff_right hf)))
        show f ∈ d.deltaSigRequested ↔ f ∈ s.delta.deltaSigRequested
        rw [hasked]
    · refine of_delta s (fun f => RangeBook.held_forget_absent hm f) fun f => ?_
      show (s.delta.book.forget rel).loose d.deltaSigRequested f = _
      rw [hasked]
      exact RangeBook.loose_forget_absent hm

theorem deltaError (s : State P H) (k : Key) (rel : P) : Turns orderly s (s.deltaError k rel) := by
  unfold State.deltaError
  split
  · rename_i r hr
    have hk : s.streams.find k = some (.deltaRange r) := by
      unfold State.deltaTag at hr
      split at hr
      · rename_i r' hk
        rw [hk, Option.some.inj hr]
      · cases hr
    exact (closeRange hk (fun _ => rfl) _).trans (deltaErrorFor (s.closeStream k) true r.rel)
  · have h₁ : Turns orderly s { s with delta := { s.delta with
        sigJobs := if k.2 = 0 then s.delta.sigJobs.erase (k.1, rel)
          else s.delta.sigJobs } } := of_eq fun _ _ => rfl
    exact h₁.trans (deltaErrorFor _ false rel)

theorem fileRangeErrorFor (s : State P H) (rel : P)
    (h : orderly = true → rel ∈ s.range.book.states ∨ rel ∈ s.range.book.abandoned ∨
      0 < s.xfer.resolved rel) : Turns orderly s (s.fileRangeErrorFor rel) := by
  unfold State.fileRangeErrorFor
  split
  · rename_i ha
    have hm : rel ∉ s.range.book.states := fun hm => s.range.book.disjoint rel hm ha
    exact of_range s fun f => RangeBook.held_forget_absent hm f
  · rename_i ha
    by_cases hm : rel ∈ s.range.book.states
    · exact of_abandonRange (Lands.scheduleTransfer _ rel) hm (fun _ => rfl) rfl
    · have h₁ : Turns orderly s
          { s with range := { s.range with book := s.range.book.abandon rel } } :=
        of_range s fun f => RangeBook.held_abandon_absent hm f
      refine h₁.trans (scheduleTransfer _ rel fun n horderly => ?_)
      -- in an orderly run the file was in block mode, so it is over
      rcases h horderly with h | h | h
      · exact absurd h hm
      · exact absurd h ha
      · exact .inr h

theorem fileRangeError (s : State P H) (k : Key) (rel : P)
    (h : orderly = true → s.fileRangeErrorFile k rel ∈ s.range.book.states ∨
      s.fileRangeErrorFile k rel ∈ s.range.book.abandoned ∨
        0 < s.xfer.resolved (s.fileRangeErrorFile k rel)) :
    Turns orderly s (s.fileRangeError k rel) := by
  unfold State.fileRangeError
  unfold State.fileRangeErrorFile at h
  split
  · rename_i r hk
    simp only [hk] at h
    exact (closeRange hk (fun _ => rfl) _).trans (fileRangeErrorFor (s.closeStream k) r.rel h)
  · rename_i hk
    refine fileRangeErrorFor s rel ?_
    split at h
    · rename_i r hr
      exact absurd hr (hk r)
    · exact h

/-! ### Failover -/

theorem drainStream (s : State P H) (k : Key) : Turns orderly s (s.drainStream k) := by
  unfold State.drainStream
  split
  · exact .refl s
  · rename_i rel hk
    exact of_returns (fun n f => State.course_close hk s.pool n f) (Returns.retryOrFail _ rel)
  · rename_i requested b hk
    exact closeBatch hk s.pool failoverBatchEntry failoverBatchEntry_held
  · rename_i r hk
    have h₁ : Turns orderly s { s with streams := s.streams.close k } :=
      closeRange hk (fun _ => rfl) s.pool
    exact h₁.trans (of_delta _ (fun f => RangeBook.held_requeue _ r f)
      fun f => RangeBook.loose_requeue _ _ r f)
  · rename_i r hk
    have h₁ : Turns orderly s { s with streams := s.streams.close k } :=
      closeRange hk (fun _ => rfl) s.pool
    exact h₁.trans (of_range _ fun f => RangeBook.held_requeue _ r f)

theorem drainLane (order : List Key) (s : State P H) (lane : ℕ) :
    Turns orderly s (s.drainLane order lane) := by
  unfold State.drainLane
  split
  · exact (foldl drainStream (s.laneKeys order lane) s).trans (of_eq fun _ _ => rfl)
  · exact .refl s

theorem requeueSignature (s : State P H) (rel : P) : Turns orderly s (s.requeueSignature rel) := by
  unfold State.requeueSignature
  split
  · exact .refl s
  · rename_i st hst
    have hm : rel ∈ s.delta.book.states := State.mem_of_lookup hst
    split
    · refine of_delta s (fun _ => rfl) fun f => ?_
      by_cases hf : f = rel
      · subst hf
        rw [RangeBook.loose_of_mem hm, RangeBook.loose_of_mem hm]
      · exact RangeBook.loose_congr (Finset.mem_erase.trans (and_iff_right hf)) .rfl .rfl
    · exact .refl s

theorem failoverScan (s : State P H) (order : List Key) (sigOrder : List P) (lost lost' : List ℕ) :
    Turns orderly s (s.failoverScan order sigOrder lost lost') := by
  unfold State.failoverScan
  extract_lets newlyDown s₁ s₂ s₃ s₄
  have h₁ : Turns orderly s s₁ := foldl (drainLane order) _ s
  have h₂ : Turns orderly s₁ s₂ := of_eq fun _ _ => rfl
  have h₃ : Turns orderly s₂ s₃ := by
    unfold s₃
    split
    · exact foldl requeueSignature sigOrder s₂
    · exact .refl s₂
  have h₄ : Turns orderly s₃ s₄ := of_eq fun _ _ => rfl
  have h := (h₁.trans h₂).trans (h₃.trans h₄)
  split
  · exact h.trans (of_eq fun _ _ => rfl)
  · exact h

theorem loopTest (cfg : Config) (s : State P H) : Turns orderly s (s.loopTest cfg) := by
  unfold State.loopTest
  extract_lets s₁
  have h₁ : Turns orderly s s₁ := of_compare s fun f =>
    (CompareStage.held_flush _ f).trans (CompareStage.held_refill _ _ f)
  split
  · exact h₁.trans (of_eq fun _ _ => rfl)
  · exact h₁

theorem manifestEntry (cfg : Config) (s : State P H) (rel : P) (e : FileEntry)
    (h : orderly = true → rel ∉ s.remoteFiles) : Turns orderly s (s.manifestEntry cfg rel e) := by
  intro n f
  have hheld : (s.compare.offer cfg.maxInFlightCompareTasks rel).held f =
      s.compare.held f + once rel f := CompareStage.held_offer _ _ _ _
  by_cases hf : rel = f
  · subst hf
    rw [once_self] at hheld
    have hlisted : (s.manifestEntry cfg rel e).course n rel =
        { (s.course n rel).addInside 1 with known := true } := by
      apply Course.ext <;> first | rfl | skip
      · simp only [State.manifestEntry, State.course, State.inside, Course.addInside, hheld]
        omega
      · simp [State.manifestEntry, State.course]
    rw [hlisted]
    exact .single (.listed _ fun horderly => decide_eq_false (h horderly))
  · rw [once_ne hf] at hheld
    have hf' : ¬ f = rel := Ne.symm hf
    have hsame : (s.manifestEntry cfg rel e).course n f = s.course n f := by
      apply Course.ext <;> first | rfl | skip
      · simp only [State.manifestEntry, State.course, State.inside, hheld, Nat.add_zero]
      · simp [State.manifestEntry, State.course, hf']
    rw [hsame]

end Turns

/-! ### Runs -/

variable [DecidableEq H]

/-- **Every step of the client is a sequence of moves of every file**, among them its opens. -/
theorem exec_course (orderly : Bool) (cfg : Config) (s : State P H) (e : Event P H) (hcan : Can s e)
    (ho : orderly = true → Orderly s e) (n : ℕ) (f : P) :
    Moves kMaxTransferRetries orderly (s.course n f)
      ((exec cfg s e).course (n + (s.opened cfg e).count f) f) := by
  cases e with
  | startTransfer lane healthyAtStart openOk sendOk =>
    exact Turns.tryStartTransfer cfg s lane healthyAtStart openOk sendOk n f
  | manifestEntry rel e => exact Turns.manifestEntry cfg s rel e ho n f
  | compareFlush => exact Turns.of_compare s (fun f => CompareStage.held_flush _ f) n f
  | compareTake => exact Turns.of_compare s (fun f => CompareStage.held_workerTake _ f) n f
  | comparePublish i act =>
    exact Turns.of_compare s (fun f => CompareStage.held_workerPublish _ i act f) n f
  | drainCompare old => exact Turns.drainCompare cfg s old n f
  | dispatchHashRequests lane ok reached => exact Turns.dispatchHashRequests cfg s lane ok reached n f
  | hashPop => exact Turns.of_hash s (HashStage.same_workerPop _) n f
  | hashCount i => exact Turns.of_hash s (HashStage.same_workerCount _ i) n f
  | hashRecord i r => exact Turns.of_hash s (HashStage.same_workerRecord _ i r) n f
  | hashLeave i => exact Turns.of_hash s (HashStage.same_workerLeave _ i) n f
  | hashReady i => exact Turns.of_hash s (HashStage.same_workerReady _ i) n f
  | hashResponse conn rel v => exact Turns.of_hash s (HashStage.same_response _ conn rel v _) n f
  | resolveFallback old => exact Turns.resolveFallback cfg s old n f
  | sweep unresolved old =>
    refine Turns.sweep cfg s unresolved old (fun rel hrel => ?_) n f
    have hm : rel ∈ unresolved.toFinset := List.mem_toFinset.2 hrel
    rw [hcan.2, Finset.mem_sdiff] at hm
    exact hm.1
  | refreshTuning => exact Turns.refresh cfg.streamLimit s n f
  | rebalance => exact Turns.rebalance s n f
  | backoff =>
    simp only [exec]
    split <;> exact .refl
  | ioTake => exact Turns.of_io s (fun f => IoPool.held_workerTake _ f) n f
  | ioWrite i ok => exact Turns.of_io s (fun f => IoPool.held_workerWrite _ i ok f) n f
  | ioPublish i => exact Turns.of_io s (fun f => IoPool.held_workerPublish _ i f) n f
  | drainIo => exact Turns.drainIo s n f
  | pumpSignatures lane ok reached => exact Turns.pumpDeltaSignatures cfg s lane ok reached n f
  | planTake =>
    refine Turns.of_eq (fun n f => ?_) n f
    simp only [exec, DeltaStage.planTake]
    split <;> rfl
  | planPublish i misses =>
    refine Turns.of_eq (fun n f => ?_) n f
    simp only [exec, DeltaStage.planPublish]
    split <;> rfl
  | applyPlan fin => exact Turns.applyDeltaPlanResult cfg s fin n f
  | startDeltaRange lane ok => exact Turns.tryStartDeltaRange cfg s lane ok n f
  | beginFileRangePlan ok fin => exact Turns.beginFileRangePlan cfg s ok fin n f
  | startFileRange lane ok => exact Turns.tryStartFileRange cfg s lane ok n f
  | fileBatchOpen k records =>
    refine Turns.fileBatchOpen s k records (fun requested b hb => ?_) n f
    simp only [Can, hb] at hcan
    exact hcan
  | fileBatchChunk k payload => exact Turns.fileBatchChunk s k payload n f
  | fileBatchEnd k => exact Turns.fileBatchEnd s k n f
  | fileChunk k => exact Turns.fileChunk s k n f
  | fileEnd k ok => exact Turns.fileEnd s k ok n f
  | fileError k => exact Turns.fileError s k n f
  | blockSigResponse conn rel => exact Turns.blockSigResponse s conn rel n f
  | deltaRangeChunk k len => exact Turns.deltaRangeChunk s k len n f
  | deltaRangeEnd k fin => exact Turns.deltaRangeEnd cfg s k fin n f
  | deltaError k rel => exact Turns.deltaError s k rel n f
  | fileRangeData k len => exact Turns.fileRangeData s k len n f
  | fileRangeEnd k fin => exact Turns.fileRangeEnd s k fin n f
  | fileRangeError k rel => exact Turns.fileRangeError s k rel ho n f
  | failoverScan order sigOrder lost lost' =>
    exact Turns.failoverScan s order sigOrder lost lost' n f
  | loopTest => exact Turns.loopTest cfg s n f
  | recvDrainedAndClosed =>
    simp only [exec]
    split <;> exact .refl
  | manifestDir _ | manifestEnd | laneDown _ => exact .refl

/-- Along a run every file moves, and is opened as often as the log says. -/
theorem run_course (orderly : Bool) (cfg : Config) {ok : State P H → Event P H → Prop}
    (hok : ∀ s e, ok s e → orderly = true → Orderly s e) {s : State P H} {es : List (Event P H)}
    (h : (machine P H cfg).Allows ok s es) (n : ℕ) (f : P) :
    Moves kMaxTransferRetries orderly (s.course n f)
      (((machine P H cfg).run s es).course (n + (opens cfg s es).count f) f) := by
  induction es generalizing s n with
  | nil => exact .refl
  | cons e es ih =>
    obtain ⟨hcan, he, hes⟩ := h
    have hstep := exec_course orderly cfg s e hcan.2 (hok s e he) n f
    have hrest := ih hes (n + (s.opened cfg e).count f)
    rw [Nat.add_assoc, ← List.count_append] at hrest
    exact hstep.trans hrest

/-- A list of elements of `keys`, each at most `c` times in it. -/
theorem length_le_of_count {log keys : List P} {c : ℕ} (hcount : ∀ f, log.count f ≤ c)
    (hsub : ∀ f ∈ log, f ∈ keys) : log.length ≤ c * keys.length := by
  -- the log sorted by elements: one summand for each
  have hsum : (log.dedup.map fun f => log.count f).sum ≤ log.dedup.length * c := by
    have h := List.sum_le_card_nsmul (log.dedup.map fun f => log.count f) c (by
      intro m hm
      obtain ⟨f, -, rfl⟩ := List.mem_map.1 hm
      exact hcount f)
    simpa using h
  have hkeys : log.dedup.length ≤ keys.length :=
    (List.subperm_of_subset log.nodup_dedup fun f hf => hsub f (List.mem_dedup.1 hf)).length_le
  calc log.length = (log.dedup.map fun f => log.count f).sum :=
        log.sum_map_count_dedup_eq_length.symm
    _ ≤ log.dedup.length * c := hsum
    _ ≤ keys.length * c := Nat.mul_le_mul_right c hkeys
    _ = c * keys.length := Nat.mul_comm ..

theorem start_bounded (cfg : Config) (f : P) :
    Bounded kMaxTransferRetries ((State.start P H cfg).course 0 f) :=
  ⟨Nat.zero_le _, Nat.zero_le _⟩

theorem start_inOrder (cfg : Config) (f : P) :
    InOrder kMaxTransferRetries ((State.start P H cfg).course 0 f) where
  unknown := fun _ => ⟨rfl, rfl, rfl⟩
  single := Nat.zero_le 1
  past := fun _ => rfl
  live := Nat.zero_le _
  retries := Nat.zero_le _
  fresh := fun _ => ⟨rfl, rfl⟩
  attempts := fun _ => Nat.zero_le _
  opens := Nat.zero_le _
  loose := fun h => by cases h

/-- **Every file is opened at most four times.** In every run a file that was not counted
transferred or failed yet was opened once at most and once for each of its three retries, each
count of it allows three retries more, and its retry count falls only in a step that counts it.
If the manifest lists no path twice and no `FileRangeError` is about a file that never was in
block mode, no file is ever opened more than four times, and a run over `N` files opens at most
`4 * N` times. -/
theorem retry_bound (cfg : Config) {es : List (Event P H)}
    (h : (machine P H cfg).Allows (fun _ _ => True) (State.start P H cfg) es) :
    (∀ f, ((machine P H cfg).run (State.start P H cfg) es).xfer.resolved f = 0 →
        (opens cfg (State.start P H cfg) es).count f ≤ 1 + kMaxTransferRetries) ∧
      (∀ f, (opens cfg (State.start P H cfg) es).count f ≤ 1 + kMaxTransferRetries *
        (((machine P H cfg).run (State.start P H cfg) es).xfer.resolved f + 1)) ∧
      (∀ (s : State P H) (e : Event P H) (f : P), (machine P H cfg).can s e →
        (exec cfg s e).xfer.transferRetryCounts f < s.xfer.transferRetryCounts f →
          s.xfer.resolved f < (exec cfg s e).xfer.resolved f) ∧
      ((machine P H cfg).Allows Orderly (State.start P H cfg) es →
        (∀ f, (opens cfg (State.start P H cfg) es).count f ≤ 1 + kMaxTransferRetries) ∧
          (opens cfg (State.start P H cfg) es).length ≤ (1 + kMaxTransferRetries) *
            ((machine P H cfg).run (State.start P H cfg) es).remoteFiles.keys.length) := by
  have hbounded : ∀ f, (opens cfg (State.start P H cfg) es).count f ≤ 1 + kMaxTransferRetries *
      (((machine P H cfg).run (State.start P H cfg) es).xfer.resolved f + 1) := by
    intro f
    -- in any life, orderly or not, the opens are paid for
    have hm := run_course false cfg (fun _ _ _ h => by cases h) h 0 f
    have hb := (hm.bounded (start_bounded cfg f)).opens_le
    simpa [State.course] using hb
  refine ⟨fun f hf => ?_, hbounded, fun s e f hcan hlt => ?_, fun ho => ?_⟩
  · have hb := hbounded f
    rw [hf, Nat.zero_add, Nat.mul_one] at hb
    exact hb
  · have hm := exec_course false cfg s e hcan.2 (fun h => by cases h) 0 f
    exact hm.forgets.2 hlt
  -- in an orderly run each file is under way at most once
  · have horder : ∀ f, InOrder kMaxTransferRetries
        (((machine P H cfg).run (State.start P H cfg) es).course
          (0 + (opens cfg (State.start P H cfg) es).count f) f) := fun f =>
      (run_course true cfg (fun _ _ he _ => he) ho 0 f).inOrder (start_inOrder cfg f)
    have hcount : ∀ f, (opens cfg (State.start P H cfg) es).count f ≤ 1 + kMaxTransferRetries := by
      intro f
      have hopens := (horder f).opens
      simpa [State.course] using hopens
    refine ⟨hcount, length_le_of_count hcount fun f hf => ?_⟩
    -- what was opened was scheduled, and what was scheduled is listed
    have hopened : (opens cfg (State.start P H cfg) es).count f ≠ 0 :=
      Nat.pos_iff_ne_zero.1 (List.count_pos_iff.2 hf)
    have hsched : f ∈ ((machine P H cfg).run (State.start P H cfg) es).xfer.scheduledTransfers := by
      by_contra hn
      have hzero := ((horder f).fresh (decide_eq_false hn)).2
      simp only [State.course, Nat.zero_add] at hzero
      exact hopened hzero
    have hknown := (horder f).known_of_scheduled (.inl (decide_eq_true hsched))
    exact AList.mem_keys.1 (of_decide_eq_true hknown)

/-- A file too large for a batch: the open of the target fails, the server answers with an error,
the writes fail, and the lane dies. -/
def fourAttempts : List (Event ℕ ℕ) :=
  listAndSchedule (2 ^ 23) ++
    [.startTransfer 1 2 false true, .startTransfer 1 2 true true, .fileError (1, 1),
      .startTransfer 1 2 true true, .fileEnd (1, 2) false,
      .startTransfer 1 2 true true, .laneDown 1, .failoverScan [(1, 3)] [] [] []]

/-- In `fourAttempts` the file is opened four times and then counted failed, and the bound of the
run is reached. -/
theorem retry_bound_fourAttempts :
    (opens twoLanes (State.start ℕ ℕ twoLanes) fourAttempts).length = 4 ∧
      ((machine ℕ ℕ twoLanes).run (State.start ℕ ℕ twoLanes) fourAttempts).xfer.tally.failed = 1 ∧
      (opens twoLanes (State.start ℕ ℕ twoLanes) fourAttempts).length ≤ (1 + kMaxTransferRetries) *
        ((machine ℕ ℕ twoLanes).run (State.start ℕ ℕ twoLanes)
          fourAttempts).remoteFiles.keys.length :=
  ⟨by decide, by decide, ((retry_bound twoLanes (by decide)).2.2.2 (by decide)).2⟩

end FastClone.Client
