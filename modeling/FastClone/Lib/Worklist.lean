import FastClone.Lib.Runs
import Mathlib.Algebra.Order.BigOperators.Group.Finset
import Mathlib.Algebra.Order.Group.Multiset
import Mathlib.Tactic.Abel

/-!
# A work list shared by several workers

Items wait in a queue. A worker takes a batch of them off the end, lists one after the other and
puts what it found behind the queue; what the listings emit it keeps in a buffer of its own, which
it hands over now and then and when it leaves. A worker leaves when the queue is empty and no
other has a batch.

`collected_of_finished`: when all have left, and none has failed or been told to stop, what was
handed over is what the whole tree under the root emits, in whatever order the workers ran.
-/

namespace Worklist

open Runs

/-- What is walked: the listing of an item, which may fail, the number of workers, and how many
items are taken at a time. -/
structure Walk (D O : Type) where
  root : D
  list : D → Option (List O × List D)
  workers : ℕ
  workers_pos : 0 < workers
  popBatch : ℕ
  popBatch_pos : 0 < popBatch

/-- A worker waits, has a batch (what is left of it, its size, and what was found), or has left. -/
inductive Worker (D : Type) where
  | idle
  | busy (batch : List D) (size : ℕ) (found : List D)
  | gone

structure State (D O : Type) where
  queue : List D
  worker : ℕ → Worker D
  buffer : ℕ → List O
  /-- Items taken and not accounted for. -/
  active : ℕ
  /-- What was handed over. -/
  out : List O
  failed : Bool
  stopped : Bool

inductive Event (O : Type) where
  | pop (w : ℕ)
  /-- The next item of the batch is listed; after a stop only the first `n` outputs are seen. -/
  | list (w n : ℕ)
  /-- Something is emitted besides the listing. -/
  | note (w : ℕ) (o : O)
  | fail (w : ℕ)
  | handOver (w : ℕ)
  | push (w : ℕ)
  | leave (w : ℕ)
  | stop

variable {D O P : Type}

def State.start (W : Walk D O) : State D O where
  queue := [W.root]
  worker := fun _ => .idle
  buffer := fun _ => []
  active := 0
  out := []
  failed := false
  stopped := false

def State.set (s : State D O) (w : ℕ) (x : Worker D) : State D O :=
  { s with worker := Function.update s.worker w x }

def State.emit (s : State D O) (w : ℕ) (os : List O) : State D O :=
  { s with buffer := Function.update s.buffer w (s.buffer w ++ os) }

def State.handOver (s : State D O) (w : ℕ) : State D O :=
  { s with
    out := s.out ++ s.buffer w
    buffer := Function.update s.buffer w [] }

/-- The last items of the queue, the last one first. -/
def State.pop (s : State D O) (k w : ℕ) : State D O :=
  let n := min k s.queue.length
  { s.set w (.busy (s.queue.drop (s.queue.length - n)).reverse n []) with
    queue := s.queue.take (s.queue.length - n)
    active := s.active + n }

/-- A step; `quiet` are the outputs that may be emitted besides. -/
def State.step (W : Walk D O) (quiet : O → Bool) (s : State D O) : Event O → Option (State D O)
  | .pop w =>
    match s.worker w with
    | .idle => if w < W.workers ∧ s.stopped = false ∧ s.queue ≠ [] then some (s.pop W.popBatch w) else none
    | _ => none
  | .list w n =>
    match s.worker w with
    | .busy (d :: batch) size found =>
      match W.list d with
      | none => some { s.set w (.busy [] size []) with failed := true }
      | some (os, ds) =>
        if s.stopped then some ((s.set w (.busy batch size found)).emit w (os.take n))
        else some ((s.set w (.busy batch size (found ++ ds))).emit w os)
    | _ => none
  | .note w o =>
    match s.worker w with
    | .busy _ _ _ => if quiet o then some (s.emit w [o]) else none
    | _ => none
  | .fail w =>
    match s.worker w with
    | .busy (_ :: _) size _ => some { s.set w (.busy [] size []) with failed := true }
    | _ => none
  | .handOver w =>
    match s.worker w with
    | .busy _ _ _ => some (s.handOver w)
    | _ => none
  | .push w =>
    match s.worker w with
    | .busy [] size found =>
      some { s.set w .idle with
        queue := s.queue ++ found
        active := s.active - size }
    | _ => none
  | .leave w =>
    match s.worker w with
    | .idle =>
      if w < W.workers ∧ (s.stopped = true ∨ (s.queue = [] ∧ s.active = 0)) then
        some ((s.handOver w).set w .gone)
      else none
    | _ => none
  | .stop => some { s with stopped := true }

def machine (W : Walk D O) (quiet : O → Bool) : Machine (State D O) (Event O) where
  init := .start W
  can s e := (s.step W quiet e).isSome
  next s e := (s.step W quiet e).getD s

/-- All workers have left. -/
def State.finished (W : Walk D O) (s : State D O) : Prop := ∀ w < W.workers, s.worker w matches .gone

instance (W : Walk D O) (s : State D O) : Decidable (s.finished W) :=
  inferInstanceAs (Decidable (∀ w < W.workers, (s.worker w matches .gone) = true))

/-! ### What a step can do -/

section Effects

variable {W : Walk D O} {quiet : O → Bool} {s s' : State D O}

inductive Effect (W : Walk D O) (quiet : O → Bool) (s : State D O) : State D O → Prop where
  | pop {w : ℕ} (hw : s.worker w = .idle) (hin : w < W.workers) (hs : s.stopped = false) (hq : s.queue ≠ []) :
      Effect W quiet s (s.pop W.popBatch w)
  | list {w size : ℕ} {d : D} {batch found ds : List D} {os : List O}
      (hw : s.worker w = .busy (d :: batch) size found) (hlist : W.list d = some (os, ds)) :
      Effect W quiet s ((s.set w (.busy batch size (found ++ ds))).emit w os)
  /-- After a stop a listing is cut short, and what it found is not kept. -/
  | cut {w size : ℕ} {d : D} {batch found ds : List D} {os : List O} (n : ℕ)
      (hw : s.worker w = .busy (d :: batch) size found) (hlist : W.list d = some (os, ds))
      (hs : s.stopped = true) : Effect W quiet s ((s.set w (.busy batch size found)).emit w (os.take n))
  | note {w size : ℕ} {batch found : List D} {o : O} (hw : s.worker w = .busy batch size found)
      (ho : quiet o = true) : Effect W quiet s (s.emit w [o])
  | fail {w size : ℕ} {batch found : List D} (hw : s.worker w = .busy batch size found) :
      Effect W quiet s { s.set w (.busy [] size []) with failed := true }
  | handOver {w size : ℕ} {batch found : List D} (hw : s.worker w = .busy batch size found) :
      Effect W quiet s (s.handOver w)
  | push {w size : ℕ} {found : List D} (hw : s.worker w = .busy [] size found) :
      Effect W quiet s
        { s.set w .idle with
          queue := s.queue ++ found
          active := s.active - size }
  | leave {w : ℕ} (hw : s.worker w = .idle) (hin : w < W.workers)
      (hwhy : s.stopped = true ∨ (s.queue = [] ∧ s.active = 0)) :
      Effect W quiet s ((s.handOver w).set w .gone)
  | stop : Effect W quiet s { s with stopped := true }

theorem effect_of_step {e : Event O} (hs : s.step W quiet e = some s') : Effect W quiet s s' := by
  cases e with
  | pop w =>
    simp only [State.step] at hs
    split at hs
    · rename_i hw
      split at hs
      · rename_i hcan
        cases hs
        exact .pop hw hcan.1 hcan.2.1 hcan.2.2
      · cases hs
    · cases hs
  | list w n =>
    simp only [State.step] at hs
    split at hs
    · rename_i d batch size found hw
      split at hs
      · cases hs
        exact .fail hw
      · rename_i os ds hlist
        split at hs
        · rename_i hstop
          cases hs
          exact .cut n hw hlist hstop
        · cases hs
          exact .list hw hlist
    · cases hs
  | note w o =>
    simp only [State.step] at hs
    split at hs
    · rename_i hw
      split at hs
      · rename_i ho
        cases hs
        exact .note hw ho
      · cases hs
    · cases hs
  | fail w =>
    simp only [State.step] at hs
    split at hs
    · rename_i hw
      cases hs
      exact .fail hw
    · cases hs
  | handOver w =>
    simp only [State.step] at hs
    split at hs
    · rename_i hw
      cases hs
      exact .handOver hw
    · cases hs
  | push w =>
    simp only [State.step] at hs
    split at hs
    · rename_i hw
      cases hs
      exact .push hw
    · cases hs
  | leave w =>
    simp only [State.step] at hs
    split at hs
    · rename_i hw
      split at hs
      · rename_i hcan
        cases hs
        exact .leave hw hcan.1 hcan.2
      · cases hs
    · cases hs
  | stop =>
    cases hs
    exact .stop

/-- A change of one worker, read back. -/
theorem of_update {α : Type} {f : ℕ → α} {w v : ℕ} {x y : α} (h : Function.update f w x v = y) :
    (v = w ∧ x = y) ∨ (v ≠ w ∧ f v = y) := by
  by_cases hvw : v = w
  · subst hvw
    rw [Function.update_self] at h
    exact .inl ⟨rfl, h⟩
  · rw [Function.update_of_ne hvw] at h
    exact .inr ⟨hvw, h⟩

end Effects

/-! ### Counting -/

section Count

variable {M α : Type} [AddCancelCommMonoid M] {n w : ℕ}

/-- The sum over the workers. -/
def total (n : ℕ) (f : ℕ → M) : M := ∑ i ∈ Finset.range n, f i

/-- Changing one summand. -/
theorem total_update (g : α → M) (f : ℕ → α) (hw : w < n) (x : α) :
    total n (fun i => g (Function.update f w x i)) + g (f w) = total n (fun i => g (f i)) + g x := by
  have hmem : w ∈ Finset.range n := Finset.mem_range.2 hw
  have hrest : ∑ i ∈ (Finset.range n).erase w, g (Function.update f w x i) =
      ∑ i ∈ (Finset.range n).erase w, g (f i) := by
    refine Finset.sum_congr rfl fun i hi => ?_
    rw [Function.update_of_ne (Finset.ne_of_mem_erase hi)]
  unfold total
  rw [← Finset.add_sum_erase _ _ hmem, ← Finset.add_sum_erase (Finset.range n) (fun i => g (f i)) hmem, hrest,
    Function.update_self]
  abel

/-- One summand grows. -/
theorem total_grow {g : α → M} {f : ℕ → α} (hw : w < n) {x : α} {c : M} (hx : g x = g (f w) + c) :
    total n (fun i => g (Function.update f w x i)) = total n (fun i => g (f i)) + c := by
  have h := total_update g f hw x
  rw [hx, add_comm (g (f w)), ← add_assoc] at h
  exact add_right_cancel h

/-- One summand shrinks. -/
theorem total_shrink {g : α → M} {f : ℕ → α} (hw : w < n) {x : α} {c : M} (hx : g (f w) = g x + c) :
    total n (fun i => g (Function.update f w x i)) + c = total n (fun i => g (f i)) := by
  have h := total_update g f hw x
  rw [hx, add_comm (g x), ← add_assoc] at h
  exact add_right_cancel h

end Count

/-! ### What the workers have between them -/

section Walks

variable {W : Walk D O} {quiet : O → Bool} {s s' : State D O}

/-- Everything under the items of a list. -/
def under (collect : D → Multiset P) (ds : List D) : Multiset P := (ds.map collect).sum

/-- What outputs stand for. -/
def meant (meaning : O → Multiset P) (os : List O) : Multiset P := (os.map meaning).sum

@[simp]
theorem under_nil (collect : D → Multiset P) : under collect [] = 0 := rfl

@[simp]
theorem under_append (collect : D → Multiset P) (ds es : List D) :
    under collect (ds ++ es) = under collect ds + under collect es := by
  simp [under]

@[simp]
theorem under_cons (collect : D → Multiset P) (d : D) (ds : List D) :
    under collect (d :: ds) = collect d + under collect ds := by
  simp [under]

@[simp]
theorem under_reverse (collect : D → Multiset P) (ds : List D) :
    under collect ds.reverse = under collect ds := by
  induction ds with
  | nil => rfl
  | cons d ds ih =>
    rw [List.reverse_cons, under_append, ih, under_cons, under_cons, under_nil, add_zero, add_comm]

@[simp]
theorem meant_nil (meaning : O → Multiset P) : meant meaning [] = 0 := rfl

@[simp]
theorem meant_append (meaning : O → Multiset P) (os os' : List O) :
    meant meaning (os ++ os') = meant meaning os + meant meaning os' := by
  simp [meant]

theorem mem_meant {meaning : O → Multiset P} {os : List O} {p : P} :
    p ∈ meant meaning os ↔ ∃ o ∈ os, p ∈ meaning o := by
  induction os with
  | nil => simp
  | cons o os ih =>
    have hcons : meant meaning (o :: os) = meaning o + meant meaning os := by simp [meant]
    rw [hcons, Multiset.mem_add, ih]
    simp

/-- Items that hold lists. -/
theorem under_coe (f : D → List P) (ds : List D) :
    under (fun d => (f d : Multiset P)) ds = (ds.flatMap f : Multiset P) := by
  induction ds with
  | nil => rfl
  | cons d ds ih => rw [under_cons, ih, List.flatMap_cons, Multiset.coe_add]

/-- Outputs that stand for themselves. -/
theorem meant_singleton (os : List O) : meant (fun o => ({o} : Multiset O)) os = (os : Multiset O) := by
  induction os with
  | nil => rfl
  | cons o os ih =>
    have hcons : meant (fun o => ({o} : Multiset O)) (o :: os) = {o} + meant (fun o => ({o} : Multiset O)) os := by
      simp [meant]
    rw [hcons, ih]
    rfl

/-- What a worker has before it. -/
def Worker.under (collect : D → Multiset P) : Worker D → Multiset P
  | .busy batch _ found => Worklist.under collect batch + Worklist.under collect found
  | _ => 0

def Worker.size : Worker D → ℕ
  | .busy _ size _ => size
  | _ => 0

/-- Everything there is: waiting, with the workers, in their buffers and handed over. -/
def State.held (W : Walk D O) (collect : D → Multiset P) (meaning : O → Multiset P) (s : State D O) : Multiset P :=
  under collect s.queue + total W.workers (fun i => (s.worker i).under collect) +
    total W.workers (fun i => meant meaning (s.buffer i)) + meant meaning s.out

/-- `collect` adds up what a listing emits and what is under the items it finds; what is emitted
besides stands for nothing. -/
structure Collects (W : Walk D O) (quiet : O → Bool) (collect : D → Multiset P) (meaning : O → Multiset P) :
    Prop where
  list : ∀ d os ds, W.list d = some (os, ds) → collect d = meant meaning os + under collect ds
  quiet : ∀ o, quiet o = true → meaning o = 0

/-- The invariant. -/
structure Kept (W : Walk D O) (collect : D → Multiset P) (meaning : O → Multiset P) (s : State D O) : Prop where
  inside : ∀ w batch size found, s.worker w = .busy batch size found → w < W.workers ∧ 0 < size
  conserve : s.failed = false → s.stopped = false → s.held W collect meaning = collect W.root
  active : s.active = total W.workers fun i => (s.worker i).size
  gone : ∀ w, s.worker w = .gone → s.buffer w = [] ∧ (s.stopped = false → s.queue = [] ∧ s.active = 0)

variable {collect : D → Multiset P} {meaning : O → Multiset P}

theorem le_total (f : ℕ → ℕ) {n w : ℕ} (hw : w < n) : f w ≤ total n f := by
  unfold total
  exact Finset.single_le_sum (fun _ _ => Nat.zero_le _) (Finset.mem_range.2 hw)

theorem Kept.start : Kept W collect meaning (.start W) where
  inside _ _ _ _ h := nomatch h
  conserve _ _ := by
    simp [State.held, State.start, total, Worker.under]
  active := by simp [State.start, total, Worker.size]
  gone _ h := nomatch h

/-- As long as a worker is busy none has left, unless it was told to stop. -/
theorem Kept.none_gone (h : Kept W collect meaning s) {w v size : ℕ} {batch found : List D}
    (hw : s.worker w = .busy batch size found) (hv : s.worker v = .gone) : s.stopped = true := by
  by_contra hs
  have hzero := ((h.gone v hv).2 (by simpa using hs)).2
  obtain ⟨hin, hpos⟩ := h.inside w batch size found hw
  have hle := le_total (fun i => (s.worker i).size) hin
  rw [hw, ← h.active] at hle
  simp only [Worker.size] at hle
  omega

/-- A worker with a batch goes on with it; nothing else but its buffer changes. -/
theorem Kept.goOn (h : Kept W collect meaning s) {w size : ℕ} {batch batch' found found' : List D} {os : List O}
    (hw : s.worker w = .busy batch size found)
    (hheld : s.failed = false → s.stopped = false → under collect batch + under collect found =
      under collect batch' + under collect found' + meant meaning os) :
    Kept W collect meaning ((s.set w (.busy batch' size found')).emit w os) := by
  obtain ⟨hin, hpos⟩ := h.inside w batch size found hw
  constructor
  case inside =>
    intro v batch₁ size₁ found₁ hv
    rcases of_update hv with ⟨rfl, hx⟩ | ⟨-, hv⟩
    · cases hx
      exact ⟨hin, hpos⟩
    · exact h.inside v _ _ _ hv
  case conserve =>
    intro hf hs
    have hworker : total W.workers (fun i => (Function.update s.worker w (.busy batch' size found') i).under collect) +
        meant meaning os = total W.workers (fun i => (s.worker i).under collect) := by
      refine total_shrink hin ?_
      rw [hw]
      exact hheld hf hs
    have hbuffer : total W.workers (fun i => meant meaning (Function.update s.buffer w (s.buffer w ++ os) i)) =
        total W.workers (fun i => meant meaning (s.buffer i)) + meant meaning os :=
      total_grow hin (meant_append _ _ _)
    rw [← h.conserve hf hs]
    simp only [State.held, State.emit, State.set, hbuffer, ← hworker]
    abel
  case active =>
    have hsize := total_update Worker.size s.worker hin (.busy batch' size found')
    rw [hw] at hsize
    exact h.active.trans (add_right_cancel hsize).symm
  case gone =>
    intro v hv
    by_cases hvw : v = w
    · subst hvw
      simp only [State.emit, State.set, Function.update_self] at hv
      cases hv
    · simp only [State.emit, State.set, Function.update_of_ne hvw] at hv ⊢
      exact h.gone v hv

/-- An exception drops the batch. -/
theorem Kept.fail (h : Kept W collect meaning s) {w size : ℕ} {batch found : List D}
    (hw : s.worker w = .busy batch size found) :
    Kept W collect meaning { s.set w (.busy [] size []) with failed := true } := by
  obtain ⟨hin, hpos⟩ := h.inside w batch size found hw
  constructor
  case inside =>
    intro v batch₁ size₁ found₁ hv
    rcases of_update hv with ⟨rfl, hx⟩ | ⟨-, hv⟩
    · cases hx
      exact ⟨hin, hpos⟩
    · exact h.inside v _ _ _ hv
  case conserve => exact nofun
  case active =>
    have hsize := total_update Worker.size s.worker hin (.busy [] size [])
    rw [hw] at hsize
    exact h.active.trans (add_right_cancel hsize).symm
  case gone =>
    intro v hv
    rcases of_update hv with ⟨rfl, hx⟩ | ⟨hvw, hv⟩
    · cases hx
    · exact h.gone v hv

theorem Kept.pop (h : Kept W collect meaning s) {w : ℕ} (hw : s.worker w = .idle) (hin : w < W.workers)
    (hs : s.stopped = false) (hq : s.queue ≠ []) : Kept W collect meaning (s.pop W.popBatch w) := by
  have hnone : ∀ v, s.worker v ≠ .gone := fun v hv => hq ((h.gone v hv).2 hs).1
  have hlen := List.length_pos_iff.2 hq
  have hk := W.popBatch_pos
  constructor
  case inside =>
    intro v batch size found hv
    rcases of_update hv with ⟨rfl, hx⟩ | ⟨-, hv⟩
    · cases hx
      exact ⟨hin, by omega⟩
    · exact h.inside v _ _ _ hv
  case conserve =>
    intro hf _
    rw [← h.conserve hf hs]
    have hsplit : under collect s.queue =
        under collect (s.queue.take (s.queue.length - min W.popBatch s.queue.length)) +
          under collect (s.queue.drop (s.queue.length - min W.popBatch s.queue.length)) := by
      rw [← under_append, List.take_append_drop]
    have hworker := total_grow (g := Worker.under collect) (f := s.worker) hin
      (x := .busy (s.queue.drop (s.queue.length - min W.popBatch s.queue.length)).reverse
        (min W.popBatch s.queue.length) [])
      (c := under collect (s.queue.drop (s.queue.length - min W.popBatch s.queue.length)))
      (by simp [hw, Worker.under])
    simp only [State.held, State.pop, State.set, hworker, hsplit]
    abel
  case active =>
    have hsize := total_grow (g := Worker.size) (f := s.worker) hin
      (x := .busy (s.queue.drop (s.queue.length - min W.popBatch s.queue.length)).reverse
        (min W.popBatch s.queue.length) [])
      (c := min W.popBatch s.queue.length) (by simp [hw, Worker.size])
    simp only [State.pop, State.set, hsize, h.active]
  case gone =>
    intro v hv
    rcases of_update hv with ⟨rfl, hx⟩ | ⟨-, hv⟩
    · cases hx
    · exact absurd hv (hnone v)

theorem Kept.handOver (h : Kept W collect meaning s) {w : ℕ} (hin : w < W.workers) :
    Kept W collect meaning (s.handOver w) := by
  constructor
  case inside => exact h.inside
  case conserve =>
    intro hf hs
    have hbuffer := total_shrink (g := meant meaning) (f := s.buffer) hin (x := [])
      (c := meant meaning (s.buffer w)) (by simp)
    rw [← h.conserve hf hs]
    simp only [State.held, State.handOver, meant_append, ← hbuffer]
    abel
  case active => exact h.active
  case gone =>
    intro v hv
    refine ⟨?_, (h.gone v hv).2⟩
    by_cases hvw : v = w
    · subst hvw
      simp [State.handOver]
    · simpa [State.handOver, hvw] using (h.gone v hv).1

theorem Kept.push (h : Kept W collect meaning s) {w size : ℕ} {found : List D}
    (hw : s.worker w = .busy [] size found) :
    Kept W collect meaning
      { s.set w .idle with
        queue := s.queue ++ found
        active := s.active - size } := by
  obtain ⟨hin, hpos⟩ := h.inside w [] size found hw
  have hsize := total_shrink (g := Worker.size) (f := s.worker) hin (x := .idle) (c := size)
    (by simp [hw, Worker.size])
  constructor
  case inside =>
    intro v batch₁ size₁ found₁ hv
    rcases of_update hv with ⟨rfl, hx⟩ | ⟨-, hv⟩
    · cases hx
    · exact h.inside v _ _ _ hv
  case conserve =>
    intro hf hs
    have hworker := total_shrink (g := Worker.under collect) (f := s.worker) hin (x := .idle)
      (c := under collect found) (by simp [hw, Worker.under])
    rw [← h.conserve hf hs]
    simp only [State.held, State.set, under_append, ← hworker]
    abel
  case active =>
    simp only [State.set]
    rw [h.active, ← hsize]
    exact Nat.add_sub_cancel _ _
  case gone =>
    intro v hv
    rcases of_update hv with ⟨rfl, hx⟩ | ⟨-, hv⟩
    · cases hx
    · -- a batch was out, so nobody can have left for want of work
      have hstop := h.none_gone hw hv
      exact ⟨(h.gone v hv).1, fun hs => absurd (hs.symm.trans hstop) nofun⟩

theorem Kept.leave (h : Kept W collect meaning s) {w : ℕ} (hw : s.worker w = .idle) (hin : w < W.workers)
    (hwhy : s.stopped = true ∨ (s.queue = [] ∧ s.active = 0)) :
    Kept W collect meaning ((s.handOver w).set w .gone) := by
  have h' := h.handOver hin
  constructor
  case inside =>
    intro v batch₁ size₁ found₁ hv
    rcases of_update hv with ⟨rfl, hx⟩ | ⟨-, hv⟩
    · cases hx
    · exact h'.inside v _ _ _ hv
  case conserve =>
    intro hf hs
    have hworker := total_grow (g := Worker.under collect) (f := s.worker) hin (x := .gone) (c := 0)
      (by simp [hw, Worker.under])
    rw [add_zero] at hworker
    rw [← h'.conserve hf hs]
    simp only [State.held, State.set, State.handOver, hworker]
  case active =>
    have hsize := total_grow (g := Worker.size) (f := s.worker) hin (x := .gone) (c := 0)
      (by simp [hw, Worker.size])
    exact h.active.trans hsize.symm
  case gone =>
    intro v hv
    by_cases hvw : v = w
    · subst hvw
      refine ⟨by simp [State.set, State.handOver], fun hs => ?_⟩
      rcases hwhy with hstop | hdone
      · exact absurd (hs.symm.trans hstop) nofun
      · exact hdone
    · simp only [State.set, Function.update_of_ne hvw] at hv
      exact h'.gone v hv

/-- **One step keeps the invariant.** -/
theorem Kept.step (hc : Collects W quiet collect meaning) (h : Kept W collect meaning s) {e : Event O}
    (hs : s.step W quiet e = some s') : Kept W collect meaning s' := by
  cases effect_of_step hs with
  | pop hw hin hstop hq => exact h.pop hw hin hstop hq
  | list hw hlist =>
    refine h.goOn hw fun _ _ => ?_
    rw [under_cons, under_append, hc.list _ _ _ hlist]
    abel
  | cut n hw hlist hstop => exact h.goOn hw fun _ hns => absurd (hns.symm.trans hstop) nofun
  | @note w size batch found o hw ho =>
    have hset : s.set w (.busy batch size found) = s := by
      rw [State.set, ← hw, Function.update_eq_self]
    have hgo : Kept W collect meaning ((s.set w (.busy batch size found)).emit w [o]) :=
      h.goOn hw fun _ _ => by simp [meant, hc.quiet o ho]
    rwa [hset] at hgo
  | fail hw => exact h.fail hw
  | handOver hw => exact h.handOver (h.inside _ _ _ _ hw).1
  | push hw => exact h.push hw
  | leave hw hin hwhy => exact h.leave hw hin hwhy
  | stop => exact ⟨h.inside, nofun, h.active, fun v hv => ⟨(h.gone v hv).1, nofun⟩⟩

/-- **When all workers have left, everything was handed over**, unless one has failed or they were
told to stop. -/
theorem Kept.collected_of_finished (h : Kept W collect meaning s) (hfin : s.finished W)
    (hf : s.failed = false) (hs : s.stopped = false) : meant meaning s.out = collect W.root := by
  have hgone : ∀ w < W.workers, s.worker w = .gone := by
    intro w hw
    have := hfin w hw
    split at this
    · assumption
    · cases this
  obtain ⟨hq, -⟩ := (h.gone 0 (hgone 0 W.workers_pos)).2 hs
  have hworkers : total W.workers (fun i => (s.worker i).under collect) = 0 := by
    refine Finset.sum_eq_zero fun i hi => ?_
    rw [hgone i (Finset.mem_range.1 hi)]
    rfl
  have hbuffers : total W.workers (fun i => meant meaning (s.buffer i)) = 0 := by
    refine Finset.sum_eq_zero fun i hi => ?_
    rw [(h.gone i (hgone i (Finset.mem_range.1 hi))).1]
    rfl
  rw [← h.conserve hf hs, State.held, hq, hworkers, hbuffers]
  simp

theorem kept_of_reach (hc : Collects W quiet collect meaning) {ok : State D O → Event O → Prop}
    (h : (machine W quiet).Reach ok s) : Kept W collect meaning s := by
  refine h.invariant Kept.start fun s e hk hcan _ => ?_
  obtain ⟨s', heq⟩ := Option.isSome_iff_exists.1 hcan
  have hnext : (machine W quiet).next s e = s' := by simp [machine, heq]
  rw [hnext]
  exact hk.step hc heq

/-- What is emitted and handed over are outputs of listings, and what may be emitted besides. -/
theorem emitted_step {Q : O → Prop} (hlist : ∀ d os ds, W.list d = some (os, ds) → ∀ o ∈ os, Q o)
    (hquiet : ∀ o, quiet o = true → Q o) {e : Event O} (hs : s.step W quiet e = some s')
    (h : (∀ o ∈ s.out, Q o) ∧ ∀ w, ∀ o ∈ s.buffer w, Q o) :
    (∀ o ∈ s'.out, Q o) ∧ ∀ w, ∀ o ∈ s'.buffer w, Q o := by
  obtain ⟨hout, hbuf⟩ := h
  -- the buffer of one worker grows by good outputs
  have hemit : ∀ (t : State D O) (w : ℕ) (os : List O), t.out = s.out → t.buffer = s.buffer → (∀ o ∈ os, Q o) →
      (∀ o ∈ (t.emit w os).out, Q o) ∧ ∀ v, ∀ o ∈ (t.emit w os).buffer v, Q o := by
    intro t w os ho hb hos
    refine ⟨by simpa [State.emit, ho] using hout, fun v o hov => ?_⟩
    by_cases hvw : v = w
    · subst hvw
      simp only [State.emit, Function.update_self, hb] at hov
      rcases List.mem_append.1 hov with hov | hov
      · exact hbuf v o hov
      · exact hos o hov
    · simp only [State.emit, Function.update_of_ne hvw, hb] at hov
      exact hbuf v o hov
  have hhand : ∀ w, (∀ o ∈ (s.handOver w).out, Q o) ∧ ∀ v, ∀ o ∈ (s.handOver w).buffer v, Q o := by
    intro w
    refine ⟨fun o ho => ?_, fun v o hov => ?_⟩
    · rcases List.mem_append.1 ho with ho | ho
      · exact hout o ho
      · exact hbuf w o ho
    · by_cases hvw : v = w
      · subst hvw
        simp [State.handOver] at hov
      · simp only [State.handOver, Function.update_of_ne hvw] at hov
        exact hbuf v o hov
  cases effect_of_step hs with
  | list hw hl => exact hemit _ _ _ rfl rfl (hlist _ _ _ hl)
  | cut n hw hl => exact hemit _ _ _ rfl rfl fun o ho => hlist _ _ _ hl o (List.mem_of_mem_take ho)
  | note hw ho => exact hemit s _ _ rfl rfl fun o' ho' => List.mem_singleton.1 ho' ▸ hquiet _ ho
  | handOver hw => exact hhand _
  | leave hw hin hwhy => exact hhand _
  | pop _ _ _ _ | fail _ | push _ | stop => exact ⟨hout, hbuf⟩

/-- What was handed over stays. -/
theorem out_step {e : Event O} (h : s.step W quiet e = some s') : ∃ more, s'.out = s.out ++ more := by
  cases effect_of_step h with
  | @handOver w _ _ _ _ => exact ⟨s.buffer w, rfl⟩
  | @leave w _ _ _ => exact ⟨s.buffer w, rfl⟩
  | pop _ _ _ _ | list _ _ | cut _ _ _ _ | note _ _ | fail _ | push _ | stop => exact ⟨[], (List.append_nil _).symm⟩

end Walks

end Worklist
