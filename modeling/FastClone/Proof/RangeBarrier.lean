import FastClone.Proof.ClientFrame
import Mathlib.Data.Multiset.OrderedMonoid

/-!
# The barrier of a file that is fetched in ranges

`Barrier` ties the counter of every planned file to its ranges: those that wait for a lane,
those that are active on a stream and those that received their End make up the plan, and
`pendingRanges` counts the first two. It is stated for one book and the ranges active on
streams, so delta files and block-mode files share it; each operation of the book, with what
it does to the streams, keeps it.
-/

set_option linter.unusedSectionVars false

namespace FastClone.Client

open Spans

variable {P : Type} [DecidableEq P]

/-! ### Plans -/

/-- A run of the slicing loop with a positive step fills its interval. -/
theorem slices_tiling {step : ℕ} (hstep : 0 < step) :
    ∀ (fuel off remaining : ℕ), remaining ≤ fuel →
      Tiling off (off + remaining) (slices step fuel off remaining) := by
  intro fuel
  induction fuel with
  | zero =>
    intro off remaining h
    have h0 : remaining = 0 := by omega
    subst h0
    exact rfl
  | succ fuel ih =>
    intro off remaining h
    unfold slices
    split
    · rename_i h0
      subst h0
      exact rfl
    · refine ⟨rfl, by omega, ?_⟩
      have hrest := ih (off + min step remaining) (remaining - min step remaining) (by omega)
      have he : off + min step remaining + (remaining - min step remaining) = off + remaining := by
        omega
      rwa [he] at hrest

/-- The loop makes as many pieces as fit, rounded up. -/
theorem length_slices {step : ℕ} (hstep : 0 < step) :
    ∀ (fuel off remaining : ℕ), remaining ≤ fuel →
      (slices step fuel off remaining).length = (remaining + step - 1) / step := by
  intro fuel
  induction fuel with
  | zero =>
    intro off remaining h
    have h0 : remaining = 0 := by omega
    subst h0
    rw [Nat.div_eq_of_lt (by omega)]
    rfl
  | succ fuel ih =>
    intro off remaining h
    unfold slices
    split
    · rename_i h0
      subst h0
      rw [Nat.div_eq_of_lt (by omega)]
      rfl
    · rw [List.length_cons, ih _ _ (by omega)]
      by_cases hlast : remaining ≤ step
      · rw [Nat.min_eq_right hlast, Nat.sub_self, Nat.div_eq_of_lt (by omega)]
        symm
        apply Nat.div_eq_of_lt_le <;> omega
      · rw [Nat.min_eq_left (by omega)]
        have he : remaining + step - 1 = remaining - step + step - 1 + step := by omega
        rw [he, Nat.add_div_right _ hstep]

/-- **The block plan tiles the file.** -/
theorem fileRangePlan_tiling {block : ℕ} (hblock : 0 < block) (fileSize : ℕ) :
    Tiling 0 fileSize (fileRangePlan block fileSize) := by
  unfold fileRangePlan
  by_cases h0 : fileSize = 0
  · subst h0
    exact rfl
  · have hstep : 0 < min block fileSize := by omega
    have h := slices_tiling hstep fileSize 0 fileSize (Nat.le_refl _)
    rwa [Nat.zero_add] at h

theorem length_fileRangePlan {block : ℕ} (hblock : 0 < block) {fileSize : ℕ}
    (h : fileSize ≤ (2 ^ 32 - 1) * block) : (fileRangePlan block fileSize).length < 2 ^ 32 := by
  unfold fileRangePlan
  by_cases h0 : fileSize = 0
  · subst h0
    exact Nat.two_pow_pos 32
  · have hstep : 0 < min block fileSize := by omega
    rw [length_slices hstep fileSize 0 fileSize (Nat.le_refl _)]
    by_cases hb : block ≤ fileSize
    · rw [Nat.min_eq_left hb]
      apply Nat.div_lt_of_lt_mul
      rw [Nat.mul_comm]
      omega
    · rw [Nat.min_eq_right (by omega)]
      have : (fileSize + fileSize - 1) / fileSize = 1 := by
        apply Nat.div_eq_of_lt_le <;> omega
      omega

/-- The pieces of a plan are tilings of the misses, one after the other. -/
def Cuts (misses plan : List Span) : Prop :=
  ∃ pieces : List (List Span), plan = pieces.flatten ∧
    List.Forall₂ (fun m p => Tiling m.1 (m.1 + m.2) p) misses pieces

/-- **The delta ranges cut the misses.** -/
theorem deltaRanges_cuts {chunk : ℕ} (hchunk : 0 < chunk) (misses : List Span) :
    Cuts misses (deltaRanges chunk misses) := by
  have hstep : 0 < min (chunk * 8) 0xFFFFFFFF := by omega
  refine ⟨misses.map fun m => slices (min (chunk * 8) 0xFFFFFFFF) m.2 m.1 m.2, ?_, ?_⟩
  · rw [deltaRanges, List.flatMap_def]
  · rw [List.forall₂_map_right_iff, List.forall₂_same]
    intro m _
    exact slices_tiling hstep m.2 m.1 m.2 (Nat.le_refl _)

/-! ### The ranges of a file -/

/-- The range of a task, if it is the file's. -/
def RangeTask.ranges (f : P) (t : RangeTask P) : Multiset Span := if t.rel = f then {t.span} else 0

/-- The ranges of a list of tasks that are the file's. -/
def taskRanges (l : List (RangeTask P)) (f : P) : Multiset Span := (l.map (RangeTask.ranges f)).sum

theorem taskRanges_cons (t : RangeTask P) (l : List (RangeTask P)) (f : P) :
    taskRanges (t :: l) f = t.ranges f + taskRanges l f := by
  simp [taskRanges]

theorem taskRanges_append (l l' : List (RangeTask P)) (f : P) :
    taskRanges (l ++ l') f = taskRanges l f + taskRanges l' f := by
  simp [taskRanges]

theorem taskRanges_plan (rel : P) (plan : List Span) (f : P) :
    taskRanges (plan.map fun r => ⟨rel, r.1, r.2⟩) f =
      if rel = f then (plan : Multiset Span) else 0 := by
  induction plan with
  | nil => simp [taskRanges]
  | cons r plan ih =>
    rw [List.map_cons, taskRanges_cons, ih]
    by_cases hf : rel = f
    · simp [RangeTask.ranges, RangeTask.span, hf]
    · simp [RangeTask.ranges, hf]

/-- The ranges of a file that wait for a lane. -/
def RangeBook.queued (b : RangeBook P) (f : P) : Multiset Span := taskRanges b.pending f

theorem card_taskRanges (l : List (RangeTask P)) (f : P) :
    (taskRanges l f).card = l.countP fun t => t.rel = f := by
  induction l with
  | nil => rfl
  | cons t l ih =>
    rw [taskRanges_cons, Multiset.card_add, ih, List.countP_cons, Nat.add_comm]
    by_cases hf : t.rel = f <;> simp [RangeTask.ranges, hf]

/-- The contribution of one range. -/
def oneRange (rel : P) (span : Span) (f : P) : Multiset Span := if rel = f then {span} else 0

/-! ### The barrier -/

/-- The barrier of a book; `active` are the ranges on streams, `good` relates the size of a file
to its plan. Files that are not planned and not abandoned have no range out, so a plan starts
from nothing. -/
structure Barrier (good : ℕ → List Span → Prop) (b : RangeBook P) (active : P → Multiset Span) :
    Prop where
  planned : ∀ f st, b.states.lookup f = some st → st.planned = true →
    st.pendingRanges = (b.queued f + active f).card ∧
      (st.plan : Multiset Span) = b.queued f + active f + (st.ended : Multiset Span) ∧
      good st.bytes st.plan
  idle : ∀ f, f ∉ b.abandoned → (∀ st, b.states.lookup f = some st → st.planned = false) →
    b.queued f + active f = 0
  finalized : ∀ x ∈ b.finalized, (x.plan : Multiset Span) = x.ended ∧ good x.bytes x.plan

namespace Barrier

open RangeBook

variable {good : ℕ → List Span → Prop} {b : RangeBook P} {active active' : P → Multiset Span}
  {rel : P} {st : RangeState}

theorem empty (good : ℕ → List Span → Prop) :
    Barrier good (RangeBook.empty P) fun _ => (0 : Multiset Span) where
  planned := by
    intro f st h
    cases h
  idle := fun _ _ _ => rfl
  finalized := by
    intro x h
    cases h

theorem congr (h : Barrier good b active) (ha : ∀ f, active' f = active f) :
    Barrier good b active' := by
  have he : active' = active := funext ha
  rwa [he]

theorem lookup_update (h : rel ∈ b.states) (st' : RangeState) (f : P) :
    (b.update rel st').states.lookup f = if f = rel then some st' else b.states.lookup f := by
  unfold RangeBook.update
  rw [dif_pos h]
  dsimp only
  split
  · rename_i hf
    rw [hf, AList.lookup_insert]
  · rename_i hf
    exact AList.lookup_insert_ne hf

theorem lookup_adopt (h : rel ∈ b.states) (st : RangeState) (plan : List Span) (f : P) :
    (b.adopt rel st plan).states.lookup f =
      if f = rel then some (st.adopted plan) else b.states.lookup f :=
  lookup_update h (st.adopted plan) f

theorem update_pending (b : RangeBook P) (rel : P) (st' : RangeState) :
    (b.update rel st').pending = b.pending ∧ (b.update rel st').abandoned = b.abandoned ∧
      (b.update rel st').finalized = b.finalized := by
  unfold RangeBook.update
  split <;> exact ⟨rfl, rfl, rfl⟩

theorem manage (h : Barrier good b active) {bytes : ℕ} {b' : RangeBook P}
    (hm : b.manage rel bytes = some b') : Barrier good b' active := by
  obtain ⟨-, hnew, hdisjoint, rfl⟩ := RangeBook.manage_eq_some hm
  have hnone : b.states.lookup rel = none := AList.lookup_eq_none.2 hnew
  refine ⟨fun f st hst hp => ?_, fun f hf hun => ?_, h.finalized⟩
  · by_cases hfr : f = rel
    · subst hfr
      simp only [AList.lookup_insert] at hst
      cases hst
      cases hp
    · simp only [AList.lookup_insert_ne hfr] at hst
      exact h.planned f st hst hp
  · refine h.idle f hf fun st hst => ?_
    by_cases hfr : f = rel
    · subst hfr
      rw [hnone] at hst
      cases hst
    · exact hun st (by rwa [AList.lookup_insert_ne hfr])

/-- The state of a file replaced by one with the same barrier. -/
theorem update_same (h : Barrier good b active) (hst : b.states.lookup rel = some st)
    {st' : RangeState} (hs : st'.planned = st.planned ∧ st'.pendingRanges = st.pendingRanges ∧
      st'.plan = st.plan ∧ st'.ended = st.ended ∧ st'.bytes = st.bytes) :
    Barrier good (b.update rel st') active := by
  have hm := State.mem_of_lookup hst
  obtain ⟨hp, ha, hfin⟩ := update_pending b rel st'
  obtain ⟨h1, h2, h3, h4, h5⟩ := hs
  refine ⟨fun f st₁ hst₁ hpl => ?_, fun f hf hun => ?_, fun x hx => ?_⟩
  · rw [lookup_update hm] at hst₁
    unfold RangeBook.queued
    rw [hp]
    split at hst₁
    · rename_i hfr
      cases hst₁
      subst hfr
      rw [h2, h3, h4, h5]
      exact h.planned f st hst (h1 ▸ hpl)
    · exact h.planned f st₁ hst₁ hpl
  · rw [ha] at hf
    unfold RangeBook.queued
    rw [hp]
    refine h.idle f hf fun st₁ hst₁ => ?_
    by_cases hfr : f = rel
    · subst hfr
      rw [hst] at hst₁
      cases hst₁
      have := hun st' (by rw [lookup_update hm, if_pos rfl])
      rwa [h1] at this
    · exact hun st₁ (by rw [lookup_update hm, if_neg hfr, hst₁])
  · rw [hfin] at hx
    exact h.finalized x hx

/-- An abandoned file drops out of the barrier, whatever becomes of its ranges. -/
theorem abandon_of_ne (h : Barrier good b active) (ha : ∀ f, f ≠ rel → active' f = active f) :
    Barrier good (b.abandon rel) active' where
  planned := by
    intro f st hst hp
    have hne : f ≠ rel := by
      rintro rfl
      have : (b.abandon f).states.lookup f = none := AList.lookup_erase _ _
      rw [this] at hst
      cases hst
    have hst' : b.states.lookup f = some st := by
      rw [← hst]
      exact (AList.lookup_erase_ne hne).symm
    rw [ha f hne]
    exact h.planned f st hst' hp
  idle := by
    intro f hf hun
    have hf' : f ≠ rel ∧ f ∉ b.abandoned := by
      simpa [RangeBook.abandon, not_or] using hf
    rw [ha f hf'.1]
    refine h.idle f hf'.2 fun st hst => hun st ?_
    rw [← hst]
    exact AList.lookup_erase_ne hf'.1
  finalized := h.finalized

theorem abandon (h : Barrier good b active) (rel : P) : Barrier good (b.abandon rel) active :=
  h.abandon_of_ne fun _ _ => rfl

/-- A file without ranges out is forgotten. -/
theorem forget (h : Barrier good b active) (h0 : b.queued rel + active rel = 0) :
    Barrier good (b.forget rel) active where
  planned := by
    intro f st hst hp
    have hne : f ≠ rel := by
      rintro rfl
      have : (b.forget f).states.lookup f = none := AList.lookup_erase _ _
      rw [this] at hst
      cases hst
    have hst' : b.states.lookup f = some st := by
      rw [← hst]
      exact (AList.lookup_erase_ne hne).symm
    exact h.planned f st hst' hp
  idle := by
    intro f hf hun
    by_cases hfr : f = rel
    · rw [hfr]
      exact h0
    · refine h.idle f hf fun st hst => hun st ?_
      rw [← hst]
      exact AList.lookup_erase_ne hfr
  finalized := h.finalized

theorem forget_absent (h : Barrier good b active) (hm : rel ∉ b.states) :
    Barrier good (b.forget rel) active where
  planned := by
    intro f st hst hp
    have he : b.states.erase rel = b.states := Table.erase_absent (AList.lookup_eq_none.2 hm)
    have hst' : b.states.lookup f = some st := by
      rw [← he]
      exact hst
    exact h.planned f st hst' hp
  idle := by
    intro f hf hun
    have he : b.states.erase rel = b.states := Table.erase_absent (AList.lookup_eq_none.2 hm)
    refine h.idle f hf fun st hst => hun st ?_
    rw [← he] at hst
    exact hst
  finalized := h.finalized

/-- A plan of fewer than `2 ^ 32` ranges is adopted: all of them are queued and counted. -/
theorem adopt (h : Barrier good b active) (hst : b.states.lookup rel = some st)
    (hun : st.planned = false) {plan : List Span} (hlen : plan.length < 2 ^ 32)
    (hgood : good st.bytes plan) : Barrier good (b.adopt rel st plan) active := by
  have hm := State.mem_of_lookup hst
  have h0 : b.queued rel + active rel = 0 := by
    refine h.idle rel (b.disjoint rel hm) fun st₁ hst₁ => ?_
    rw [hst] at hst₁
    cases hst₁
    exact hun
  have hq : ∀ f, (b.adopt rel st plan).queued f =
      b.queued f + if rel = f then (plan : Multiset Span) else 0 := by
    intro f
    have e : (b.adopt rel st plan).pending = b.pending ++ plan.map fun r => ⟨rel, r.1, r.2⟩ := rfl
    rw [RangeBook.queued, e, taskRanges_append, taskRanges_plan]
    rfl
  have hl := lookup_adopt hm st plan
  have ha : (b.adopt rel st plan).abandoned = b.abandoned := (update_pending b rel _).2.1
  have hfin : (b.adopt rel st plan).finalized = b.finalized := (update_pending b rel _).2.2
  refine ⟨fun f st₁ hst₁ hpl => ?_, fun f hf hun' => ?_, fun x hx => ?_⟩
  · rw [hl] at hst₁
    rw [hq]
    split at hst₁
    · rename_i hfr
      cases hst₁
      subst hfr
      have he : b.queued f + (plan : Multiset Span) + active f = (plan : Multiset Span) := by
        rw [add_right_comm, h0, zero_add]
      rw [if_pos rfl, he]
      refine ⟨?_, by simp [RangeState.adopted], hgood⟩
      rw [Multiset.coe_card]
      exact Nat.mod_eq_of_lt hlen
    · rename_i hfr
      rw [if_neg (Ne.symm hfr), add_zero]
      exact h.planned f st₁ hst₁ hpl
  · rw [ha] at hf
    have hfr : f ≠ rel := by
      rintro rfl
      have := hun' _ (by rw [hl, if_pos rfl])
      cases this
    rw [hq, if_neg (Ne.symm hfr), add_zero]
    exact h.idle f hf fun st₁ hst₁ => hun' st₁ (by rw [hl, if_neg hfr, hst₁])
  · rw [hfin] at hx
    exact h.finalized x hx

/-- The next waiting range goes out on a stream. -/
theorem dispatch (h : Barrier good b active) {t : RangeTask P} {rest : List (RangeTask P)}
    (hp : b.pending = t :: rest) (ha : ∀ f, active' f = oneRange t.rel t.span f + active f) :
    Barrier good (b.setPending rest) active' := by
  have hq : ∀ f, (b.setPending rest).queued f + active' f = b.queued f + active f := by
    intro f
    have e : b.queued f = oneRange t.rel t.span f + taskRanges rest f := by
      rw [RangeBook.queued, hp, taskRanges_cons]
      rfl
    rw [ha, e]
    show taskRanges rest f + _ = _
    rw [add_left_comm, add_assoc]
  refine ⟨fun f st hst hpl => ?_, fun f hf hun => ?_, h.finalized⟩
  · rw [hq]
    exact h.planned f st hst hpl
  · rw [hq]
    exact h.idle f hf hun

/-- A range out fewer, of a file that is not managed. -/
theorem drop_unmanaged (h : Barrier good b active) {b' : RangeBook P} (hs : b'.states = b.states)
    (ha : b'.abandoned = b.abandoned) (hfin : b'.finalized = b.finalized) (hm : rel ∉ b.states)
    {span : Span} (hq : ∀ f, b.queued f + active f =
      oneRange rel span f + (b'.queued f + active' f)) : Barrier good b' active' := by
  refine ⟨fun f st hst hpl => ?_, fun f hf hun => ?_, fun x hx => ?_⟩
  · rw [hs] at hst
    have hne : rel ≠ f := by
      rintro rfl
      exact hm (State.mem_of_lookup hst)
    have h1 := h.planned f st hst hpl
    rwa [hq, oneRange, if_neg hne, zero_add] at h1
  · rw [ha] at hf
    rw [hs] at hun
    have h1 := h.idle f hf hun
    rw [hq, add_eq_zero] at h1
    exact h1.2
  · rw [hfin] at hx
    exact h.finalized x hx

/-- A waiting range of a file that is not managed is dropped. -/
theorem skip (h : Barrier good b active) {t : RangeTask P} {rest : List (RangeTask P)}
    (hp : b.pending = t :: rest) (hm : t.rel ∉ b.states) :
    Barrier good (b.setPending rest) active := by
  have hq : ∀ f, b.queued f + active f =
      oneRange t.rel t.span f + ((b.setPending rest).queued f + active f) := by
    intro f
    rw [RangeBook.queued, hp, taskRanges_cons, add_assoc]
    rfl
  exact h.drop_unmanaged rfl rfl rfl hm hq

/-- The End of a range whose file is not managed. -/
theorem end_unmanaged (h : Barrier good b active) (hm : rel ∉ b.states) {span : Span}
    (ha : ∀ f, active f = oneRange rel span f + active' f) : Barrier good b active' := by
  have hq : ∀ f, b.queued f + active f = oneRange rel span f + (b.queued f + active' f) := by
    intro f
    rw [ha, add_left_comm]
  exact h.drop_unmanaged rfl rfl rfl hm hq

/-- A managed file with a range on a stream is planned. -/
theorem planned_of_active (h : Barrier good b active) (hst : b.states.lookup rel = some st)
    {span : Span} {rest : Multiset Span} (ha : active rel = {span} + rest) : st.planned = true := by
  by_contra hun
  have h0 := h.idle rel (b.disjoint rel (State.mem_of_lookup hst)) (by
    intro st₁ hst₁
    rw [hst] at hst₁
    cases hst₁
    simpa using hun)
  rw [ha, add_eq_zero, add_eq_zero] at h0
  exact Multiset.singleton_ne_zero span h0.2.1

/-- The End of a range: it leaves its stream and the barrier falls by one. -/
theorem endRange (h : Barrier good b active) (hst : b.states.lookup rel = some st) {span : Span}
    (ha : ∀ f, active f = oneRange rel span f + active' f) :
    Barrier good (b.endRange rel st span) active' := by
  have hm := State.mem_of_lookup hst
  have harel : active rel = {span} + active' rel := by
    rw [ha, oneRange, if_pos rfl]
  have hpl := h.planned_of_active hst harel
  obtain ⟨hp, hab, hfin⟩ := update_pending b rel
    { st with pendingRanges := st.pendingRanges - 1, ended := st.ended ++ [span] }
  have hq : ∀ f, (b.endRange rel st span).queued f = b.queued f := by
    intro f
    exact congrArg (taskRanges · f) hp
  refine ⟨fun f st₁ hst₁ hpl₁ => ?_, fun f hf hun => ?_, fun x hx => ?_⟩
  · rw [RangeBook.endRange, lookup_update hm] at hst₁
    rw [hq]
    split at hst₁
    · rename_i hfr
      cases hst₁
      subst hfr
      obtain ⟨h1, h2, h3⟩ := h.planned f st hst hpl
      rw [harel] at h1 h2
      refine ⟨?_, ?_, h3⟩
      · simp only [Multiset.card_add, Multiset.card_singleton] at h1 ⊢
        omega
      · rw [h2, ← Multiset.coe_add, Multiset.coe_singleton]
        ac_rfl
    · rename_i hfr
      have h1 := h.planned f st₁ hst₁ hpl₁
      rwa [ha, oneRange, if_neg (Ne.symm hfr), zero_add] at h1
  · have hf' : f ∉ b.abandoned := hab ▸ hf
    have hfr : f ≠ rel := by
      rintro rfl
      have := hun _ (by rw [RangeBook.endRange, lookup_update hm, if_pos rfl])
      rw [← Bool.not_eq_true] at this
      exact this hpl
    have h1 := h.idle f hf' fun st₁ hst₁ =>
      hun st₁ (by rw [RangeBook.endRange, lookup_update hm, if_neg hfr, hst₁])
    rw [hq]
    rwa [ha, oneRange, if_neg (Ne.symm hfr), zero_add] at h1
  · have hx' : x ∈ b.finalized := hfin ▸ hx
    exact h.finalized x hx'

/-- The failover puts a range back from its stream. -/
theorem requeue (h : Barrier good b active) (r : ActiveRange P)
    (ha : ∀ f, active f = oneRange r.rel r.span f + active' f) :
    Barrier good (b.requeue r) active' := by
  unfold RangeBook.requeue
  split
  · have hq : ∀ f, (b.setPending (b.pending ++ [⟨r.rel, r.destOffset, r.length⟩])).queued f +
        active' f = b.queued f + active f := by
      intro f
      rw [ha]
      show taskRanges (b.pending ++ [⟨r.rel, r.destOffset, r.length⟩]) f + active' f =
        taskRanges b.pending f + _
      rw [taskRanges_append, taskRanges_cons, add_assoc]
      simp only [taskRanges, List.map_nil, List.sum_nil, add_zero]
      rfl
    refine ⟨fun f st hst hpl => ?_, fun f hf hun => ?_, h.finalized⟩
    · rw [hq]
      exact h.planned f st hst hpl
    · rw [hq]
      exact h.idle f hf hun
  · rename_i hm
    exact h.end_unmanaged hm ha

/-- A planned file with barrier 0 has no range out and all Ends. -/
theorem ended_of_zero (h : Barrier good b active) (hst : b.states.lookup rel = some st)
    (hp : st.planned = true) (h0 : st.pendingRanges = 0) :
    b.queued rel + active rel = 0 ∧ (st.plan : Multiset Span) = st.ended := by
  obtain ⟨h1, h2, -⟩ := h.planned rel st hst hp
  have hz : b.queued rel + active rel = 0 := by
    rw [← Multiset.card_eq_zero]
    omega
  rw [hz, zero_add] at h2
  exact ⟨hz, h2⟩

/-- A file with all its Ends is noted as finalized. -/
theorem noteFinalized (h : Barrier good b active) (hst : b.states.lookup rel = some st)
    (hp : st.planned = true) (h0 : st.pendingRanges = 0) :
    Barrier good (b.noteFinalized rel st) active where
  planned := h.planned
  idle := h.idle
  finalized := by
    intro x hx
    rcases List.mem_cons.1 hx with rfl | hx
    · exact ⟨(h.ended_of_zero hst hp h0).2, (h.planned rel st hst hp).2.2⟩
    · exact h.finalized x hx

end Barrier

end FastClone.Client
