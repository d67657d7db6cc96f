import FastClone.Proof.RangeBarrier
import FastClone.Proof.ClientAccounting

/-!
# The range barrier holds along every run

`RangesOk` is the barrier of both books in a state of the client, with what delta files
need besides: at most one plan of a file is being built, and only while the file waits for
it. Every step keeps it as long as no file is cut into `2 ^ 32` ranges or more
(`FewRanges`): the counter has 32 bits.
-/

set_option linter.unusedSectionVars false

namespace FastClone.Client

open Spans State Runs

variable {P H : Type} [DecidableEq P] [DecidableEq H]

/-! ### Plans of delta files -/

/-- How many plans of a file are queued, being built or built. -/
def DeltaStage.plansFor (d : DeltaStage P) (f : P) : ℕ :=
  d.planTasks.count f + d.planning.count f + (d.planResults.map PlanResult.rel).count f

/-- The file has its signature and no plan yet. -/
def awaitsPlan (st : RangeState) : Bool := st.sigReceived && !st.planned

/-- The delta files with the ranges active on streams. A file that was not abandoned has one plan
on its way exactly while it waits for one. -/
structure DeltaOk (cfg : Config) (d : DeltaStage P) (active : P → Multiset Span) : Prop where
  barrier : Barrier (fun _ plan => ∃ misses, plan = deltaRanges cfg.effectiveChunkSize misses)
    d.book active
  one : ∀ f, f ∉ d.book.abandoned →
    d.plansFor f = if (d.book.states.lookup f).any awaitsPlan then 1 else 0
  ready : ∀ f st, d.book.states.lookup f = some st → st.planned = true → st.sigReceived = true
  shape : ∀ r ∈ d.planResults, ∀ ranges, r.ranges = some ranges →
    ∃ misses, ranges = deltaRanges cfg.effectiveChunkSize misses

namespace DeltaOk

variable {cfg : Config} {d d' : DeltaStage P} {active active' : P → Multiset Span} {rel : P}

/-- The same plans, and a book in which no file changes what it waits for. -/
theorem rebook (h : DeltaOk cfg d active)
    (hplans : d'.planTasks = d.planTasks ∧ d'.planning = d.planning ∧ d'.planResults = d.planResults)
    (hb : Barrier (fun _ plan => ∃ misses, plan = deltaRanges cfg.effectiveChunkSize misses)
      d'.book active')
    (hf : ∀ f, f ∉ d'.book.abandoned → f ∉ d.book.abandoned ∧
      (d'.book.states.lookup f).any awaitsPlan = (d.book.states.lookup f).any awaitsPlan)
    (hr : ∀ f st, d'.book.states.lookup f = some st → st.planned = true → st.sigReceived = true) :
    DeltaOk cfg d' active' where
  barrier := hb
  one := by
    intro f hab
    obtain ⟨h1, h2⟩ := hf f hab
    obtain ⟨e1, e2, e3⟩ := hplans
    rw [h2, ← h.one f h1]
    simp only [DeltaStage.plansFor, e1, e2, e3]
  ready := hr
  shape := by
    rw [hplans.2.2]
    exact h.shape

/-- The same book and the same plans. -/
theorem congr (h : DeltaOk cfg d active) (hb : d'.book = d.book)
    (hplans : d'.planTasks = d.planTasks ∧ d'.planning = d.planning ∧ d'.planResults = d.planResults)
    (ha : ∀ f, active' f = active f) : DeltaOk cfg d' active' := by
  refine h.rebook hplans (hb ▸ h.barrier.congr ha) ?_ ?_
  · intro f hf
    rw [hb] at hf ⊢
    exact ⟨hf, rfl⟩
  · rw [hb]
    exact h.ready

/-- Only the waiting ranges or the ranges on streams change. -/
theorem setBarrier (h : DeltaOk cfg d active) {b : RangeBook P} (hs : b.states = d.book.states)
    (ha : b.abandoned = d.book.abandoned)
    (hb : Barrier (fun _ plan => ∃ misses, plan = deltaRanges cfg.effectiveChunkSize misses)
      b active') : DeltaOk cfg { d with book := b } active' := by
  refine h.rebook ⟨rfl, rfl, rfl⟩ hb ?_ ?_
  · intro f hf
    dsimp only at hf ⊢
    rw [ha] at hf
    rw [hs]
    exact ⟨hf, rfl⟩
  · dsimp only
    rw [hs]
    exact h.ready

theorem manage (h : DeltaOk cfg d active) {bytes : ℕ} {b : RangeBook P}
    (hm : d.book.manage rel bytes = some b) : DeltaOk cfg { d with book := b } active := by
  have hb := h.barrier.manage hm
  obtain ⟨-, hnew, hdisjoint, rfl⟩ := RangeBook.manage_eq_some hm
  have hnone : d.book.states.lookup rel = none := AList.lookup_eq_none.2 hnew
  refine h.rebook ⟨rfl, rfl, rfl⟩ hb ?_ ?_
  · intro f hf
    refine ⟨hf, ?_⟩
    by_cases hfr : f = rel
    · subst hfr
      simp only [AList.lookup_insert, hnone]
      rfl
    · simp only [AList.lookup_insert_ne hfr]
  · intro f st hst hp
    by_cases hfr : f = rel
    · subst hfr
      simp only [AList.lookup_insert] at hst
      cases hst
      cases hp
    · simp only [AList.lookup_insert_ne hfr] at hst
      exact h.ready f st hst hp

theorem abandon_of_ne (h : DeltaOk cfg d active) (ha : ∀ f, f ≠ rel → active' f = active f) :
    DeltaOk cfg { d with book := d.book.abandon rel } active' := by
  refine h.rebook ⟨rfl, rfl, rfl⟩ (h.barrier.abandon_of_ne ha) ?_ ?_
  · intro f hf
    have hf' : f ≠ rel ∧ f ∉ d.book.abandoned := by
      simpa [RangeBook.abandon, not_or] using hf
    refine ⟨hf'.2, ?_⟩
    have he : (d.book.abandon rel).states.lookup f = d.book.states.lookup f :=
      AList.lookup_erase_ne hf'.1
    simp only [he]
  · intro f st hst hp
    exact h.ready f st (Table.lookup_of_erase hst) hp

/-- A planned file whose barrier is 0 is finalized and forgotten. -/
theorem finish (h : DeltaOk cfg d active) {st : RangeState}
    (hst : d.book.states.lookup rel = some st) (hp : st.planned = true)
    (h0 : st.pendingRanges = 0) :
    DeltaOk cfg { d with book := (d.book.noteFinalized rel st).forget rel } active := by
  have hz := (h.barrier.ended_of_zero hst hp h0).1
  refine h.rebook ⟨rfl, rfl, rfl⟩ ((h.barrier.noteFinalized hst hp h0).forget hz) ?_ ?_
  · intro f hf
    refine ⟨hf, ?_⟩
    by_cases hfr : f = rel
    · subst hfr
      have he : ((d.book.noteFinalized f st).forget f).states.lookup f = none :=
        AList.lookup_erase _ _
      simp [he, hst, awaitsPlan, hp]
    · have he : ((d.book.noteFinalized rel st).forget rel).states.lookup f =
          d.book.states.lookup f := AList.lookup_erase_ne hfr
      simp only [he]
  · intro f st₁ hst₁ hp₁
    exact h.ready f st₁ (Table.lookup_of_erase hst₁) hp₁

/-- A planned file whose barrier is 0 fails to finalize. -/
theorem giveUp (h : DeltaOk cfg d active) {st : RangeState}
    (hst : d.book.states.lookup rel = some st) (hp : st.planned = true)
    (h0 : st.pendingRanges = 0) :
    DeltaOk cfg { d with book := (d.book.noteFinalized rel st).abandon rel } active := by
  have h' : DeltaOk cfg { d with book := d.book.noteFinalized rel st } active :=
    h.setBarrier rfl rfl (h.barrier.noteFinalized hst hp h0)
  exact h'.abandon_of_ne fun _ _ => rfl

/-- The state of a file replaced by one with the same plan and signature. -/
theorem endRange (h : DeltaOk cfg d active) {st : RangeState}
    (hst : d.book.states.lookup rel = some st) {span : Span}
    (ha : ∀ f, active f = oneRange rel span f + active' f) :
    DeltaOk cfg { d with book := d.book.endRange rel st span } active' := by
  have hm := mem_of_lookup hst
  refine h.rebook ⟨rfl, rfl, rfl⟩ (h.barrier.endRange hst ha) ?_ ?_
  · intro f hf
    refine ⟨(Barrier.update_pending d.book rel _).2.1 ▸ hf, ?_⟩
    dsimp only
    rw [RangeBook.endRange, Barrier.lookup_update hm]
    split
    · rename_i hfr
      rw [hfr, hst]
      rfl
    · rfl
  · intro f st₁ hst₁ hp
    dsimp only at hst₁
    rw [RangeBook.endRange, Barrier.lookup_update hm] at hst₁
    split at hst₁
    · cases hst₁
      exact h.ready rel st hst hp
    · exact h.ready f st₁ hst₁ hp

/-- The signature of a file arrives and its plan is asked for. -/
theorem signature (h : DeltaOk cfg d active) {st : RangeState}
    (hst : d.book.states.lookup rel = some st) (hs : st.sigReceived = false) :
    DeltaOk cfg ({ d with book := d.book.update rel { st with sigReceived := true } }.pushPlan rel)
      active := by
  have hm := mem_of_lookup hst
  have hun : st.planned = false := by
    by_contra hp
    have := h.ready rel st hst (by simpa using hp)
    rw [hs] at this
    cases this
  refine ⟨h.barrier.update_same hst ⟨rfl, rfl, rfl, rfl, rfl⟩, ?_, ?_, h.shape⟩
  · intro f hf
    have hf' : f ∉ d.book.abandoned := (Barrier.update_pending d.book rel _).2.1 ▸ hf
    have h1 := h.one f hf'
    have hcount : ({ d with book := d.book.update rel { st with sigReceived := true } }.pushPlan
        rel).plansFor f = d.plansFor f + if rel = f then 1 else 0 := by
      simp only [DeltaStage.plansFor, DeltaStage.pushPlan, List.count_append, List.count_singleton,
        beq_iff_eq]
      omega
    have hl : ({ d with book := d.book.update rel { st with sigReceived := true } }.pushPlan
        rel).book.states.lookup f = if f = rel then some { st with sigReceived := true } else
          d.book.states.lookup f := Barrier.lookup_update hm _ f
    rw [hcount, h1, hl]
    by_cases hfr : f = rel
    · subst hfr
      simp [hst, awaitsPlan, hs, hun]
    · simp [hfr, Ne.symm hfr]
  · intro f st₁ hst₁ hp
    dsimp only [DeltaStage.pushPlan] at hst₁
    rw [Barrier.lookup_update hm] at hst₁
    split at hst₁
    · cases hst₁
      rfl
    · exact h.ready f st₁ hst₁ hp

theorem planTake (h : DeltaOk cfg d active) : DeltaOk cfg d.planTake active := by
  unfold DeltaStage.planTake
  split
  · exact h
  · rename_i rel rest hq
    refine ⟨h.barrier, fun f hf => ?_, h.ready, h.shape⟩
    dsimp only at hf ⊢
    rw [← h.one f hf]
    simp only [DeltaStage.plansFor, hq, List.count_cons]
    omega

theorem planPublish (h : DeltaOk cfg d active) (i : ℕ) (misses : Option (List Span)) :
    DeltaOk cfg (d.planPublish i (misses.map (deltaRanges cfg.effectiveChunkSize))) active := by
  unfold DeltaStage.planPublish
  split
  · exact h
  · rename_i rel hi
    obtain ⟨hlt, hget⟩ := List.getElem?_eq_some_iff.1 hi
    have hperm := List.getElem_cons_eraseIdx_perm hlt
    rw [hget] at hperm
    refine ⟨h.barrier, fun f hf => ?_, h.ready, ?_⟩
    · dsimp only at hf ⊢
      rw [← h.one f hf]
      have hc := hperm.count_eq f
      rw [List.count_cons] at hc
      simp only [DeltaStage.plansFor, List.map_append, List.count_append, List.map_cons,
        List.map_nil, List.count_cons, List.count_nil]
      omega
    · intro r hr ranges hranges
      rcases List.mem_append.1 hr with hr | hr
      · exact h.shape r hr ranges hranges
      · rw [List.mem_singleton.1 hr] at hranges
        obtain ⟨m, -, hm⟩ := Option.map_eq_some_iff.1 hranges
        exact ⟨m, hm.symm⟩

theorem drainPlan_spec {r : PlanResult P} (h : d.drainPlan = some (r, d')) :
    d'.book = d.book ∧ r ∈ d.planResults ∧ (∀ x ∈ d'.planResults, x ∈ d.planResults) ∧
      ∀ f, d.plansFor f = d'.plansFor f + if r.rel = f then 1 else 0 := by
  obtain ⟨hr, hbook, -, -, -, htasks, hplanning⟩ := State.drainPlan_eq_some h
  refine ⟨hbook, by simp [hr], fun x hx => by simp [hr, hx], fun f => ?_⟩
  simp only [DeltaStage.plansFor, hr, htasks, hplanning, List.map_cons, List.count_cons, beq_iff_eq]
  omega

/-- The result of a file that is gone is dropped. -/
theorem drain_absent (h : DeltaOk cfg d active) {r : PlanResult P}
    (hd : d.drainPlan = some (r, d')) (hnone : d.book.states.lookup r.rel = none) :
    DeltaOk cfg d' active := by
  obtain ⟨hb, -, hsub, hplans⟩ := drainPlan_spec hd
  refine ⟨hb ▸ h.barrier, fun f hf => ?_, hb ▸ h.ready, fun x hx => h.shape x (hsub x hx)⟩
  rw [hb] at hf ⊢
  have h1 := h.one f hf
  rw [hplans] at h1
  have hne : r.rel ≠ f := by
    rintro rfl
    simp [hnone] at h1
  simpa [hne] using h1

/-- A result without a plan abandons its file. -/
theorem drain_abandon (h : DeltaOk cfg d active) {r : PlanResult P}
    (hd : d.drainPlan = some (r, d')) :
    DeltaOk cfg { d' with book := d'.book.abandon r.rel } active := by
  obtain ⟨hb, -, hsub, hplans⟩ := drainPlan_spec hd
  rw [hb]
  refine ⟨h.barrier.abandon r.rel, fun f hf => ?_, fun f st hst hp => ?_,
    fun x hx => h.shape x (hsub x hx)⟩
  · have hf' : f ≠ r.rel ∧ f ∉ d.book.abandoned := by
      simpa [RangeBook.abandon, not_or] using hf
    have he : (d.book.abandon r.rel).states.lookup f = d.book.states.lookup f :=
      AList.lookup_erase_ne hf'.1
    have h1 := h.one f hf'.2
    rw [hplans, if_neg (Ne.symm hf'.1)] at h1
    dsimp only
    rw [he]
    exact h1
  · exact h.ready f st (Table.lookup_of_erase hst) hp

/-- A result with fewer than `2 ^ 32` ranges is adopted. -/
theorem drain_adopt (h : DeltaOk cfg d active) {r : PlanResult P} {st : RangeState}
    {ranges : List Span} (hd : d.drainPlan = some (r, d'))
    (hst : d.book.states.lookup r.rel = some st) (hr : r.ranges = some ranges)
    (hlen : ranges.length < 2 ^ 32) :
    DeltaOk cfg { d' with book := d'.book.adopt r.rel st ranges } active := by
  obtain ⟨hb, hmem, hsub, hplans⟩ := drainPlan_spec hd
  rw [hb]
  have hm := mem_of_lookup hst
  have hab : r.rel ∉ d.book.abandoned := d.book.disjoint r.rel hm
  -- a plan is on its way, so the file has its signature and waits for the plan
  have hwait : st.sigReceived = true ∧ st.planned = false := by
    have h1 := h.one r.rel hab
    rw [hplans, if_pos rfl, hst] at h1
    by_contra hno
    have hf : awaitsPlan st = false := by
      unfold awaitsPlan
      cases hs : st.sigReceived <;> cases hp : st.planned <;> simp_all
    simp [hf] at h1
  refine ⟨h.barrier.adopt hst hwait.2 hlen (h.shape r hmem ranges hr), fun f hf => ?_,
    fun f st₁ hst₁ hp => ?_, fun x hx => h.shape x (hsub x hx)⟩
  · have hf' : f ∉ d.book.abandoned := (Barrier.update_pending d.book r.rel _).2.1 ▸ hf
    have h1 := h.one f hf'
    rw [hplans] at h1
    dsimp only
    rw [Barrier.lookup_adopt hm]
    by_cases hfr : f = r.rel
    · subst hfr
      have h0 : d'.plansFor r.rel = 0 := by
        simpa [hst, awaitsPlan, hwait.1, hwait.2] using h1
      rw [if_pos rfl]
      simp only [Option.any_some, awaitsPlan, RangeState.adopted, Bool.not_true, Bool.and_false]
      exact h0
    · rw [if_neg hfr]
      rw [if_neg (Ne.symm hfr)] at h1
      exact h1
  · have hst₂ : (d.book.adopt r.rel st ranges).states.lookup f = some st₁ := hst₁
    rw [Barrier.lookup_adopt hm] at hst₂
    split at hst₂
    · cases hst₂
      exact hwait.1
    · exact h.ready f st₁ hst₂ hp

end DeltaOk

/-! ### Both books in a state -/

/-- The barrier of the delta files and of the block-mode files. -/
structure RangesOk (cfg : Config) (s : State P H) : Prop where
  delta : DeltaOk cfg s.delta (s.streams.ranges .delta)
  block : Barrier (fun n plan => plan = fileRangePlan cfg.largeFileBlockBytes n) s.range.book
    (s.streams.ranges .block)

namespace RangesOk

variable {cfg : Config} {s s' : State P H} {lost : List ℕ}

theorem start (cfg : Config) : RangesOk cfg (State.start P H cfg) where
  delta :=
    { barrier := Barrier.empty _
      one := fun _ _ => rfl
      ready := by
        intro f st h
        cases h
      shape := by
        intro r h
        cases h }
  block := Barrier.empty _

theorem beside (h : RangesOk cfg s) (hb : Beside lost s s') : RangesOk cfg s' where
  delta := by
    rw [hb.delta]
    exact h.delta.congr rfl ⟨rfl, rfl, rfl⟩ (hb.ranges .delta)
  block := by
    rw [hb.range]
    exact h.block.congr (hb.ranges .block)

theorem setDelta (h : RangesOk cfg s) {d : DeltaStage P}
    (hd : DeltaOk cfg d (s.streams.ranges .delta)) : RangesOk cfg { s with delta := d } :=
  ⟨hd, h.block⟩

theorem setBlock (h : RangesOk cfg s) {r : FileRangeStage P}
    (hr : Barrier (fun n plan => plan = fileRangePlan cfg.largeFileBlockBytes n) r.book
      (s.streams.ranges .block)) : RangesOk cfg { s with range := r } :=
  ⟨h.delta, hr⟩

/-! ### Admission -/

theorem enterFileRangeOrSchedule (h : RangesOk cfg s) (rel : P) :
    RangesOk cfg (s.enterFileRangeOrSchedule cfg rel) := by
  unfold State.enterFileRangeOrSchedule
  cases he : s.tryEnterFileRange cfg rel with
  | none => exact h.beside (beside_scheduleTransfer [] s rel)
  | some s' =>
    obtain ⟨book, hbook, rfl⟩ := State.tryEnterFileRange_eq_some he
    exact h.setBlock (h.block.manage hbook)

theorem enterOrSchedule (h : RangesOk cfg s) (rel : P) (old : Bool) :
    RangesOk cfg (s.enterOrSchedule cfg rel old) := by
  unfold State.enterOrSchedule
  cases he : s.tryEnterDelta cfg rel old with
  | none => exact h.enterFileRangeOrSchedule rel
  | some s' =>
    obtain ⟨-, book, hbook, rfl⟩ := State.tryEnterDelta_eq_some he
    exact h.setDelta ((h.delta.manage hbook).congr rfl ⟨rfl, rfl, rfl⟩ fun _ => rfl)

/-! ### Finalization -/

theorem finalizeDelta (h : RangesOk cfg s) (rel : P) (fin : TempFinalizeResult)
    (hz : ∀ st, s.delta.book.states.lookup rel = some st →
      st.planned = true ∧ st.pendingRanges = 0) : RangesOk cfg (s.finalizeDelta cfg rel fin) := by
  unfold State.finalizeDelta
  split
  · exact h
  · rename_i st hst
    obtain ⟨hp, h0⟩ := hz st hst
    extract_lets book
    split
    · exact (h.setDelta (h.delta.finish hst hp h0)).beside (beside_countTransferred [] _ rel)
    · exact (h.setDelta (h.delta.giveUp hst hp h0)).enterFileRangeOrSchedule rel

theorem finalizeFileRange (h : RangesOk cfg s) (rel : P) (fin : TempFinalizeResult)
    (hz : ∀ st, s.range.book.states.lookup rel = some st →
      st.planned = true ∧ st.pendingRanges = 0) : RangesOk cfg (s.finalizeFileRange rel fin) := by
  unfold State.finalizeFileRange
  split
  · exact h
  · rename_i st hst
    obtain ⟨hp, h0⟩ := hz st hst
    have hout := (h.block.ended_of_zero hst hp h0).1
    extract_lets book
    have hb := h.block.noteFinalized hst hp h0
    split
    · exact (h.setBlock (r := { s.range with book := book.forget rel }) (hb.forget hout)).beside
        (beside_countTransferred [] _ rel)
    · exact (h.setBlock (r := { s.range with book := book.abandon rel }) (hb.abandon rel)).beside
        (beside_scheduleTransfer [] _ rel)

/-! ### Plans -/

theorem applyDeltaPlanResult (h : RangesOk cfg s) (fin : TempFinalizeResult)
    (hfew : ∀ r ranges, s.delta.planResults.head? = some r → r.rel ∈ s.delta.book.states →
      r.ranges = some ranges → ranges.length < 2 ^ 32) : RangesOk cfg (s.applyDeltaPlanResult cfg fin) := by
  unfold State.applyDeltaPlanResult
  split
  · exact h
  · rename_i r d hd
    have hhead : s.delta.planResults.head? = some r := by
      rw [(State.drainPlan_eq_some hd).1]
      rfl
    have hbook := (DeltaOk.drainPlan_spec hd).1
    split
    · rename_i hnone
      exact h.setDelta (h.delta.drain_absent hd (hbook ▸ hnone))
    · rename_i st hst
      have hst' : s.delta.book.states.lookup r.rel = some st := hbook ▸ hst
      split
      · exact (h.setDelta (h.delta.drain_abandon hd)).enterFileRangeOrSchedule r.rel
      · rename_i ranges hr
        have hlen := hfew r ranges hhead (mem_of_lookup hst') hr
        extract_lets s₁
        have h₁ : RangesOk cfg s₁ := h.setDelta (h.delta.drain_adopt hd hst' hr hlen)
        split
        · rename_i h0
          refine h₁.finalizeDelta r.rel fin fun st₁ hst₁ => ?_
          have hl : (d.book.adopt r.rel st ranges).states.lookup r.rel = some st₁ := hst₁
          rw [Barrier.lookup_adopt (mem_of_lookup hst), if_pos rfl] at hl
          cases hl
          exact ⟨rfl, h0⟩
        · exact h₁

theorem beginFileRangePlan (h : RangesOk cfg s) (openOk : Bool) (fin : TempFinalizeResult)
    (hfew : ∀ rel st, s.range.pendingFileRangePlans.head? = some rel →
      s.range.book.states.lookup rel = some st → st.planned = false →
      st.bytes ≤ (2 ^ 32 - 1) * cfg.largeFileBlockBytes) :
    RangesOk cfg (s.beginFileRangePlan cfg openOk fin) := by
  unfold State.beginFileRangePlan
  split
  · exact h
  · rename_i rel rest hq
    extract_lets src s₁
    have h₁ : RangesOk cfg s₁ := h.setBlock (r := { s.range with pendingFileRangePlans := rest }) h.block
    split
    · exact h₁
    · rename_i st hst
      split
      · exact h₁
      · rename_i hun
        have hun' : st.planned = false := by simpa using hun
        split
        · exact (h₁.setBlock (r := { s₁.range with book := s₁.range.book.abandon rel })
            (h₁.block.abandon rel)).beside (beside_scheduleTransfer [] _ rel)
        · extract_lets plan s₂
          have hlen : plan.length < 2 ^ 32 :=
            length_fileRangePlan cfg.block_pos (hfew rel st (by rw [hq]; rfl) hst hun')
          have h₂ : RangesOk cfg s₂ := h₁.setBlock (h₁.block.adopt hst hun' hlen rfl)
          split
          · rename_i h0
            refine h₂.finalizeFileRange rel fin fun st₁ hst₁ => ?_
            have hl : (s₁.range.book.adopt rel st plan).states.lookup rel = some st₁ := hst₁
            rw [Barrier.lookup_adopt (mem_of_lookup hst), if_pos rfl] at hl
            cases hl
            exact ⟨rfl, h0⟩
          · exact h₂

/-! ### Ranges on streams -/

theorem ranges_open_delta (t : Streams P) (lane : ℕ) (r : ActiveRange P) (f : P) :
    (t.openNext lane (.deltaRange r)).ranges .delta f = oneRange r.rel r.span f + t.ranges .delta f ∧
      (t.openNext lane (.deltaRange r)).ranges .block f = t.ranges .block f := by
  rw [Streams.ranges_openNext, Streams.ranges_openNext]
  simp [Stream.ranges, oneRange]

theorem ranges_open_block (t : Streams P) (lane : ℕ) (r : ActiveRange P) (f : P) :
    (t.openNext lane (.fileRange r)).ranges .block f = oneRange r.rel r.span f + t.ranges .block f ∧
      (t.openNext lane (.fileRange r)).ranges .delta f = t.ranges .delta f := by
  rw [Streams.ranges_openNext, Streams.ranges_openNext]
  simp [Stream.ranges, oneRange]

theorem ranges_close_delta {t : Streams P} {k : Key} {r : ActiveRange P}
    (hk : t.find k = some (.deltaRange r)) (f : P) :
    t.ranges .delta f = oneRange r.rel r.span f + (t.close k).ranges .delta f ∧
      (t.close k).ranges .block f = t.ranges .block f := by
  rw [Streams.ranges_close hk .delta, Streams.ranges_close hk .block]
  simp [Stream.ranges, oneRange]

theorem ranges_close_block {t : Streams P} {k : Key} {r : ActiveRange P}
    (hk : t.find k = some (.fileRange r)) (f : P) :
    t.ranges .block f = oneRange r.rel r.span f + (t.close k).ranges .block f ∧
      (t.close k).ranges .delta f = t.ranges .delta f := by
  rw [Streams.ranges_close hk .delta, Streams.ranges_close hk .block]
  simp [Stream.ranges, oneRange]

theorem tryStartDeltaRange (h : RangesOk cfg s) (lane : ℕ) (sendOk : Bool) :
    RangesOk cfg (s.tryStartDeltaRange cfg lane sendOk) := by
  unfold State.tryStartDeltaRange
  split
  · exact h
  · rename_i t rest hp
    extract_lets popped
    split
    · rename_i hm
      exact h.setDelta (h.delta.setBarrier rfl rfl (h.delta.barrier.skip hp hm))
    · split
      · cases sendOk with
        | true =>
          have hopen := ranges_open_delta s.streams lane ⟨t.rel, t.offset, t.length, 0⟩
          refine ⟨h.delta.setBarrier rfl rfl (h.delta.barrier.dispatch hp fun f => (hopen f).1), ?_⟩
          exact h.block.congr fun f => (hopen f).2
        | false => exact ⟨h.delta, h.block⟩
      · exact h

theorem tryStartFileRange (h : RangesOk cfg s) (lane : ℕ) (sendOk : Bool) :
    RangesOk cfg (s.tryStartFileRange cfg lane sendOk) := by
  unfold State.tryStartFileRange
  split
  · exact h
  · rename_i t rest hp
    extract_lets popped
    split
    · rename_i hm
      exact h.setBlock (r := { s.range with book := s.range.book.setPending rest })
        (h.block.skip hp hm)
    · split
      · cases sendOk with
        | true =>
          have hopen := ranges_open_block s.streams lane ⟨t.rel, t.offset, t.length, 0⟩
          refine ⟨?_, h.block.dispatch hp fun f => (hopen f).1⟩
          exact h.delta.congr rfl ⟨rfl, rfl, rfl⟩ fun f => (hopen f).2
        | false => exact ⟨h.delta, h.block⟩
      · exact h

theorem updateRange (h : RangesOk cfg s) {k : Key} {st st' : Stream P}
    (hk : s.streams.find k = some st) (hst : ∀ kind f, st'.ranges kind f = st.ranges kind f) :
    RangesOk cfg { s with streams := s.streams.update k st' } := by
  have hb : Beside [] s { s with streams := s.streams.update k st' } :=
    beside_streams (.refl [] s.pool) fun kind f => Streams.ranges_update hk kind f (hst kind f)
  exact h.beside hb

theorem deltaRangeChunk (h : RangesOk cfg s) (k : Key) (len : ℕ) :
    RangesOk cfg (s.deltaRangeChunk k len) := by
  unfold State.deltaRangeChunk
  split
  · rename_i r hk
    exact h.updateRange hk fun _ _ => rfl
  · exact h.beside (beside_unknownStream [] s _ _)

theorem fileRangeData (h : RangesOk cfg s) (k : Key) (len : ℕ) :
    RangesOk cfg (s.fileRangeData k len) := by
  unfold State.fileRangeData
  split
  · rename_i r hk
    exact h.updateRange hk fun _ _ => rfl
  · exact h.beside (beside_unknownStream [] s _ _)

/-- **The End of a delta range.** -/
theorem deltaRangeEnd (h : RangesOk cfg s) (k : Key) (fin : TempFinalizeResult) :
    RangesOk cfg (s.deltaRangeEnd cfg k fin) := by
  unfold State.deltaRangeEnd
  split
  · rename_i r hk
    have hclose := ranges_close_delta hk
    extract_lets s₁
    have hblock : Barrier (fun n plan => plan = fileRangePlan cfg.largeFileBlockBytes n)
        s₁.range.book (s₁.streams.ranges .block) := h.block.congr fun f => (hclose f).2
    split
    · rename_i hnone
      have hb := h.delta.barrier.end_unmanaged (AList.lookup_eq_none.1 hnone) fun f => (hclose f).1
      exact ⟨h.delta.setBarrier rfl rfl hb, hblock⟩
    · rename_i st hst
      extract_lets s₂
      have h₂ : RangesOk cfg s₂ := ⟨h.delta.endRange hst fun f => (hclose f).1, hblock⟩
      split
      · rename_i h0
        refine h₂.finalizeDelta r.rel fin fun st₁ hst₁ => ?_
        have hl : (s.delta.book.endRange r.rel st r.span).states.lookup r.rel = some st₁ := hst₁
        have hm : r.rel ∈ s.delta.book.states := mem_of_lookup hst
        rw [RangeBook.endRange, Barrier.lookup_update hm, if_pos rfl] at hl
        have hrel : s.streams.ranges .delta r.rel =
            {r.span} + (s.streams.close k).ranges .delta r.rel := by
          have := (hclose r.rel).1
          rwa [oneRange, if_pos rfl] at this
        have hp : st.planned = true := h.delta.barrier.planned_of_active hst hrel
        cases hl
        exact ⟨hp, h0⟩
      · exact h₂
  · exact h.beside (beside_unknownStream [] s _ _)

/-- **The End of a block.** -/
theorem fileRangeEnd (h : RangesOk cfg s) (k : Key) (fin : TempFinalizeResult) :
    RangesOk cfg (s.fileRangeEnd k fin) := by
  unfold State.fileRangeEnd
  split
  · rename_i r hk
    have hclose := ranges_close_block hk
    extract_lets s₁
    have hdelta : DeltaOk cfg s₁.delta (s₁.streams.ranges .delta) :=
      h.delta.congr rfl ⟨rfl, rfl, rfl⟩ fun f => (hclose f).2
    split
    · rename_i hnone
      exact ⟨hdelta, h.block.end_unmanaged (AList.lookup_eq_none.1 hnone) fun f => (hclose f).1⟩
    · rename_i st hst
      extract_lets s₂
      have h₂ : RangesOk cfg s₂ := ⟨hdelta, h.block.endRange hst fun f => (hclose f).1⟩
      split
      · rename_i h0
        refine h₂.finalizeFileRange r.rel fin fun st₁ hst₁ => ?_
        have hl : (s.range.book.endRange r.rel st r.span).states.lookup r.rel = some st₁ := hst₁
        have hm : r.rel ∈ s.range.book.states := mem_of_lookup hst
        rw [RangeBook.endRange, Barrier.lookup_update hm, if_pos rfl] at hl
        have hrel : s.streams.ranges .block r.rel =
            {r.span} + (s.streams.close k).ranges .block r.rel := by
          have := (hclose r.rel).1
          rwa [oneRange, if_pos rfl] at this
        have hp : st.planned = true := h.block.planned_of_active hst hrel
        cases hl
        exact ⟨hp, h0⟩
      · exact h₂
  · exact h.beside (beside_unknownStream [] s _ _)

/-! ### Errors -/

/-- The `DeltaError` handler; `active` are the ranges on streams before the frame. -/
theorem deltaErrorFor {active : P → Multiset Span} {rel : P} (tagged : Bool)
    (hd : DeltaOk cfg s.delta active) (hne : ∀ f, f ≠ rel → s.streams.ranges .delta f = active f)
    (habs : rel ∉ s.delta.book.states → DeltaOk cfg s.delta (s.streams.ranges .delta))
    (hblock : Barrier (fun n plan => plan = fileRangePlan cfg.largeFileBlockBytes n) s.range.book
      (s.streams.ranges .block)) : RangesOk cfg (s.deltaErrorFor tagged rel) := by
  unfold State.deltaErrorFor
  extract_lets st wasManaged releases src d
  split
  · have h₁ : DeltaOk cfg { d with book := d.book.abandon rel } (s.streams.ranges .delta) :=
      (hd.abandon_of_ne hne).congr rfl ⟨rfl, rfl, rfl⟩ fun _ => rfl
    have h₂ : RangesOk cfg { s with delta := { d with book := d.book.abandon rel } } := ⟨h₁, hblock⟩
    exact h₂.beside (beside_scheduleTransfer [] _ rel)
  · rename_i hno
    -- a managed file is not abandoned, so only a file that is gone comes here
    have hm : rel ∉ s.delta.book.states := by
      intro hm
      have hab := s.delta.book.disjoint rel hm
      have hsome : st.isSome = true := AList.lookup_isSome.2 hm
      simp [wasManaged, hsome, hab] at hno
    have h₁ := habs hm
    have he : (s.delta.book.forget rel).states = s.delta.book.states :=
      Table.erase_absent (AList.lookup_eq_none.2 hm)
    have h₂ := h₁.setBarrier (b := s.delta.book.forget rel) he rfl (h₁.barrier.forget_absent hm)
    exact ⟨h₂.congr rfl ⟨rfl, rfl, rfl⟩ fun _ => rfl, hblock⟩

theorem deltaError (h : RangesOk cfg s) (k : Key) (rel : P) :
    RangesOk cfg (s.deltaError k rel) := by
  unfold State.deltaError
  split
  · rename_i r htag
    have hk : s.streams.find k = some (.deltaRange r) := by
      unfold State.deltaTag at htag
      split at htag
      · rename_i r' hk
        cases htag
        exact hk
      · cases htag
    have hclose := ranges_close_delta hk
    refine deltaErrorFor true h.delta ?_ ?_ (h.block.congr fun f => (hclose f).2)
    · intro f hf
      have := (hclose f).1
      rw [oneRange, if_neg (Ne.symm hf), zero_add] at this
      exact this.symm
    · intro hm
      exact h.delta.setBarrier rfl rfl (h.delta.barrier.end_unmanaged hm fun f => (hclose f).1)
  · have h₁ : DeltaOk cfg { s.delta with
        sigJobs := if k.2 = 0 then s.delta.sigJobs.erase (k.1, rel) else s.delta.sigJobs }
        (s.streams.ranges .delta) := h.delta.congr rfl ⟨rfl, rfl, rfl⟩ fun _ => rfl
    exact deltaErrorFor false h₁ (fun _ _ => rfl) (fun _ => h₁) h.block

/-- The `FileRangeError` handler; `active` are the ranges on streams before the frame. -/
theorem fileRangeErrorFor {active : P → Multiset Span} {rel : P}
    (hb : Barrier (fun n plan => plan = fileRangePlan cfg.largeFileBlockBytes n) s.range.book active)
    (hne : ∀ f, f ≠ rel → s.streams.ranges .block f = active f)
    (habs : rel ∉ s.range.book.states → Barrier
      (fun n plan => plan = fileRangePlan cfg.largeFileBlockBytes n) s.range.book
      (s.streams.ranges .block))
    (hd : DeltaOk cfg s.delta (s.streams.ranges .delta)) : RangesOk cfg (s.fileRangeErrorFor rel) := by
  unfold State.fileRangeErrorFor
  split
  · rename_i hab
    have hm : rel ∉ s.range.book.states := fun hm => s.range.book.disjoint rel hm hab
    exact ⟨hd, (habs hm).forget_absent hm⟩
  · have h₁ : RangesOk cfg { s with range := { s.range with book := s.range.book.abandon rel } } :=
      ⟨hd, hb.abandon_of_ne hne⟩
    exact h₁.beside (beside_scheduleTransfer [] _ rel)

theorem fileRangeError (h : RangesOk cfg s) (k : Key) (rel : P) :
    RangesOk cfg (s.fileRangeError k rel) := by
  unfold State.fileRangeError
  split
  · rename_i r hk
    have hclose := ranges_close_block hk
    refine fileRangeErrorFor h.block ?_ ?_ (h.delta.congr rfl ⟨rfl, rfl, rfl⟩ fun f => (hclose f).2)
    · intro f hf
      have := (hclose f).1
      rw [oneRange, if_neg (Ne.symm hf), zero_add] at this
      exact this.symm
    · intro hm
      exact h.block.end_unmanaged hm fun f => (hclose f).1
  · exact fileRangeErrorFor h.block (fun _ _ => rfl) (fun _ => h.block) h.delta

/-! ### Signatures and failover -/

theorem blockSigResponse (h : RangesOk cfg s) (conn : ℕ) (rel : P) :
    RangesOk cfg (s.blockSigResponse conn rel) := by
  unfold State.blockSigResponse
  extract_lets src d
  have hd : DeltaOk cfg d (s.streams.ranges .delta) :=
    h.delta.congr rfl ⟨rfl, rfl, rfl⟩ fun _ => rfl
  split
  · exact h.setDelta hd
  · rename_i st hst
    split
    · exact h.setDelta hd
    · rename_i hs
      exact h.setDelta (hd.signature hst (by simpa using hs))

theorem pumpDeltaSignatures (h : RangesOk cfg s) (lane : ℕ) (sendOk : Bool) (reached : ℕ) :
    RangesOk cfg (s.pumpDeltaSignatures cfg lane sendOk reached) := by
  unfold State.pumpDeltaSignatures
  extract_lets room r
  split
  · exact h.setDelta (h.delta.congr rfl ⟨rfl, rfl, rfl⟩ fun _ => rfl)
  · cases sendOk with
    | true => exact h.setDelta (h.delta.congr rfl ⟨rfl, rfl, rfl⟩ fun _ => rfl)
    | false => exact ⟨h.delta.congr rfl ⟨rfl, rfl, rfl⟩ fun _ => rfl, h.block⟩

/-- **Draining a stream of a dead lane** puts its range back. -/
theorem drainStream (h : RangesOk cfg s) (k : Key) : RangesOk cfg (s.drainStream k) := by
  unfold State.drainStream
  split
  · exact h
  · rename_i rel hk
    have hb : Beside [] s { s with streams := s.streams.close k } :=
      beside_streams (.refl [] s.pool) (ranges_close_noRange hk (noRange_download rel))
    exact h.beside (hb.trans (beside_retryOrFail [] _ rel))
  · rename_i requested b hk
    have hb : Beside [] s { s with streams := s.streams.close k } :=
      beside_streams (.refl [] s.pool) (ranges_close_noRange hk (noRange_batch _ _))
    exact h.beside (hb.trans (beside_applyOuts [] _ _))
  · rename_i r hk
    have hclose := ranges_close_delta hk
    have hreq : (s.delta.book.requeue r).states = s.delta.book.states ∧
        (s.delta.book.requeue r).abandoned = s.delta.book.abandoned := by
      unfold RangeBook.requeue
      split <;> exact ⟨rfl, rfl⟩
    refine ⟨h.delta.setBarrier hreq.1 hreq.2 (h.delta.barrier.requeue r fun f => (hclose f).1), ?_⟩
    exact h.block.congr fun f => (hclose f).2
  · rename_i r hk
    have hclose := ranges_close_block hk
    refine ⟨?_, h.block.requeue r fun f => (hclose f).1⟩
    exact h.delta.congr rfl ⟨rfl, rfl, rfl⟩ fun f => (hclose f).2

theorem foldl {α : Type} {step : State P H → α → State P H}
    (hstep : ∀ s a, RangesOk cfg s → RangesOk cfg (step s a)) (l : List α) {s : State P H}
    (h : RangesOk cfg s) : RangesOk cfg (l.foldl step s) := by
  induction l generalizing s with
  | nil => exact h
  | cons a l ih => exact ih (hstep s a h)

theorem drainLane (order : List Key) (h : RangesOk cfg s) (lane : ℕ) :
    RangesOk cfg (s.drainLane order lane) := by
  unfold State.drainLane
  split
  · extract_lets s₁
    have h₁ : RangesOk cfg s₁ := foldl (fun _ k h => h.drainStream k) _ h
    exact ⟨h₁.delta, h₁.block⟩
  · exact h

theorem requeueSignature (h : RangesOk cfg s) (rel : P) : RangesOk cfg (s.requeueSignature rel) := by
  unfold State.requeueSignature
  split
  · exact h
  · split
    · exact h.setDelta (h.delta.congr rfl ⟨rfl, rfl, rfl⟩ fun _ => rfl)
    · exact h

theorem failoverScan (h : RangesOk cfg s) (order : List Key) (sigOrder : List P)
    (dying dying' : List ℕ) : RangesOk cfg (s.failoverScan order sigOrder dying dying') := by
  unfold State.failoverScan
  extract_lets newlyDown s₁ s₂ s₃ s₄
  have h₁ : RangesOk cfg s₁ := foldl (fun _ lane h => h.drainLane order lane) _ h
  have h₂ : RangesOk cfg s₂ := ⟨h₁.delta, h₁.block⟩
  have h₃ : RangesOk cfg s₃ := by
    simp only [s₃]
    split
    · exact foldl (fun _ rel h => h.requeueSignature rel) sigOrder h₂
    · exact h₂
  split <;> exact ⟨h₃.delta, h₃.block⟩

/-! ### Hash stage -/

theorem handleCompareResult (h : RangesOk cfg s) (rel : P) (action : CompareAction) (old : Bool) :
    RangesOk cfg (s.handleCompareResult cfg rel action old) := by
  unfold State.handleCompareResult
  cases action with
  | transferNow => exact h.enterOrSchedule rel old
  | skip => exact h.beside (beside_xfer [] s _ _)
  | needHash => exact ⟨h.delta, h.block⟩

theorem drainCompare (h : RangesOk cfg s) (old : Bool) : RangesOk cfg (s.drainCompare cfg old) := by
  unfold State.drainCompare
  split
  · exact h
  · rename_i r c _
    have h₁ : RangesOk cfg { s with compare := c } := ⟨h.delta, h.block⟩
    exact h₁.handleCompareResult r.1 r.2 old

theorem resolveCandidate (h : RangesOk cfg s) (rel : P) (old : Bool) :
    RangesOk cfg (s.resolveCandidate cfg rel old) := by
  unfold State.resolveCandidate
  split
  · exact h
  · split
    · exact h
    · split
      · exact h
      · extract_lets s₁
        have h₁ : RangesOk cfg s₁ := by
          simp only [s₁]
          split
          · exact h.enterOrSchedule rel old
          · exact h.beside (beside_xfer [] s _ _)
        exact ⟨h₁.delta, h₁.block⟩

theorem resolveFallback (h : RangesOk cfg s) (old : Bool) :
    RangesOk cfg (s.resolveFallback cfg old) := by
  unfold State.resolveFallback
  split
  · exact h
  · rename_i rel rest _
    have h₁ : RangesOk cfg { s with hash := { s.hash with fallbackReadyQueue := rest } } :=
      ⟨h.delta, h.block⟩
    exact h₁.resolveCandidate rel old

theorem forceTransfer (h : RangesOk cfg s) (rel : P) : RangesOk cfg (s.forceTransfer rel) := by
  unfold State.forceTransfer
  split
  · exact h
  · have h₁ := h.beside (beside_scheduleTransfer [] s rel)
    exact ⟨h₁.delta, h₁.block⟩

theorem sweep (h : RangesOk cfg s) (unresolved : List P) (old : P → Bool) :
    RangesOk cfg (s.sweepUnresolvedFallbackIfQuiescent cfg unresolved old) := by
  unfold State.sweepUnresolvedFallbackIfQuiescent
  split
  · extract_lets ready src s₁ s₂
    have h₁ : RangesOk cfg s₁ := ⟨h.delta, h.block⟩
    have h₂ : RangesOk cfg s₂ := foldl (fun _ rel h => h.resolveCandidate rel (old rel)) ready h₁
    exact foldl (fun _ rel h => h.forceTransfer rel) unresolved h₂
  · exact h

theorem dispatchHashRequests (h : RangesOk cfg s) (lane : ℕ) (sendOk : Bool) (reached : ℕ) :
    RangesOk cfg (s.dispatchHashRequests cfg lane sendOk reached) := by
  unfold State.dispatchHashRequests
  split
  · exact h
  · cases sendOk <;> exact ⟨h.delta, h.block⟩

end RangesOk

/-! ### Every run -/

/-- The step cuts no file into `2 ^ 32` ranges or more. -/
def FewRanges (cfg : Config) (s : State P H) : Event P H → Prop
  | .applyPlan _ => ∀ r ∈ s.delta.planResults.head?, r.rel ∈ s.delta.book.states →
    ∀ ranges ∈ r.ranges, ranges.length < 2 ^ 32
  | .beginFileRangePlan _ _ => ∀ rel ∈ s.range.pendingFileRangePlans.head?,
    ∀ st ∈ s.range.book.states.lookup rel, st.planned = false →
      st.bytes ≤ (2 ^ 32 - 1) * cfg.largeFileBlockBytes
  | _ => True

instance (cfg : Config) (s : State P H) (e : Event P H) : Decidable (FewRanges cfg s e) := by
  apply Event.casesOn (motive := fun e => Decidable (FewRanges cfg s e)) e <;> intros <;>
    dsimp only [FewRanges] <;> infer_instance

theorem rangesOk_exec (cfg : Config) (s : State P H) (e : Event P H) (h : RangesOk cfg s)
    (hfew : FewRanges cfg s e) : RangesOk cfg (exec cfg s e) := by
  cases e with
  | drainCompare old => exact h.drainCompare old
  | dispatchHashRequests lane sendOk reached => exact h.dispatchHashRequests lane sendOk reached
  | resolveFallback old => exact h.resolveFallback old
  | sweep unresolved old => exact h.sweep unresolved old
  | startTransfer lane healthyAtStart openOk sendOk =>
    exact h.beside (beside_tryStartTransfer (fun _ => List.mem_singleton_self lane) cfg s
      healthyAtStart openOk)
  | drainIo => exact h.beside (beside_drainIo [] s)
  | pumpSignatures lane sendOk reached => exact h.pumpDeltaSignatures lane sendOk reached
  | planTake => exact h.setDelta h.delta.planTake
  | planPublish i misses => exact h.setDelta (h.delta.planPublish i misses)
  | applyPlan fin =>
    exact h.applyDeltaPlanResult fin fun r ranges hr hm hranges => hfew r hr hm ranges hranges
  | startDeltaRange lane sendOk => exact h.tryStartDeltaRange lane sendOk
  | beginFileRangePlan openOk fin =>
    exact h.beginFileRangePlan openOk fin fun rel st hrel hst => hfew rel hrel st hst
  | startFileRange lane sendOk => exact h.tryStartFileRange lane sendOk
  | fileBatchOpen k records => exact h.beside (beside_fileBatchOpen [] s k records)
  | fileBatchChunk k payload => exact h.beside (beside_fileBatchChunk [] s k payload)
  | fileBatchEnd k => exact h.beside (beside_fileBatchEnd [] s k)
  | fileChunk k => exact h.beside (beside_fileChunk [] s k)
  | fileEnd k ok => exact h.beside (beside_fileEnd [] s k ok)
  | fileError k => exact h.beside (beside_fileError [] s k)
  | blockSigResponse conn rel => exact h.blockSigResponse conn rel
  | deltaRangeChunk k len => exact h.deltaRangeChunk k len
  | deltaRangeEnd k fin => exact h.deltaRangeEnd k fin
  | deltaError k rel => exact h.deltaError k rel
  | fileRangeData k len => exact h.fileRangeData k len
  | fileRangeEnd k fin => exact h.fileRangeEnd k fin
  | fileRangeError k rel => exact h.fileRangeError k rel
  | failoverScan order sigOrder dying dying' => exact h.failoverScan order sigOrder dying dying'
  | backoff =>
    simp only [exec]
    split <;> exact ⟨h.delta, h.block⟩
  | loopTest =>
    simp only [exec, State.loopTest]
    split <;> exact ⟨h.delta, h.block⟩
  | recvDrainedAndClosed =>
    simp only [exec]
    split <;> exact ⟨h.delta, h.block⟩
  | manifestEntry | manifestDir | manifestEnd | compareFlush | compareTake | comparePublish
  | hashPop | hashCount | hashRecord | hashLeave | hashReady | hashResponse | refreshTuning
  | rebalance | ioTake | ioWrite | ioPublish | laneDown => exact ⟨h.delta, h.block⟩

theorem reach_rangesOk (cfg : Config) {s : State P H}
    (h : (machine P H cfg).Reach (FewRanges cfg) s) : RangesOk cfg s := by
  refine h.invariant (RangesOk.start cfg) ?_
  intro s e hs _ hfew
  exact rangesOk_exec cfg s e hs hfew

/-- The book of a kind of ranges. -/
def State.book (s : State P H) : RangeKind → RangeBook P
  | .delta => s.delta.book
  | .block => s.range.book

/-- The stream carries a range of the file. -/
def Stream.carries (kind : RangeKind) (f : P) : Stream P → Bool
  | .deltaRange r => decide (kind = .delta ∧ r.rel = f)
  | .fileRange r => decide (kind = .block ∧ r.rel = f)
  | _ => false

theorem card_ranges (s : Streams P) (kind : RangeKind) (f : P) :
    (s.ranges kind f).card = s.countWhere (Stream.carries kind f) := by
  unfold Streams.ranges Streams.countWhere Table.total
  induction s.table.entries with
  | nil => rfl
  | cons e l ih =>
    have he : (Stream.ranges kind f e.2).card = if Stream.carries kind f e.2 then 1 else 0 := by
      cases e.2 with
      | download rel => rfl
      | batch requested b => rfl
      | deltaRange r =>
        simp only [Stream.ranges, Stream.carries, decide_eq_true_eq]
        split <;> rfl
      | fileRange r =>
        simp only [Stream.ranges, Stream.carries, decide_eq_true_eq]
        split <;> rfl
    rw [List.map_cons, List.sum_cons, Multiset.card_add, ih, he, List.countP_cons, Nat.add_comm]

/-- The barrier of one kind as the code's counters see it: the counter of a planned file is the
number of its ranges that wait plus the number on streams, and a finalized file has received
the End of each planned range. -/
structure BarrierHolds (s : State P H) (kind : RangeKind) : Prop where
  counted : ∀ f st, (s.book kind).states.lookup f = some st → st.planned = true →
    st.pendingRanges = (s.book kind).pending.countP (fun t => t.rel = f) +
      s.streams.countWhere (Stream.carries kind f)
  ended : ∀ x ∈ (s.book kind).finalized, x.ended.Perm x.plan

theorem Barrier.holds {good : ℕ → List Span → Prop} {s : State P H} {kind : RangeKind}
    (h : Barrier good (s.book kind) (s.streams.ranges kind)) : BarrierHolds s kind where
  counted := by
    intro f st hst hp
    have h1 := (h.planned f st hst hp).1
    rwa [Multiset.card_add, RangeBook.queued, card_taskRanges, card_ranges] at h1
  ended := by
    intro x hx
    exact (Multiset.coe_eq_coe.1 (h.finalized x hx).1).symm

/-- **The range barrier holds in every run that cuts no file into `2 ^ 32` ranges or more**, for
the blocks of large files and for the misses of delta files. The plan of a block-mode file is
the block plan of its size, which tiles it; the plan of a delta file is cut from the misses
of its delta plan. -/
theorem range_barrier (cfg : Config) {s : State P H}
    (h : (machine P H cfg).Reach (FewRanges cfg) s) :
    BarrierHolds s .block ∧ BarrierHolds s .delta ∧
      (∀ f st, s.range.book.states.lookup f = some st → st.planned = true →
        st.plan = fileRangePlan cfg.largeFileBlockBytes st.bytes) ∧
      (∀ x ∈ s.range.book.finalized, x.plan = fileRangePlan cfg.largeFileBlockBytes x.bytes) ∧
      (∀ fileSize, Tiling 0 fileSize (fileRangePlan cfg.largeFileBlockBytes fileSize)) ∧
      (∀ f st, s.delta.book.states.lookup f = some st → st.planned = true →
        ∃ misses, st.plan = deltaRanges cfg.effectiveChunkSize misses) ∧
      ∀ misses, Cuts misses (deltaRanges cfg.effectiveChunkSize misses) := by
  have hs := reach_rangesOk cfg h
  refine ⟨Barrier.holds hs.block, Barrier.holds hs.delta.barrier, ?_, ?_,
    fileRangePlan_tiling cfg.block_pos, ?_, deltaRanges_cuts cfg.chunk_pos⟩
  · intro f st hst hp
    exact (hs.block.planned f st hst hp).2.2
  · intro x hx
    exact (hs.block.finalized x hx).2
  · intro f st hst hp
    exact (hs.delta.barrier.planned f st hst hp).2.2

/-- Two lanes and blocks of 2 bytes for files of 3 bytes and more. -/
def twoByteBlocks : Config :=
  { twoLanes with
    largeFileThresholdBytes := 3
    largeFileBlockBytes := 2
    block_pos := Nat.two_pos }

/-- A file of 3 bytes goes out in two blocks, one on each lane. Lane 1 dies and its block is put
back, the other block ends. -/
def blockRun : List (Event ℕ ℕ) :=
  listAndSchedule 3 ++
    [.beginFileRangePlan true .ok, .startFileRange 0 true, .startFileRange 1 true, .laneDown 1,
      .failoverScan [(0, 1), (1, 1)] [] [] [], .fileRangeEnd (0, 1) .ok]

/-- After `blockRun` the barrier of the file counts the block that was put back. -/
theorem range_barrier_blockRun : BarrierHolds
    ((machine ℕ ℕ twoByteBlocks).run (State.start ℕ ℕ twoByteBlocks) blockRun) .block :=
  (range_barrier twoByteBlocks (Machine.reach_run (by decide))).1

example : ((machine ℕ ℕ twoByteBlocks).run (State.start ℕ ℕ twoByteBlocks)
    blockRun).range.book.pending.map RangeTask.span = [(2, 1)] := by decide

theorem length_fileRangePlan_eq {block count : ℕ} (hblock : 0 < block) (hcount : 0 < count) :
    (fileRangePlan block (block * count)).length = count := by
  have hle : block ≤ block * count := Nat.le_mul_of_pos_right block hcount
  unfold fileRangePlan
  rw [Nat.min_eq_left hle, length_slices hblock _ _ _ (Nat.le_refl _)]
  have he : block * count + block - 1 = block - 1 + block * count := by omega
  rw [he, Nat.add_mul_div_left _ _ hblock, Nat.div_eq_of_lt (by omega), Nat.zero_add]

/-- A plan whose length wraps to 0 finalizes its file with no End received. -/
theorem finalized_at_once (cfg : Config) {s : State P H} {rel : P} {rest : List P} {st : RangeState}
    (hq : s.range.pendingFileRangePlans = rel :: rest)
    (hst : s.range.book.states.lookup rel = some st) (hun : st.planned = false)
    (hlen : (fileRangePlan cfg.largeFileBlockBytes st.bytes).length % 2 ^ 32 = 0) :
    let s' := exec cfg s (.beginFileRangePlan true .ok)
    ⟨rel, st.bytes, fileRangePlan cfg.largeFileBlockBytes st.bytes, []⟩ ∈ s'.range.book.finalized ∧
      s'.xfer.tally.transferred = s.xfer.tally.transferred + 1 := by
  have hl : (s.range.book.adopt rel st (fileRangePlan cfg.largeFileBlockBytes
      st.bytes)).states.lookup rel = some (st.adopted (fileRangePlan cfg.largeFileBlockBytes
        st.bytes)) := by
    rw [Barrier.lookup_adopt (mem_of_lookup hst), if_pos rfl]
  simp only [exec]
  unfold State.beginFileRangePlan
  rw [hq]
  dsimp only
  rw [hst]
  dsimp only
  rw [hun]
  simp only [Bool.false_eq_true, if_false, Bool.not_true, hlen, if_true]
  unfold State.finalizeFileRange
  dsimp only
  rw [hl]
  exact ⟨List.mem_cons_self, rfl⟩

/-- So from a reachable state a plan of exactly `2 ^ 32` ranges breaks the barrier. -/
theorem breaks_at_wrap (cfg : Config) {s : State P H} {rel : P} {rest : List P} {st : RangeState}
    (hreach : (machine P H cfg).Reach (fun _ _ => True) s) (hrun : s.mode = .running)
    (hq : s.range.pendingFileRangePlans = rel :: rest)
    (hst : s.range.book.states.lookup rel = some st) (hun : st.planned = false)
    (hlen : (fileRangePlan cfg.largeFileBlockBytes st.bytes).length = 2 ^ 32) :
    ∃ s', (machine P H cfg).Reach (fun _ _ => True) s' ∧ ¬ BarrierHolds s' .block ∧
      s'.xfer.tally.transferred = s.xfer.tally.transferred + 1 := by
  have hwrap : (fileRangePlan cfg.largeFileBlockBytes st.bytes).length % 2 ^ 32 = 0 := by
    rw [hlen, Nat.mod_self]
  obtain ⟨h1, h2⟩ := finalized_at_once cfg hq hst hun hwrap
  have hcan : (machine P H cfg).can s (.beginFileRangePlan true .ok) := ⟨hrun, trivial⟩
  refine ⟨exec cfg s (.beginFileRangePlan true .ok), hreach.step hcan trivial, ?_, h2⟩
  intro h
  have hp := (h.ended _ h1).length_eq
  rw [hlen, List.length_nil] at hp
  omega

/-- The plan of a file of `2 ^ 57` bytes in blocks of 32 MiB. -/
theorem length_hugePlan : (fileRangePlan twoLanes.largeFileBlockBytes (2 ^ 57)).length = 2 ^ 32 := by
  have h57 : 2 ^ 57 = twoLanes.largeFileBlockBytes * 2 ^ 32 := by decide
  rw [h57]
  exact length_fileRangePlan_eq twoLanes.block_pos (by decide)

/-- The client has listed a file of `2 ^ 57` bytes and admitted it to block mode. -/
def hugeFile : State ℕ ℕ :=
  (machine ℕ ℕ twoLanes).run (State.start ℕ ℕ twoLanes) (listAndSchedule (2 ^ 57))

/-- **A file is finalized before any of its ranges.** The counter of `2 ^ 32` blocks is 0, so the
file is counted as transferred when its plan is built; no block has received its End. -/
theorem finalized_without_its_ranges : ∃ s, (machine ℕ ℕ twoLanes).Reach (fun _ _ => True) s ∧
    ¬ BarrierHolds s .block ∧ s.xfer.tally.transferred = 1 := by
  have hreach : (machine ℕ ℕ twoLanes).Reach (fun _ _ => True) hugeFile :=
    Machine.reach_run (by decide)
  have hq : hugeFile.range.pendingFileRangePlans = [0] := by decide
  have hst : hugeFile.range.book.states.lookup 0 = some { bytes := 2 ^ 57 } := rfl
  have ht : hugeFile.xfer.tally.transferred = 0 := by decide
  obtain ⟨s, h1, h2, h3⟩ := breaks_at_wrap twoLanes hreach (by decide) hq hst rfl length_hugePlan
  exact ⟨s, h1, h2, by rw [h3, ht]⟩

end FastClone.Client
