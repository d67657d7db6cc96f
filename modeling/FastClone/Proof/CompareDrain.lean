import FastClone.Spec.CompareDrain
import FastClone.Proof.ComparePipeline

/-!
# The counter of waiting results

`drained_step`: with `Drain` in two halves the pipeline does what it does with `Drain` in one piece, at the
swap; the other half only makes up the books. The counter is the number of results that wait or are being
drained, less what the threads still have to add (`pending_eq`), so a drain that comes before such an addition
can take it below 0 (`pendingResults_wraps`). `pending_bounded`: **where every subtraction is covered, the counter
never exceeds what is issued and not drained**, and `pendingResults_subtract_iff`: it is only there that it can.
-/

namespace FastClone.ComparePipeline

open Worklist (total total_update)

variable {cfg : ComparePipelineConfig} {s s' : State} {h h' : Halves}

/-! ### Drain in two halves -/

/-- The pipeline with the drain under way done. -/
def Halves.drained (h : Halves) : State := h.subtract.pipe

theorem Halves.drained_of_nil (hready : h.ready = []) : h.drained = h.pipe := by
  unfold Halves.drained Halves.subtract
  rw [hready]
  simp

theorem drained_gate (h : Halves) (w : ℕ) :
    h.drained.gate cfg w = ({ h with pipe := h.pipe.gate cfg w } : Halves).drained := by
  unfold State.gate
  by_cases hleave : h.pipe.stop = true ∧ h.pipe.tasks = []
  · rw [if_pos hleave]
    exact if_pos hleave
  · by_cases hwait : h.pipe.stop = false ∧ h.pipe.activeCap > 0 ∧ h.pipe.activeWorkers ≥ h.pipe.activeCap
    · rw [if_neg hleave, if_pos hwait]
      exact (if_neg hleave).trans (if_pos hwait)
    · rw [if_neg hleave, if_neg hwait]
      exact (if_neg hleave).trans (if_neg hwait)

/-- The pool goes on as if the drain were done. -/
theorem drained_pipe {e : Event} (he : e ≠ .drain) (hs : h.pipe.step cfg e = some s') :
    h.drained.step cfg e = some ({ h with pipe := s' } : Halves).drained := by
  cases e with
  | enqueue remote =>
    cases hs
    rfl
  | flush =>
    simp only [State.step] at hs ⊢
    split at hs
    · cases hs
    · rename_i hfree
      cases hs
      exact if_neg hfree
  | drain => exact absurd rfl he
  | setActiveCap cap =>
    cases hs
    rfl
  | stop =>
    cases hs
    rfl
  | wake w =>
    simp only [State.step] at hs
    split at hs
    · rename_i hw
      split at hs
      · rename_i hcan
        cases hs
        have hw' : h.drained.worker w = .waiting := hw
        simp only [State.step, hw']
        exact if_pos hcan
      · cases hs
    · cases hs
  | gate w =>
    simp only [State.step] at hs
    split at hs
    · rename_i hw
      cases hs
      have hw' : h.drained.worker w = .holding := hw
      simp only [State.step, hw', drained_gate]
    · cases hs
  | probe w p =>
    simp only [State.step] at hs
    split at hs
    · rename_i hw
      cases hs
      have hw' : h.drained.worker w = _ := hw
      simp only [State.step, hw']
      rfl
    · cases hs
  | publish w =>
    simp only [State.step] at hs
    split at hs
    · rename_i resultBatch hw
      have hw' : h.drained.worker w = .busy [] resultBatch := hw
      simp only [State.step, hw']
      split at hs
      · rename_i hnil
        cases hs
        exact if_pos hnil
      · rename_i hne
        cases hs
        exact if_neg hne
    · cases hs
  | count w =>
    simp only [State.step] at hs
    split at hs
    · rename_i n hw
      cases hs
      have hw' : h.drained.worker w = .published n := hw
      -- the only step that the counter takes part in: adding and subtracting commute
      have hpending : h.drained.pending + n = h.pipe.pending + n - h.ready.length := by
        show h.pipe.pending - h.ready.length + n = _
        omega
      simp only [State.step, hw', hpending]
      rfl
    · cases hs
  | release w =>
    simp only [State.step] at hs
    split at hs
    · rename_i hw
      split at hs
      · cases hs
      · rename_i hfree
        cases hs
        have hw' : h.drained.worker w = .releasing := hw
        simp only [State.step, hw']
        exact if_neg hfree
    · cases hs

/-- What a step of the two halves can do. -/
inductive Halves.Effect (cfg : ComparePipelineConfig) (h : Halves) : Halves.Event → Halves → Prop where
  | pipe {e : ComparePipeline.Event} {s' : State} (he : e ≠ .drain) (hs : h.pipe.step cfg e = some s') :
      Halves.Effect cfg h (.pipe e) { h with pipe := s' }
  | swap (hready : h.ready = []) : Halves.Effect cfg h .swap ⟨{ h.pipe with results := [] }, h.pipe.results⟩
  | subtract (hready : h.ready ≠ []) : Halves.Effect cfg h .subtract h.subtract

theorem halves_effect_of_step {e : Halves.Event} (hs : h.step cfg e = some h') : Halves.Effect cfg h e h' := by
  cases e with
  | pipe e =>
    by_cases he : e = .drain
    · subst he
      cases hs
    · have hmap : (h.pipe.step cfg e).map (fun s => { h with pipe := s }) = some h' := by
        cases e <;> first | exact hs | exact absurd rfl he
      obtain ⟨s', hs', rfl⟩ := Option.map_eq_some_iff.1 hmap
      exact .pipe he hs'
  | swap =>
    simp only [Halves.step] at hs
    split at hs
    · rename_i hready
      cases hs
      exact .swap hready
    · cases hs
  | subtract =>
    simp only [Halves.step] at hs
    split at hs
    · cases hs
    · rename_i hready
      cases hs
      exact .subtract hready

/-- **A step of the two halves is a step of the pipeline, or none.** -/
theorem drained_step {e : Halves.Event} (he : Halves.Effect cfg h e h') :
    h'.drained = h.drained ∨ ∃ e, h.drained.step cfg e = some h'.drained := by
  cases he with
  | pipe he hs => exact .inr ⟨_, drained_pipe he hs⟩
  | swap hready =>
    -- no drain was under way, and the one that begins is as good as done
    refine .inr ⟨.drain, ?_⟩
    rw [Halves.drained_of_nil hready]
    rfl
  | subtract hready =>
    have hdone : h.subtract.drained = h.subtract.pipe := Halves.drained_of_nil rfl
    exact .inl hdone

theorem halves_next_eq {e : Halves.Event} (hs : h.step cfg e = some h') : (halvesMachine cfg).next h e = h' := by
  show (h.step cfg e).getD h = h'
  rw [hs]
  rfl

/-- With the drain under way done, a run of the two halves is a run of the pipeline. -/
theorem reach_drained {ok : Halves → Halves.Event → Prop} (hreach : (halvesMachine cfg).Reach ok h) :
    (machine cfg).Reach (fun _ _ => True) h.drained := by
  refine hreach.invariant (I := fun h => (machine cfg).Reach (fun _ _ => True) h.drained) .init ?_
  intro h e ih hcan _
  obtain ⟨h', hs⟩ := Option.isSome_iff_exists.1 hcan
  rw [halves_next_eq hs]
  rcases drained_step (halves_effect_of_step hs) with heq | ⟨e, he⟩
  · rw [heq]
    exact ih
  · have hnext : (machine cfg).next h.drained e = h'.drained := next_eq he
    rw [← hnext]
    exact .step ih (by show (h.drained.step cfg e).isSome = true; rw [he]; rfl) trivial

/-! ### What the counter counts -/

/-- The counter and what the threads still have to add are the results that wait. -/
def State.Counted (cfg : ComparePipelineConfig) (s : State) : Prop :=
  s.pending + s.uncounted cfg = s.results.length

/-- A thread goes on. -/
theorem State.Counted.move (hc : s.Counted cfg) {w : ℕ} {x : Worker} (hin : w < cfg.count)
    (hworker : s'.worker = Function.update s.worker w x)
    (hbooks : s'.pending + x.uncounted + s.results.length =
      s.pending + (s.worker w).uncounted + s'.results.length) : s'.Counted cfg := by
  have hupdate := total_update Worker.uncounted s.worker hin x
  unfold State.Counted State.uncounted at hc ⊢
  rw [hworker]
  omega

theorem counted_step (hp : s.Pool cfg) (hc : s.Counted cfg) {e : Event} (he : Effect cfg s e s') : s'.Counted cfg := by
  have hinside : ∀ w, s.worker w ≠ .waiting → w < cfg.count := fun w => hp.inside_of_ne
  cases he with
  | enqueue remote => exact hc
  | flush hfree => exact hc
  | drain =>
    show s.pending - s.results.length + s.uncounted cfg = ([] : List ComparedItem).length
    unfold State.Counted at hc
    simp only [List.length_nil]
    omega
  | setActiveCap cap => exact hc
  | stop => exact hc
  | wake hw hin hfree hawake => exact hc.move hin rfl (by rw [hw]; rfl)
  | leave hw hstop htasks => exact hc.move (hinside _ (by rw [hw]; nofun)) rfl (by rw [hw]; rfl)
  | wait hw hcap => exact hc.move (hinside _ (by rw [hw]; nofun)) rfl (by rw [hw]; rfl)
  | claim hw hcap => exact hc.move (hinside _ (by rw [hw]; nofun)) rfl (by rw [hw]; rfl)
  | probe p hw => exact hc.move (hinside _ (by rw [hw]; nofun)) rfl (by rw [hw]; rfl)
  | skip hw => exact hc.move (hinside _ (by rw [hw]; nofun)) rfl (by rw [hw]; rfl)
  | publish hw =>
    rename_i w resultBatch
    refine hc.move (hinside _ (by rw [hw]; nofun)) rfl ?_
    rw [hw]
    show s.pending + resultBatch.length + s.results.length = s.pending + 0 + (s.results ++ resultBatch).length
    rw [List.length_append]
    omega
  | count hw =>
    refine hc.move (hinside _ (by rw [hw]; nofun)) rfl ?_
    rw [hw]
    rename_i w n
    show s.pending + n + 0 + s.results.length = s.pending + n + s.results.length
    omega
  | release hw hfree => exact hc.move (hinside _ (by rw [hw]; nofun)) rfl (by rw [hw]; rfl)

theorem counted_reach {ok : State → Event → Prop} (hreach : (machine cfg).Reach ok s) : s.Counted cfg := by
  have hboth : s.Inv cfg ∧ s.Counted cfg := by
    refine hreach.invariant (I := fun s => s.Inv cfg ∧ s.Counted cfg) ⟨inv_init cfg, ?_⟩ ?_
    · have hzero : total cfg.count (fun _ => Worker.uncounted .waiting) = 0 := Finset.sum_eq_zero fun _ _ => rfl
      show (0 : ℤ) + (total cfg.count fun _ => Worker.uncounted .waiting : ℕ) = _
      rw [hzero]
      rfl
    · intro s e ih hcan _
      obtain ⟨s', hs⟩ := Option.isSome_iff_exists.1 hcan
      rw [next_eq hs]
      exact ⟨inv_step ih.1 hs, counted_step ih.1.pool ih.2 (effect_of_step hs)⟩
  exact hboth.2

/-- What is drained, and what waits, was issued. -/
theorem State.Inv.issued_ge (hinv : s.Inv cfg) : s.drained + s.results.length ≤ s.issued := by
  have hcard := congrArg Multiset.card hinv.kept
  unfold State.undrained at hcard
  simp only [Multiset.card_add, Multiset.coe_card, List.length_map] at hcard
  have hissued := hinv.ends.issued
  have hdrained := hinv.ends.drained
  omega

section Reached

variable {ok : Halves → Halves.Event → Prop} (hreach : (halvesMachine cfg).Reach ok h)

include hreach

/-- **The counter**: what waits and what is being drained, less what is still to be added. -/
theorem pending_eq : h.pipe.pending + h.pipe.uncounted cfg = h.pipe.results.length + h.ready.length := by
  have hcounted : h.pipe.pending - h.ready.length + h.pipe.uncounted cfg = h.pipe.results.length :=
    counted_reach (reach_drained hreach)
  omega

theorem issued_ge : h.pipe.drained + h.ready.length + h.pipe.results.length ≤ h.pipe.issued :=
  (inv_reach (reach_drained hreach)).issued_ge

end Reached

/-- Only a drain takes the counter down. -/
theorem pending_le {e : Event} (hne : e ≠ .drain) (he : Effect cfg s e s') : s.pending ≤ s'.pending := by
  cases he with
  | drain => exact absurd rfl hne
  | count hw =>
    rename_i w n
    show s.pending ≤ s.pending + n
    omega
  | _ => exact le_refl s.pending

/-- **Where every subtraction is covered the counter does not go below 0.** -/
theorem pending_nonneg (hreach : (halvesMachine cfg).Reach (Covered cfg) h) : 0 ≤ h.pipe.pending := by
  have hboth : (halvesMachine cfg).Reach (fun _ _ => True) h ∧ 0 ≤ h.pipe.pending := by
    refine hreach.invariant
      (I := fun h => (halvesMachine cfg).Reach (fun _ _ => True) h ∧ 0 ≤ h.pipe.pending) ⟨.init, le_refl 0⟩ ?_
    intro h e ih hcan hcovered
    obtain ⟨h', hs⟩ := Option.isSome_iff_exists.1 hcan
    refine ⟨.step ih.1 hcan trivial, ?_⟩
    rw [halves_next_eq hs]
    cases halves_effect_of_step hs with
    | pipe he hmove => exact le_trans ih.2 (pending_le he (effect_of_step hmove))
    | swap hready => exact ih.2
    | subtract hready =>
      have hcount := pending_eq ih.1
      -- covered: what is still to be added is among the results that wait
      have hroom : h.pipe.uncounted cfg ≤ h.pipe.results.length := hcovered
      show 0 ≤ h.pipe.pending - h.ready.length
      omega
  exact hboth.2

theorem pendingResults_le (hpending : 0 ≤ s.pending) : (s.pendingResults : ℤ) ≤ s.pending := by
  unfold State.pendingResults
  omega

/-- A covered subtraction leaves the counter in bounds; one that is not takes it below 0, where it wraps. -/
theorem pendingResults_subtract_iff (hreach : (halvesMachine cfg).Reach (Covered cfg) h)
    (hissued : h.pipe.issued < 2 ^ 63) :
    h.subtract.pipe.pendingResults ≤ h.subtract.pipe.issued - h.subtract.pipe.drained ↔
      h.pipe.uncounted cfg ≤ h.pipe.results.length := by
  have hany : (halvesMachine cfg).Reach (fun _ _ => True) h := hreach.mono fun _ _ _ => trivial
  have hcount := pending_eq hany
  have hge := issued_ge hany
  have hnonneg := pending_nonneg hreach
  -- below 0 the counter wraps to more than half of its range, and less than that was issued
  show ((h.pipe.pending - h.ready.length) % 2 ^ 64).toNat ≤ h.pipe.issued - (h.pipe.drained + h.ready.length) ↔ _
  omega

/-- **The counter is in bounds** in every run whose subtractions are all covered: at most what is issued and not
drained, and 0 outside `Drain` when no result waits and no thread has one to add. -/
theorem pending_bounded (cfg : ComparePipelineConfig) {h : Halves}
    (hreach : (halvesMachine cfg).Reach (Covered cfg) h) :
    h.pipe.drained ≤ h.pipe.issued ∧ h.pipe.pendingResults ≤ h.pipe.issued - h.pipe.drained ∧
      (h.ready = [] → h.pipe.results = [] → (∀ w n, h.pipe.worker w ≠ .published n) →
        h.pipe.pendingResults = 0 ∧ h.pipe.hasResults = false) ∧
      (h.pipe.issued < 2 ^ 63 →
        (h.subtract.pipe.pendingResults ≤ h.subtract.pipe.issued - h.subtract.pipe.drained ↔
          h.pipe.uncounted cfg ≤ h.pipe.results.length)) := by
  have hany : (halvesMachine cfg).Reach (fun _ _ => True) h := hreach.mono fun _ _ _ => trivial
  have hcount := pending_eq hany
  have hge := issued_ge hany
  have hle := pendingResults_le (pending_nonneg hreach)
  refine ⟨by omega, by omega, fun hready hresults hnone => ?_, pendingResults_subtract_iff hreach⟩
  have huncounted : h.pipe.uncounted cfg = 0 := by
    unfold State.uncounted total
    refine Finset.sum_eq_zero fun w _ => ?_
    cases hw : h.pipe.worker w with
    | published n => exact absurd hw (hnone w n)
    | _ => rfl
  rw [hready, hresults, huncounted] at hcount
  simp only [List.length_nil] at hcount
  have hzero : h.pipe.pendingResults = 0 := by omega
  refine ⟨hzero, ?_⟩
  rw [State.hasResults, hzero]
  rfl

theorem pending_bounded_oneEntry :
    ∃ h : Halves, (halvesMachine ⟨.fast, 1, 32⟩).Reach (Covered ⟨.fast, 1, 32⟩) h ∧ h.pipe.out.length = 1 ∧
      h.pipe.pendingResults = 0 := by
  have hreach : (halvesMachine ⟨.fast, 1, 32⟩).Reach (Covered ⟨.fast, 1, 32⟩) ((halvesMachine ⟨.fast, 1, 32⟩).run
      (halvesMachine ⟨.fast, 1, 32⟩).init [.pipe (.enqueue smallEntry), .pipe .flush, .pipe (.wake 0),
        .pipe (.gate 0), .pipe (.probe 0 .throws), .pipe (.publish 0), .swap, .pipe (.count 0), .subtract]) :=
    Runs.Machine.reach_run (by decide)
  have hle := (pending_bounded _ hreach).2.1
  exact ⟨_, hreach, by decide, Nat.le_zero.1 hle⟩

/-- The drain comes between the push and the addition: the counter is `2^64 - 1`, and nothing is left. -/
theorem pendingResults_wraps :
    ∃ h : Halves, (halvesMachine ⟨.fast, 1, 32⟩).Reach (fun _ _ => True) h ∧ h.ready = [] ∧
      h.pipe.pendingResults = 2 ^ 64 - 1 ∧ ¬ h.pipe.pendingResults ≤ h.pipe.issued - h.pipe.drained := by
  have hreach : (halvesMachine ⟨.fast, 1, 32⟩).Reach (fun _ _ => True) ((halvesMachine ⟨.fast, 1, 32⟩).run
      (halvesMachine ⟨.fast, 1, 32⟩).init [.pipe (.enqueue smallEntry), .pipe .flush, .pipe (.wake 0),
        .pipe (.gate 0), .pipe (.probe 0 .throws), .pipe (.publish 0), .swap, .subtract]) :=
    Runs.Machine.reach_run (by decide)
  exact ⟨_, hreach, rfl, by decide, by decide⟩

end FastClone.ComparePipeline
