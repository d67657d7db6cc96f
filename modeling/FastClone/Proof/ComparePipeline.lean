import FastClone.Spec.ComparePipeline

/-!
# The compare pipeline keeps every entry

`Inv` says where the entries are in every state of every run. `pipeline_exact`: nothing is lost, doubled or
invented, every result is the decision about its own entry and its own probe, and after `Stop` and `Join` what
was flushed before `Stop` is drained or among the results. What is flushed afterwards may find no thread left
(`late_unprocessed`).
-/

namespace FastClone.ComparePipeline

open Worklist (total total_update total_grow total_shrink of_update)
open FastClone.Wire FastClone.Compare

variable {cfg : ComparePipelineConfig} {s s' : State}

/-! ### What a step can do -/

inductive Effect (cfg : ComparePipelineConfig) (s : State) : Event → State → Prop where
  | enqueue (remote : FileEntry) : Effect cfg s (.enqueue remote) (s.enqueue remote)
  | flush (hfree : s.locked = false) : Effect cfg s .flush s.flush
  | drain : Effect cfg s .drain s.drain
  | setActiveCap (cap : ℕ) : Effect cfg s (.setActiveCap cap) { s with activeCap := cap }
  | stop : Effect cfg s .stop { s with stop := true }
  | wake {w : ℕ} (hw : s.worker w = .waiting) (hin : w < cfg.count) (hfree : s.locked = false)
      (hawake : s.awake = true) : Effect cfg s (.wake w) { s.set w .holding with locked := true }
  | leave {w : ℕ} (hw : s.worker w = .holding) (hstop : s.stop = true) (htasks : s.tasks = []) :
      Effect cfg s (.gate w) { s.set w .gone with locked := false }
  | wait {w : ℕ} (hw : s.worker w = .holding) (hcap : 0 < s.activeCap ∧ s.activeCap ≤ s.activeWorkers) :
      Effect cfg s (.gate w) { s.set w .waiting with locked := false }
  | claim {w : ℕ} (hw : s.worker w = .holding)
      (hcap : s.stop = false → s.activeCap = 0 ∨ s.activeWorkers < s.activeCap) :
      Effect cfg s (.gate w) (s.claim cfg w)
  | probe {w : ℕ} {t : Task} {batch : List Task} {resultBatch : List ComparedItem} (p : Probe)
      (hw : s.worker w = .busy (t :: batch) resultBatch) :
      Effect cfg s (.probe w p)
        { s.set w (.busy batch (resultBatch ++ [t.compared cfg.mode p])) with probes := s.probes ++ [(t.serial, p)] }
  | skip {w : ℕ} (hw : s.worker w = .busy [] []) : Effect cfg s (.publish w) (s.set w .releasing)
  | publish {w : ℕ} {resultBatch : List ComparedItem} (hw : s.worker w = .busy [] resultBatch) :
      Effect cfg s (.publish w) { s.set w (.published resultBatch.length) with results := s.results ++ resultBatch }
  | count {w n : ℕ} (hw : s.worker w = .published n) :
      Effect cfg s (.count w) { s.set w .releasing with pending := s.pending + n }
  | release {w : ℕ} (hw : s.worker w = .releasing) (hfree : s.locked = false) :
      Effect cfg s (.release w) { s.set w .waiting with activeWorkers := s.activeWorkers - 1 }

theorem effect_gate {w : ℕ} (hw : s.worker w = .holding) : Effect cfg s (.gate w) (s.gate cfg w) := by
  unfold State.gate
  split
  · rename_i hleave
    exact .leave hw hleave.1 hleave.2
  · split
    · rename_i hwait
      exact .wait hw ⟨hwait.2.1, hwait.2.2⟩
    · rename_i hclaim
      refine .claim hw fun hstop => ?_
      by_contra hcap
      push Not at hcap
      exact hclaim ⟨hstop, Nat.pos_of_ne_zero hcap.1, hcap.2⟩

theorem effect_of_step {e : Event} (hs : s.step cfg e = some s') : Effect cfg s e s' := by
  cases e with
  | enqueue remote =>
    cases hs
    exact .enqueue remote
  | flush =>
    simp only [State.step] at hs
    split at hs
    · cases hs
    · rename_i hfree
      cases hs
      exact .flush (by simpa using hfree)
  | drain =>
    cases hs
    exact .drain
  | setActiveCap cap =>
    cases hs
    exact .setActiveCap cap
  | stop =>
    cases hs
    exact .stop
  | wake w =>
    simp only [State.step] at hs
    split at hs
    · rename_i hw
      split at hs
      · rename_i hcan
        cases hs
        exact .wake hw hcan.1 hcan.2.1 hcan.2.2
      · cases hs
    · cases hs
  | gate w =>
    simp only [State.step] at hs
    split at hs
    · rename_i hw
      cases hs
      exact effect_gate hw
    · cases hs
  | probe w p =>
    simp only [State.step] at hs
    split at hs
    · rename_i hw
      cases hs
      exact .probe p hw
    · cases hs
  | publish w =>
    simp only [State.step] at hs
    split at hs
    · rename_i resultBatch hw
      split at hs
      · rename_i hnil
        cases hs
        exact .skip (hnil ▸ hw)
      · cases hs
        exact .publish hw
    · cases hs
  | count w =>
    simp only [State.step] at hs
    split at hs
    · rename_i hw
      cases hs
      exact .count hw
    · cases hs
  | release w =>
    simp only [State.step] at hs
    split at hs
    · rename_i hw
      split at hs
      · cases hs
      · rename_i hfree
        cases hs
        exact .release hw (by simpa using hfree)
    · cases hs

/-! ### The pool -/

/-- Who does what: only threads of the pool, one at a time with `taskMu_`, and a slot for each batch. -/
structure State.Pool (cfg : ComparePipelineConfig) (s : State) : Prop where
  inside : ∀ w, s.worker w = .waiting ∨ w < cfg.count
  alone : ∀ w v, s.worker w = .holding → s.worker v = .holding → w = v
  locked : ∀ w, s.worker w = .holding → s.locked = true
  active : s.activeWorkers = total cfg.count fun w => (s.worker w).active

theorem State.Pool.inside_of_ne (h : s.Pool cfg) {w : ℕ} (hw : s.worker w ≠ .waiting) : w < cfg.count :=
  (h.inside w).resolve_left hw

/-- A thread goes on without `taskMu_`. -/
theorem State.Pool.move (h : s.Pool cfg) {w : ℕ} {x : Worker} {locked : Bool} {activeWorkers : ℕ}
    (hin : w < cfg.count) (hx : x ≠ .holding) (hlocked : ∀ v, v ≠ w → s.worker v = .holding → locked = true)
    (hactive : activeWorkers + (s.worker w).active = s.activeWorkers + x.active) :
    State.Pool cfg { s.set w x with locked := locked, activeWorkers := activeWorkers } := by
  have hholding : ∀ v, Function.update s.worker w x v = .holding → v ≠ w ∧ s.worker v = .holding := by
    intro v hv
    rcases of_update hv with ⟨-, heq⟩ | hv
    · exact absurd heq hx
    · exact hv
  refine ⟨fun v => ?_, fun u v hu hv => ?_, fun v hv => ?_, ?_⟩
  · by_cases hv : v = w
    · exact .inr (hv ▸ hin)
    · show Function.update s.worker w x v = .waiting ∨ _
      rw [Function.update_of_ne hv]
      exact h.inside v
  · exact h.alone u v (hholding u hu).2 (hholding v hv).2
  · exact hlocked v (hholding v hv).1 (hholding v hv).2
  · have hupdate := total_update Worker.active s.worker hin x
    have hold := h.active
    show activeWorkers = total cfg.count fun v => (Function.update s.worker w x v).active
    omega

theorem pool_step (h : s.Pool cfg) {e : Event} (he : Effect cfg s e s') : s'.Pool cfg := by
  have hinside : ∀ w, s.worker w ≠ .waiting → w < cfg.count := fun w => h.inside_of_ne
  -- the one that has `taskMu_` lets it go
  have hothers : ∀ w, s.worker w = .holding → ∀ v, v ≠ w → s.worker v = .holding → false = true :=
    fun w hw v hne hv => absurd (h.alone v w hv hw) hne
  have hkeep : ∀ (w : ℕ) (x : Worker), s.worker w ≠ .waiting → x ≠ .holding → x.active = (s.worker w).active →
      (s.set w x).Pool cfg := by
    intro w x hw hx hactive
    exact h.move (hinside w hw) hx (fun v _ hv => h.locked v hv) (by rw [hactive])
  cases he with
  | enqueue remote => exact ⟨h.inside, h.alone, h.locked, h.active⟩
  | flush hfree => exact ⟨h.inside, h.alone, h.locked, h.active⟩
  | drain => exact ⟨h.inside, h.alone, h.locked, h.active⟩
  | setActiveCap cap => exact ⟨h.inside, h.alone, h.locked, h.active⟩
  | stop => exact ⟨h.inside, h.alone, h.locked, h.active⟩
  | @wake w hw hin hfree hawake =>
    have hnone : ∀ v, s.worker v ≠ .holding := by
      intro v hv
      have hlocked := h.locked v hv
      rw [hfree] at hlocked
      cases hlocked
    have hself : ∀ v, Function.update s.worker w .holding v = .holding → v = w := by
      intro v hv
      rcases of_update hv with ⟨heq, -⟩ | ⟨-, hv⟩
      · exact heq
      · exact absurd hv (hnone v)
    refine ⟨fun v => ?_, fun u v hu hv => (hself u hu).trans (hself v hv).symm, fun _ _ => rfl, ?_⟩
    · by_cases hv : v = w
      · exact .inr (hv ▸ hin)
      · show Function.update s.worker w .holding v = .waiting ∨ _
        rw [Function.update_of_ne hv]
        exact h.inside v
    · have hupdate := total_update Worker.active s.worker hin .holding
      rw [hw] at hupdate
      exact h.active.trans (add_right_cancel hupdate).symm
  | @leave w hw hstop htasks =>
    exact h.move (hinside w (by rw [hw]; nofun)) nofun (hothers w hw) (by rw [hw]; rfl)
  | @wait w hw hcap => exact h.move (hinside w (by rw [hw]; nofun)) nofun (hothers w hw) (by rw [hw]; rfl)
  | @claim w hw hcap =>
    have hactive : s.activeWorkers + 1 + (s.worker w).active =
        s.activeWorkers + (Worker.busy (s.tasks.take (min cfg.batchPop s.tasks.length)) []).active := by rw [hw]; rfl
    have hmove := h.move (x := .busy (s.tasks.take (min cfg.batchPop s.tasks.length)) [])
      (hinside w (by rw [hw]; nofun)) nofun (hothers w hw) hactive
    exact ⟨hmove.inside, hmove.alone, hmove.locked, hmove.active⟩
  | @probe w t batch resultBatch p hw =>
    have hmove := hkeep w (.busy batch (resultBatch ++ [t.compared cfg.mode p])) (by rw [hw]; nofun) nofun (by rw [hw]; rfl)
    exact ⟨hmove.inside, hmove.alone, hmove.locked, hmove.active⟩
  | @skip w hw => exact hkeep w .releasing (by rw [hw]; nofun) nofun (by rw [hw]; rfl)
  | @publish w resultBatch hw =>
    have hmove := hkeep w (.published resultBatch.length) (by rw [hw]; nofun) nofun (by rw [hw]; rfl)
    exact ⟨hmove.inside, hmove.alone, hmove.locked, hmove.active⟩
  | @count w n hw =>
    have hmove := hkeep w .releasing (by rw [hw]; nofun) nofun (by rw [hw]; rfl)
    exact ⟨hmove.inside, hmove.alone, hmove.locked, hmove.active⟩
  | @release w hw hfree =>
    have hin := hinside w (by rw [hw]; nofun)
    have hpos := Worklist.le_total (fun v => (s.worker v).active) hin
    have hone : (s.worker w).active = 1 := by rw [hw]; rfl
    have hold := h.active
    refine h.move hin nofun (fun v _ hv => h.locked v hv) ?_
    show s.activeWorkers - 1 + (s.worker w).active = s.activeWorkers + 0
    omega

/-! ### How entries move -/

/-- The entries of a batch that are not compared, and those that are. -/
def Worker.batch : Worker → Multiset Task
  | .busy batch _ => batch
  | _ => 0

def Worker.compared : Worker → Multiset ComparedItem
  | .busy _ resultBatch => resultBatch
  | _ => 0

/-- What is not compared yet. -/
def State.rest (cfg : ComparePipelineConfig) (s : State) : Multiset Task :=
  (s.dispatchBuffer : Multiset Task) + (s.tasks : Multiset Task) + total cfg.count fun w => (s.worker w).batch

/-- What is compared, with the threads, among the results, or drained. -/
def State.compared (cfg : ComparePipelineConfig) (s : State) : Multiset ComparedItem :=
  (total cfg.count fun w => (s.worker w).compared) + (s.results : Multiset ComparedItem) + (s.out : Multiset ComparedItem)

/-- An entry comes in, is compared, or stays on its side. -/
inductive Flow (cfg : ComparePipelineConfig) (s s' : State) : Prop where
  | quiet (hrest : s'.rest cfg = s.rest cfg) (hcompared : s'.compared cfg = s.compared cfg)
      (henqueued : s'.enqueued = s.enqueued) (hprobes : s'.probes = s.probes)
  | enter (t : Task) (hserial : t.serial = s.enqueued.length) (hrest : s'.rest cfg = s.rest cfg + {t})
      (hcompared : s'.compared cfg = s.compared cfg) (henqueued : s'.enqueued = s.enqueued ++ [t])
      (hprobes : s'.probes = s.probes)
  | compare (t : Task) (p : Probe) (hrest : s.rest cfg = s'.rest cfg + {t})
      (hcompared : s'.compared cfg = s.compared cfg + {t.compared cfg.mode p}) (henqueued : s'.enqueued = s.enqueued)
      (hprobes : s'.probes = s.probes ++ [(t.serial, p)])

/-- A thread goes on with what it has. -/
theorem flow_set {w : ℕ} {x : Worker} (hin : w < cfg.count) (hbatch : x.batch = (s.worker w).batch)
    (hcompared : x.compared = (s.worker w).compared) :
    total cfg.count (fun v => (Function.update s.worker w x v).batch) = total cfg.count (fun v => (s.worker v).batch) ∧
      total cfg.count (fun v => (Function.update s.worker w x v).compared) =
        total cfg.count (fun v => (s.worker v).compared) := by
  have hb := total_update Worker.batch s.worker hin x
  have hc := total_update Worker.compared s.worker hin x
  rw [hbatch] at hb
  rw [hcompared] at hc
  exact ⟨add_right_cancel hb, add_right_cancel hc⟩

theorem flow_step (h : s.Pool cfg) {e : Event} (he : Effect cfg s e s') : Flow cfg s s' := by
  have hinside : ∀ w, s.worker w ≠ .waiting → w < cfg.count := fun w => h.inside_of_ne
  -- a thread without results goes on without entries
  have hmove : ∀ (w : ℕ) (x : Worker) (t : State), w < cfg.count → x.batch = (s.worker w).batch →
      x.compared = (s.worker w).compared → t.worker = Function.update s.worker w x →
      t.dispatchBuffer = s.dispatchBuffer → t.tasks = s.tasks → t.results = s.results → t.out = s.out →
      t.enqueued = s.enqueued → t.probes = s.probes → Flow cfg s t := by
    intro w x t hin hbatch hcompared hworker hd ht hr ho he hp
    obtain ⟨hb, hc⟩ := flow_set hin hbatch hcompared
    refine .quiet ?_ ?_ he hp
    · unfold State.rest
      rw [hworker, hd, ht, hb]
    · unfold State.compared
      rw [hworker, hr, ho, hc]
  cases he with
  | enqueue remote =>
    refine .enter ⟨s.enqueued.length, remote⟩ rfl ?_ rfl rfl rfl
    show ((s.dispatchBuffer ++ [_] : List Task) : Multiset Task) + _ + _ = _
    rw [← Multiset.coe_add, Multiset.coe_singleton]
    unfold State.rest
    abel
  | flush hfree =>
    refine .quiet ?_ rfl rfl rfl
    show ((([] : List Task) : Multiset Task)) + ((s.tasks ++ s.dispatchBuffer : List Task) : Multiset Task) + _ = _
    rw [← Multiset.coe_add, Multiset.coe_nil]
    unfold State.rest
    abel
  | drain =>
    refine .quiet rfl ?_ rfl rfl
    show total cfg.count (fun v => (s.worker v).compared) + (([] : List ComparedItem) : Multiset ComparedItem) +
      ((s.out ++ s.results : List ComparedItem) : Multiset ComparedItem) = _
    rw [← Multiset.coe_add, Multiset.coe_nil]
    unfold State.compared
    abel
  | setActiveCap cap => exact .quiet rfl rfl rfl rfl
  | stop => exact .quiet rfl rfl rfl rfl
  | wake hw hin hfree hawake =>
    exact hmove _ .holding _ hin (by rw [hw]; rfl) (by rw [hw]; rfl) rfl rfl rfl rfl rfl rfl rfl
  | leave hw hstop htasks =>
    exact hmove _ .gone _ (hinside _ (by rw [hw]; nofun)) (by rw [hw]; rfl) (by rw [hw]; rfl) rfl rfl rfl rfl rfl rfl rfl
  | wait hw hcap =>
    exact hmove _ .waiting _ (hinside _ (by rw [hw]; nofun)) (by rw [hw]; rfl) (by rw [hw]; rfl) rfl rfl rfl rfl rfl rfl rfl
  | @claim w hw hcap =>
    have hin := hinside w (by rw [hw]; nofun)
    have hbatch := total_grow (g := Worker.batch) (f := s.worker) hin
      (x := .busy (s.tasks.take (min cfg.batchPop s.tasks.length)) [])
      (c := (s.tasks.take (min cfg.batchPop s.tasks.length) : List Task)) (by rw [hw]; exact (zero_add _).symm)
    have hcompared := total_grow (g := Worker.compared) (f := s.worker) hin
      (x := .busy (s.tasks.take (min cfg.batchPop s.tasks.length)) []) (c := 0) (by rw [hw]; rfl)
    have hsplit : (s.tasks : Multiset Task) = (s.tasks.take (min cfg.batchPop s.tasks.length) : List Task) +
        ((s.tasks.drop (min cfg.batchPop s.tasks.length) : List Task) : Multiset Task) := by
      rw [Multiset.coe_add, List.take_append_drop]
    refine .quiet ?_ ?_ rfl rfl
    · show (s.dispatchBuffer : Multiset Task) + ((s.tasks.drop _ : List Task) : Multiset Task) +
        total cfg.count (fun v => (Function.update s.worker w _ v).batch) = s.rest cfg
      unfold State.rest
      rw [hbatch, hsplit]
      abel
    · show total cfg.count (fun v => (Function.update s.worker w _ v).compared) + (s.results : Multiset ComparedItem) +
        (s.out : Multiset ComparedItem) = s.compared cfg
      unfold State.compared
      rw [hcompared, add_zero]
  | @probe w t batch resultBatch p hw =>
    have hin := hinside w (by rw [hw]; nofun)
    have hbatch := total_shrink (g := Worker.batch) (f := s.worker) hin
      (x := .busy batch (resultBatch ++ [t.compared cfg.mode p])) (c := {t}) (by
        rw [hw]
        show ((t :: batch : List Task) : Multiset Task) = (batch : Multiset Task) + {t}
        rw [← Multiset.cons_coe, ← Multiset.singleton_add, add_comm])
    have hcompared := total_grow (g := Worker.compared) (f := s.worker) hin
      (x := .busy batch (resultBatch ++ [t.compared cfg.mode p])) (c := {t.compared cfg.mode p}) (by
        rw [hw]
        exact (Multiset.coe_add _ _).symm)
    refine .compare t p ?_ ?_ rfl rfl
    · unfold State.rest
      rw [← hbatch, ← add_assoc]
      rfl
    · show total cfg.count (fun v => (Function.update s.worker w _ v).compared) + _ + _ = _
      unfold State.compared
      rw [hcompared]
      abel
  | skip hw =>
    exact hmove _ .releasing _ (hinside _ (by rw [hw]; nofun)) (by rw [hw]; rfl) (by rw [hw]; rfl) rfl rfl rfl rfl rfl rfl rfl
  | @publish w resultBatch hw =>
    have hin := hinside w (by rw [hw]; nofun)
    have hbatch := total_grow (g := Worker.batch) (f := s.worker) hin (x := .published resultBatch.length) (c := 0)
      (by rw [hw]; rfl)
    have hcompared := total_shrink (g := Worker.compared) (f := s.worker) hin (x := .published resultBatch.length)
      (c := (resultBatch : Multiset ComparedItem)) (by rw [hw]; exact (zero_add _).symm)
    refine .quiet ?_ ?_ rfl rfl
    · show (s.dispatchBuffer : Multiset Task) + (s.tasks : Multiset Task) +
        total cfg.count (fun v => (Function.update s.worker w _ v).batch) = s.rest cfg
      unfold State.rest
      rw [hbatch, add_zero]
    · show total cfg.count (fun v => (Function.update s.worker w _ v).compared) +
        ((s.results ++ resultBatch : List ComparedItem) : Multiset ComparedItem) + (s.out : Multiset ComparedItem) = _
      unfold State.compared
      rw [← hcompared, ← Multiset.coe_add]
      abel
  | count hw =>
    exact hmove _ .releasing _ (hinside _ (by rw [hw]; nofun)) (by rw [hw]; rfl) (by rw [hw]; rfl) rfl rfl rfl rfl rfl rfl rfl
  | release hw hfree =>
    exact hmove _ .waiting _ (hinside _ (by rw [hw]; nofun)) (by rw [hw]; rfl) (by rw [hw]; rfl) rfl rfl rfl rfl rfl rfl rfl

/-! ### The invariant -/

/-- Every entry is compared at most once, by its own probe. -/
structure State.Accounts (cfg : ComparePipelineConfig) (s : State) : Prop where
  numbered : s.enqueued.map Task.serial = List.range s.enqueued.length
  kept : s.rest cfg + (s.compared cfg).map ComparedItem.task = (s.enqueued : Multiset Task)
  decided : ∀ i ∈ s.compared cfg, i.outcome = decideCompare cfg.mode i.localFile i.remote ∧
    ∃ p, (i.serial, p) ∈ s.probes ∧ i.localFile = p.localFile
  probed : (s.probes.map Prod.fst : List ℕ) = (s.compared cfg).map ComparedItem.serial

theorem State.Accounts.flow (h : s.Accounts cfg) (hf : Flow cfg s s') : s'.Accounts cfg := by
  obtain ⟨hnumbered, hkept, hdecided, hprobed⟩ := h
  cases hf with
  | quiet hrest hcompared henqueued hprobes =>
    refine ⟨?_, ?_, ?_, ?_⟩
    · rw [henqueued]
      exact hnumbered
    · rw [hrest, hcompared, henqueued]
      exact hkept
    · rw [hcompared, hprobes]
      exact hdecided
    · rw [hcompared, hprobes]
      exact hprobed
  | enter t hserial hrest hcompared henqueued hprobes =>
    refine ⟨?_, ?_, ?_, ?_⟩
    · rw [henqueued, List.map_append, hnumbered, List.length_append, List.length_singleton, List.range_succ,
        List.map_singleton, hserial]
    · rw [hrest, hcompared, henqueued, ← Multiset.coe_add, ← hkept, Multiset.coe_singleton]
      abel
    · rw [hcompared, hprobes]
      exact hdecided
    · rw [hcompared, hprobes]
      exact hprobed
  | compare t p hrest hcompared henqueued hprobes =>
    refine ⟨?_, ?_, ?_, ?_⟩
    · rw [henqueued]
      exact hnumbered
    · rw [hcompared, henqueued, ← hkept, hrest, Multiset.map_add, Multiset.map_singleton]
      show _ + (_ + {t}) = _
      abel
    · rw [hcompared, hprobes]
      intro i hi
      rcases Multiset.mem_add.1 hi with hi | hi
      · obtain ⟨houtcome, q, hq, hlocal⟩ := hdecided i hi
        exact ⟨houtcome, q, List.mem_append_left _ hq, hlocal⟩
      · rw [Multiset.mem_singleton.1 hi]
        exact ⟨rfl, p, List.mem_append_right _ List.mem_cons_self, rfl⟩
    · rw [hcompared, hprobes, List.map_append, ← Multiset.coe_add, hprobed, Multiset.map_add, Multiset.map_singleton]
      rfl

/-- The counters, and what is left in the queue when a thread has left. -/
structure State.Ends (s : State) : Prop where
  issued : s.issued = s.enqueued.length
  drained : s.drained = s.out.length
  left : ∀ w, s.worker w = .gone → s.stop = true ∧ ∀ t ∈ s.tasks, t ∈ s.late

/-- No thread leaves, and the queue does not grow. -/
theorem State.Ends.move (h : s.Ends) {t : State} (hissued : t.issued = s.issued) (henqueued : t.enqueued = s.enqueued)
    (hdrained : t.drained = s.drained) (hout : t.out = s.out) (hstop : t.stop = s.stop) (hlate : t.late = s.late)
    (htasks : ∀ x ∈ t.tasks, x ∈ s.tasks) (hgone : ∀ w, t.worker w = .gone → s.worker w = .gone) : t.Ends := by
  refine ⟨?_, ?_, fun w hw => ?_⟩
  · rw [hissued, henqueued]
    exact h.issued
  · rw [hdrained, hout]
    exact h.drained
  · obtain ⟨hs, hall⟩ := h.left w (hgone w hw)
    rw [hstop, hlate]
    exact ⟨hs, fun x hx => hall x (htasks x hx)⟩

theorem ends_step (h : s.Ends) {e : Event} (he : Effect cfg s e s') : s'.Ends := by
  have hset : ∀ (w : ℕ) (x : Worker), x ≠ .gone → ∀ v, Function.update s.worker w x v = .gone → s.worker v = .gone := by
    intro w x hx v hv
    rcases of_update hv with ⟨-, heq⟩ | ⟨-, hv⟩
    · exact absurd heq hx
    · exact hv
  cases he with
  | enqueue remote =>
    refine ⟨?_, h.drained, h.left⟩
    show s.issued + 1 = (s.enqueued ++ [_]).length
    rw [List.length_append, List.length_singleton, h.issued]
  | flush hfree =>
    refine ⟨h.issued, h.drained, fun w hw => ?_⟩
    obtain ⟨hstop, hall⟩ := h.left w hw
    refine ⟨hstop, fun t ht => ?_⟩
    show t ∈ if s.stop = true then s.late ++ s.dispatchBuffer else s.late
    rw [if_pos hstop]
    rcases List.mem_append.1 ht with ht | ht
    · exact List.mem_append_left _ (hall t ht)
    · exact List.mem_append_right _ ht
  | drain =>
    refine ⟨h.issued, ?_, h.left⟩
    show s.drained + s.results.length = (s.out ++ s.results).length
    rw [List.length_append, h.drained]
  | setActiveCap cap => exact ⟨h.issued, h.drained, h.left⟩
  | stop => exact ⟨h.issued, h.drained, fun w hw => ⟨rfl, (h.left w hw).2⟩⟩
  | wake hw hin hfree hawake => exact h.move rfl rfl rfl rfl rfl rfl (fun _ hx => hx) (hset _ _ nofun)
  | leave hw hstop htasks =>
    refine ⟨h.issued, h.drained, fun _ _ => ⟨hstop, fun t ht => ?_⟩⟩
    have hnil : t ∈ ([] : List Task) := htasks ▸ ht
    cases hnil
  | wait hw hcap => exact h.move rfl rfl rfl rfl rfl rfl (fun _ hx => hx) (hset _ _ nofun)
  | claim hw hcap => exact h.move rfl rfl rfl rfl rfl rfl (fun _ hx => List.mem_of_mem_drop hx) (hset _ _ nofun)
  | probe p hw => exact h.move rfl rfl rfl rfl rfl rfl (fun _ hx => hx) (hset _ _ nofun)
  | skip hw => exact h.move rfl rfl rfl rfl rfl rfl (fun _ hx => hx) (hset _ _ nofun)
  | publish hw => exact h.move rfl rfl rfl rfl rfl rfl (fun _ hx => hx) (hset _ _ nofun)
  | count hw => exact h.move rfl rfl rfl rfl rfl rfl (fun _ hx => hx) (hset _ _ nofun)
  | release hw hfree => exact h.move rfl rfl rfl rfl rfl rfl (fun _ hx => hx) (hset _ _ nofun)

structure State.Inv (cfg : ComparePipelineConfig) (s : State) : Prop where
  pool : s.Pool cfg
  accounts : s.Accounts cfg
  ends : s.Ends

theorem inv_init (cfg : ComparePipelineConfig) : (machine cfg).init.Inv cfg := by
  have hzero : ∀ {M : Type} [AddCancelCommMonoid M] (f : Worker → M), f .waiting = 0 →
      total cfg.count (fun _ => f .waiting) = 0 := fun f hf => Finset.sum_eq_zero fun _ _ => hf
  have hrest : (machine cfg).init.rest cfg = 0 := (zero_add _).trans (hzero Worker.batch rfl)
  have hcompared : (machine cfg).init.compared cfg = 0 := by
    show total cfg.count (fun _ => Worker.compared .waiting) + 0 + 0 = 0
    rw [hzero Worker.compared rfl]
    rfl
  refine ⟨⟨fun _ => .inl rfl, nofun, nofun, (hzero Worker.active rfl).symm⟩, ⟨rfl, ?_, ?_, ?_⟩, ⟨rfl, rfl, nofun⟩⟩
  · rw [hrest, hcompared]
    rfl
  · rw [hcompared]
    intro i hi
    exact absurd hi (Multiset.notMem_zero i)
  · rw [hcompared]
    rfl

theorem inv_step (h : s.Inv cfg) {e : Event} (hs : s.step cfg e = some s') : s'.Inv cfg := by
  have he := effect_of_step hs
  exact ⟨pool_step h.pool he, h.accounts.flow (flow_step h.pool he), ends_step h.ends he⟩

theorem next_eq {e : Event} (hs : s.step cfg e = some s') : (machine cfg).next s e = s' := by
  show (s.step cfg e).getD s = s'
  rw [hs]
  rfl

theorem inv_reach {ok : State → Event → Prop} (h : (machine cfg).Reach ok s) : s.Inv cfg := by
  refine h.invariant (I := State.Inv cfg) (inv_init cfg) fun s e hs hc _ => ?_
  obtain ⟨s', heq⟩ := Option.isSome_iff_exists.1 hc
  rw [next_eq heq]
  exact inv_step hs heq

/-! ### What the invariant says about the entries -/

theorem held_eq (x : Worker) : x.held = x.batch + x.compared.map ComparedItem.task := by
  cases x <;> rfl

/-- What is not drained is what is not compared and what is compared and not drained. -/
theorem undrained_eq (cfg : ComparePipelineConfig) (s : State) :
    s.undrained cfg + (s.out.map ComparedItem.task : List Task) =
      s.rest cfg + (s.compared cfg).map ComparedItem.task := by
  have hheld : total cfg.count (fun w => (s.worker w).held) = total cfg.count (fun w => (s.worker w).batch) +
      (total cfg.count fun w => (s.worker w).compared).map ComparedItem.task := by
    unfold total
    rw [Finset.sum_congr rfl fun w _ => held_eq (s.worker w), Finset.sum_add_distrib]
    exact congrArg (_ + ·) (map_sum (Multiset.mapAddMonoidHom ComparedItem.task) _ _).symm
  unfold State.undrained State.rest State.compared
  rw [hheld, Multiset.map_add, Multiset.map_add, Multiset.map_coe, Multiset.map_coe]
  abel

theorem State.Inv.kept (h : s.Inv cfg) :
    s.undrained cfg + (s.out.map ComparedItem.task : List Task) = (s.enqueued : Multiset Task) := by
  rw [undrained_eq]
  exact h.accounts.kept

theorem State.Inv.nodup (h : s.Inv cfg) : (s.enqueued.map Task.serial).Nodup := by
  rw [h.accounts.numbered]
  exact List.nodup_range

/-- The serial numbers of the probes are those of compared entries, so none comes twice. -/
theorem State.Inv.probes_nodup (h : s.Inv cfg) : (s.probes.map Prod.fst).Nodup := by
  have hle : ((s.probes.map Prod.fst : List ℕ) : Multiset ℕ) ≤ (s.enqueued.map Task.serial : List ℕ) := by
    have hkept := congrArg (Multiset.map Task.serial) h.accounts.kept
    rw [Multiset.map_add, Multiset.map_map] at hkept
    rw [h.accounts.probed, ← Multiset.map_coe, ← hkept]
    exact Multiset.le_add_left _ _
  have hnodup : ((s.enqueued.map Task.serial : List ℕ) : Multiset ℕ).Nodup := Multiset.coe_nodup.2 h.nodup
  exact Multiset.coe_nodup.1 (Multiset.nodup_of_le hle hnodup)

theorem mem_compared_of_out {i : ComparedItem} (hi : i ∈ s.out) : i ∈ s.compared cfg :=
  Multiset.mem_add.2 (.inr hi)

/-- With as many drained as enqueued nothing is under way. -/
theorem State.Inv.all_drained (h : s.Inv cfg) (hzero : s.inFlight = 0) :
    (s.out.map ComparedItem.task).Perm s.enqueued := by
  have hle : ((s.out.map ComparedItem.task : List Task) : Multiset Task) ≤ (s.enqueued : Multiset Task) :=
    h.kept ▸ Multiset.le_add_left _ _
  have hcard : s.enqueued.length ≤ s.out.length := by
    have hissued := h.ends.issued
    have hdrained := h.ends.drained
    unfold State.inFlight at hzero
    split at hzero <;> omega
  refine Multiset.coe_eq_coe.1 (Multiset.eq_of_le_of_card_le hle ?_)
  rw [Multiset.coe_card, Multiset.coe_card, List.length_map]
  exact hcard

theorem count_pos (cfg : ComparePipelineConfig) : 0 < cfg.count := Nat.lt_of_lt_of_le Nat.one_pos (Nat.le_max_left _ _)

theorem gone_of_joined (h : s.joined cfg) {w : ℕ} (hw : w < cfg.count) : s.worker w = .gone := by
  have hgone := h w hw
  split at hgone
  · assumption
  · cases hgone

/-- No thread has anything when all have left, and the queue holds what came too late. -/
theorem State.Inv.mem_of_joined (h : s.Inv cfg) (hjoined : s.joined cfg) {t : Task} (ht : t ∈ s.enqueued)
    (hbuffer : t ∉ s.dispatchBuffer) (hlate : t ∉ s.late) : t ∈ (s.out ++ s.results).map ComparedItem.task := by
  have hheld : total cfg.count (fun w => (s.worker w).held) = 0 := by
    refine Finset.sum_eq_zero fun w hw => ?_
    rw [gone_of_joined hjoined (Finset.mem_range.1 hw)]
    rfl
  have htasks : t ∉ s.tasks := fun hin => hlate ((h.ends.left 0 (gone_of_joined hjoined (count_pos cfg))).2 t hin)
  have hmem : t ∈ s.undrained cfg + (s.out.map ComparedItem.task : List Task) := h.kept ▸ ht
  unfold State.undrained at hmem
  rw [hheld, add_zero] at hmem
  simp only [Multiset.mem_add, Multiset.mem_coe] at hmem
  rw [List.map_append]
  rcases hmem with ((hin | hin) | hin) | hin
  · exact absurd hin hbuffer
  · exact absurd hin htasks
  · exact List.mem_append_right _ hin
  · exact List.mem_append_left _ hin

/-- A thread that takes a slot at the gate has found one free. -/
theorem slot_of_gate {w : ℕ} (hcan : (machine cfg).can s (.gate w)) (hstop : s.stop = false)
    (hslot : ((machine cfg).next s (.gate w)).activeWorkers ≠ s.activeWorkers) :
    s.activeCap = 0 ∨ s.activeWorkers < s.activeCap := by
  obtain ⟨s', hs⟩ := Option.isSome_iff_exists.1 hcan
  rw [next_eq hs] at hslot
  cases effect_of_step hs with
  | leave hw hleft htasks => exact absurd rfl hslot
  | wait hw hcap => exact absurd rfl hslot
  | claim hw hcap => exact hcap hstop

/-- **The compare pipeline keeps every entry.** Each entry is in one place or drained; what is drained is the
decision about its own entry and probe; `InFlight` is 0 only when all are drained; after `Stop` and `Join` what
was flushed before `Stop` is compared; and up to `Stop` a slot is taken below the cap only. -/
theorem pipeline_exact (cfg : ComparePipelineConfig) {s : State} (h : (machine cfg).Reach (fun _ _ => True) s) :
    ((s.enqueued.map Task.serial).Nodup ∧
        s.undrained cfg + (s.out.map ComparedItem.task : List Task) = (s.enqueued : Multiset Task)) ∧
      ((s.probes.map Prod.fst).Nodup ∧
        ∀ i ∈ s.out, i.outcome = decideCompare cfg.mode i.localFile i.remote ∧
          ∃ p, (i.serial, p) ∈ s.probes ∧ i.localFile = p.localFile) ∧
      (s.inFlight = 0 → (s.out.map ComparedItem.task).Perm s.enqueued) ∧
      (s.joined cfg → ∀ t ∈ s.enqueued, t ∉ s.dispatchBuffer → t ∉ s.late →
        t ∈ (s.out ++ s.results).map ComparedItem.task) ∧
      s.activeWorkers = total cfg.count (fun w => (s.worker w).active) ∧
      ∀ w, (machine cfg).can s (.gate w) → s.stop = false →
        ((machine cfg).next s (.gate w)).activeWorkers ≠ s.activeWorkers →
          s.activeCap = 0 ∨ s.activeWorkers < s.activeCap := by
  have hinv := inv_reach h
  refine ⟨⟨hinv.nodup, hinv.kept⟩, ⟨hinv.probes_nodup, ?_⟩, hinv.all_drained, ?_, hinv.pool.active, ?_⟩
  · intro i hi
    exact hinv.accounts.decided i (mem_compared_of_out hi)
  · intro hjoined t ht hbuffer hlate
    exact hinv.mem_of_joined hjoined ht hbuffer hlate
  · intro w hcan hstop hslot
    exact slot_of_gate hcan hstop hslot

/-- One entry, and one thread that compares it. -/
def smallEntry : FileEntry := ⟨[], false, 0, 0⟩

theorem pipeline_oneEntry : ∃ s : State, (machine ⟨.fast, 1, 32⟩).Reach (fun _ _ => True) s ∧ s.inFlight = 0 ∧
    (s.out.map ComparedItem.task).Perm s.enqueued := by
  have hreach : (machine ⟨.fast, 1, 32⟩).Reach (fun _ _ => True) ((machine ⟨.fast, 1, 32⟩).run (machine ⟨.fast, 1, 32⟩).init
      [.enqueue smallEntry, .flush, .wake 0, .gate 0, .probe 0 .throws, .publish 0, .count 0, .drain]) :=
    Runs.Machine.reach_run (by decide)
  exact ⟨_, hreach, by decide, (pipeline_exact _ hreach).2.2.1 (by decide)⟩

/-- The only thread leaves after `Stop`, and the entry that is flushed then stays in the queue. -/
theorem late_unprocessed : ∃ s : State, (machine ⟨.fast, 1, 32⟩).Reach (fun _ _ => True) s ∧ s.joined ⟨.fast, 1, 32⟩ ∧
    s.enqueued.length = 1 ∧ s.dispatchBuffer.length = 0 ∧ (s.out ++ s.results).length = 0 := by
  have hreach : (machine ⟨.fast, 1, 32⟩).Reach (fun _ _ => True) ((machine ⟨.fast, 1, 32⟩).run (machine ⟨.fast, 1, 32⟩).init
      [.stop, .wake 0, .gate 0, .enqueue smallEntry, .flush]) := Runs.Machine.reach_run (by decide)
  exact ⟨_, hreach, by decide, by decide, by decide, by decide⟩

end FastClone.ComparePipeline
