import FastClone.Spec.DirWalk

/-!
# The directory walk visits everything, and ends

`simulates`: the walk is a run of the work list (`abs`), in which sleeping and leaving threads are idle, so
what the work list keeps (`Worklist.Kept`) holds. `Inv` adds the condition variable and the exceptions:
a thread sleeps only while the queue is empty and a batch is out, so somebody can always go on
(`exists_step`), and `fuel` bounds the steps.
-/

namespace FastClone.DirWalk

open Worklist (total total_update total_grow total_shrink under under_nil under_cons under_append under_reverse
  of_update)

variable {D C E : Type}

/-! ### Finite trees -/

/-- The directories at and under one: itself, and those under its children. -/
theorem Dirs.all_eq (T : Dirs D) (d : D) : T.all d = d :: (T.children d).flatMap T.all := by
  unfold Dirs.all
  rw [WellFounded.fix_eq]
  congr 1
  rw [← List.flatMap_map, List.attach_map_subtype_val]

/-! ### What a step can do -/

section Effects

variable {W : Call D C} {s s' : State D C E}

inductive Effect (W : Call D C) (s : State D C E) : Event C E → State D C E → Prop where
  | sleep {w : ℕ} (hw : s.worker w = .waiting) (hin : w < W.numWorkers) (hq : s.queue = []) (ha : s.activeDirs ≠ 0) :
      Effect W s (.check w) (s.set w .asleep)
  | quit {w : ℕ} (hw : s.worker w = .waiting) (hin : w < W.numWorkers) (hd : s.done = true) :
      Effect W s (.check w) (s.set w .leaving)
  | leave {w : ℕ} (hw : s.worker w = .waiting) (hin : w < W.numWorkers) (hq : s.queue = []) (ha : s.activeDirs = 0) :
      Effect W s (.check w) (s.notifyAll.set w .leaving)
  | take {w : ℕ} (hw : s.worker w = .waiting) (hin : w < W.numWorkers) (hd : s.done = false) (hq : s.queue ≠ []) :
      Effect W s (.check w) (s.take W.dirPopBatch w)
  | wake {w : ℕ} (hw : s.worker w = .asleep) : Effect W s (.wake w) (s.set w .waiting)
  | process {w size : ℕ} {d : D} {batch subdirs : List D} (hw : s.worker w = .busy (d :: batch) size subdirs) :
      Effect W s (.process w) { s.set w (.busy batch size (subdirs ++ W.dirs.children d)) with
        ctx := Function.update s.ctx w (W.processDir d (s.ctx w))
        processed := Function.update s.processed w (s.processed w ++ [d]) }
  | throw {w size : ℕ} {d : D} {batch subdirs : List D} (e : E) (ctx : C)
      (hw : s.worker w = .busy (d :: batch) size subdirs) :
      Effect W s (.throw w e ctx) { s.set w (.catching size e) with
        ctx := Function.update s.ctx w ctx
        thrown := s.thrown ++ [e] }
  | capture {w size : ℕ} {e : E} (hw : s.worker w = .catching size e) :
      Effect W s (.capture w) { s.set w (.caught size) with
        firstError := s.firstError <|> some e
        captured := s.captured ++ [e] }
  | book {w size : ℕ} {subdirs : List D}
      (hw : s.worker w = .busy [] size subdirs ∨ s.worker w = .caught size ∧ subdirs = []) :
      Effect W s (.book w) (s.book w size subdirs)
  | finish {w : ℕ} (hw : s.worker w = .leaving) :
      Effect W s (.finish w) { s.set w .gone with merged := s.merged ++ [(w, s.ctx w)] }
  | cancel : Effect W s .cancel { s with done := true }

theorem effect_check {w : ℕ} (hw : s.worker w = .waiting) (hin : w < W.numWorkers) :
    Effect W s (.check w) (s.check W w) := by
  unfold State.check
  split
  · rename_i hcan
    cases hd : s.done with
    | true => exact .quit hw hin hd
    | false =>
      rw [hd] at hcan
      rw [if_neg Bool.false_ne_true]
      split
      · rename_i hq
        refine .leave hw hin hq ?_
        rcases hcan with h | h | h
        · cases h
        · exact absurd hq h
        · exact h
      · rename_i hq
        exact .take hw hin hd hq
  · rename_i hcan
    rw [not_or, not_or, not_not] at hcan
    exact .sleep hw hin hcan.2.1 hcan.2.2

theorem effect_of_step {e : Event C E} (hs : s.step W e = some s') : Effect W s e s' := by
  cases e with
  | check w =>
    simp only [State.step] at hs
    split at hs
    · rename_i hw
      split at hs
      · rename_i hin
        cases hs
        exact effect_check hw hin
      · cases hs
    · cases hs
  | wake w =>
    simp only [State.step] at hs
    split at hs
    · rename_i hw
      cases hs
      exact .wake hw
    · cases hs
  | process w =>
    simp only [State.step] at hs
    split at hs
    · rename_i hw
      cases hs
      exact .process hw
    · cases hs
  | throw w e ctx =>
    simp only [State.step] at hs
    split at hs
    · rename_i hw
      cases hs
      exact .throw e ctx hw
    · cases hs
  | capture w =>
    simp only [State.step] at hs
    split at hs
    · rename_i hw
      cases hs
      exact .capture hw
    · cases hs
  | book w =>
    simp only [State.step] at hs
    split at hs
    · rename_i hw
      cases hs
      exact .book (.inl hw)
    · rename_i hw
      cases hs
      exact .book (.inr ⟨hw, rfl⟩)
    · cases hs
  | finish w =>
    simp only [State.step] at hs
    split at hs
    · rename_i hw
      cases hs
      exact .finish hw
    · cases hs
  | cancel =>
    cases hs
    exact .cancel

theorem notifyAll_worker (s : State D C E) (w : ℕ) :
    s.notifyAll.worker w = s.worker w ∨ (s.worker w = .asleep ∧ s.notifyAll.worker w = .waiting) := by
  unfold State.notifyAll
  dsimp only
  cases hw : s.worker w with
  | asleep => exact .inr ⟨rfl, rfl⟩
  | _ => exact .inl rfl

/-- Nobody sleeps after a notification. -/
theorem notifyAll_ne_asleep (s : State D C E) (w : ℕ) : s.notifyAll.worker w ≠ .asleep := by
  unfold State.notifyAll
  dsimp only
  cases s.worker w <;> nofun

end Effects

/-! ### The walk as a work list -/

/-- The work list of a call; listing a directory emits the directory itself. -/
def Call.worklist (W : Call D C) : Worklist.Walk D D where
  root := W.rootDir
  list d := some ([d], W.dirs.children d)
  workers := W.numWorkers
  workers_pos := W.numWorkers_pos
  popBatch := W.dirPopBatch
  popBatch_pos := W.dirPopBatch_pos

def Worker.abs : Worker D E → Worklist.Worker D
  | .waiting | .asleep | .leaving => .idle
  | .busy batch size subdirs => .busy batch size subdirs
  | .catching size _ | .caught size => .busy [] size []
  | .gone => .gone

/-- What a thread has processed, until its context is merged. -/
def unmerged : Worklist.Worker D → List D → List D
  | .gone, _ => []
  | _, processed => processed

def State.abs (s : State D C E) : Worklist.State D D where
  queue := s.queue
  worker w := (s.worker w).abs
  buffer w := unmerged (s.worker w).abs (s.processed w)
  active := s.activeDirs
  out := s.merged.flatMap fun p => s.processed p.1
  failed := !s.thrown.isEmpty
  stopped := s.done

section Abs

variable {W : Call D C} {s s' : State D C E}

theorem abs_worker_update (s : State D C E) (w : ℕ) (x : Worker D E) :
    (fun v => (Function.update s.worker w x v).abs) = Function.update (fun v => (s.worker v).abs) w x.abs := by
  funext v
  exact Function.apply_update (fun _ => Worker.abs) s.worker w x v

/-- A buffer depends on its own thread only. -/
theorem unmerged_update (s : State D C E) (w : ℕ) (x : Worker D E) (l : List D) :
    (fun v => unmerged (Function.update s.worker w x v).abs (Function.update s.processed w l v)) =
      Function.update (fun v => unmerged (s.worker v).abs (s.processed v)) w (unmerged x.abs l) := by
  funext v
  by_cases hv : v = w
  · subst hv
    rw [Function.update_self, Function.update_self, Function.update_self]
  · rw [Function.update_of_ne hv, Function.update_of_ne hv, Function.update_of_ne hv]

/-- A thread that stays keeps its directories. -/
theorem unmerged_keep (s : State D C E) {w : ℕ} {x : Worker D E} (hx : x.abs ≠ .gone) (hw : (s.worker w).abs ≠ .gone) :
    (fun v => unmerged (Function.update s.worker w x v).abs (s.processed v)) =
      fun v => unmerged (s.worker v).abs (s.processed v) := by
  have hheld : ∀ y : Worklist.Worker D, y ≠ .gone → unmerged y (s.processed w) = s.processed w := by
    intro y hy
    cases y with
    | gone => exact absurd rfl hy
    | _ => rfl
  funext v
  by_cases hv : v = w
  · subst hv
    rw [Function.update_self, hheld _ hx, hheld _ hw]
  · rw [Function.update_of_ne hv]

/-- Steps that the work list does not see. -/
theorem abs_set {w : ℕ} {x : Worker D E} (h : x.abs = (s.worker w).abs) : (s.set w x).abs = s.abs := by
  have hworker : (fun v => (Function.update s.worker w x v).abs) = fun v => (s.worker v).abs := by
    rw [abs_worker_update, h]
    exact Function.update_eq_self w _
  have hbuffer : (fun v => unmerged (Function.update s.worker w x v).abs (s.processed v)) =
      fun v => unmerged (s.worker v).abs (s.processed v) := by
    funext v
    rw [congrFun hworker v]
  unfold State.abs State.set
  dsimp only
  rw [hworker, hbuffer]

theorem abs_notifyAll (s : State D C E) : s.notifyAll.abs = s.abs := by
  have hworker : (fun v => (s.notifyAll.worker v).abs) = fun v => (s.worker v).abs := by
    funext v
    rcases notifyAll_worker s v with h | ⟨h, h'⟩
    · rw [h]
    · rw [h, h']
      rfl
  have hbuffer : (fun v => unmerged (s.notifyAll.worker v).abs (s.processed v)) =
      fun v => unmerged (s.worker v).abs (s.processed v) := by
    funext v
    rw [congrFun hworker v]
  unfold State.abs
  rw [hworker]
  show ({ queue := s.queue, worker := _, buffer := fun v => unmerged (s.notifyAll.worker v).abs (s.processed v), .. } :
    Worklist.State D D) = _
  rw [hbuffer]
  rfl

/-- What the step into a work list step needs: nobody was told to stop, merged threads have gone, and a thread
that leaves has found the work done. -/
structure State.Settled (W : Call D C) (s : State D C E) : Prop where
  running : s.done = false
  inside : ∀ w, s.worker w = .waiting ∨ w < W.numWorkers
  merged : ∀ p ∈ s.merged, s.worker p.1 = .gone
  leaving : ∀ w, s.worker w = .leaving → s.queue = [] ∧ s.activeDirs = 0

theorem abs_take (W : Call D C) (s : State D C E) {w : ℕ} (hw : s.worker w = .waiting) :
    (s.take W.dirPopBatch w).abs = s.abs.pop W.worklist.popBatch w := by
  unfold State.abs State.take State.set Worklist.State.pop Worklist.State.set
  dsimp only
  rw [abs_worker_update, unmerged_keep s (by nofun) (by rw [hw]; nofun)]
  rfl

/-- The directories of the merged threads stay when a thread that has not gone goes on. -/
theorem out_update (h : s.Settled W) {w : ℕ} (hw : s.worker w ≠ .gone) (l : List D) :
    (s.merged.flatMap fun p => Function.update s.processed w l p.1) = s.merged.flatMap fun p => s.processed p.1 := by
  refine List.flatMap_congr fun p hp => ?_
  have hne : p.1 ≠ w := by
    rintro rfl
    exact hw (h.merged p hp)
  exact Function.update_of_ne hne _ _

/-- **Every step of the walk is a step of the work list, or none.** -/
theorem simulates (h : s.Settled W) {e : Event C E} (he : Effect W s e s') (hok : e.notCancel = true) :
    s'.abs = s.abs ∨ ∃ e, s.abs.step W.worklist (fun _ => false) e = some s'.abs := by
  cases he with
  | sleep hw hin hq ha => exact .inl (abs_set (by rw [hw]; rfl))
  | quit hw hin hd => exact absurd (hd.symm.trans h.running) nofun
  | @leave w hw hin hq ha =>
    -- who is woken is as idle as before
    refine .inl ?_
    have hidle : (s.notifyAll.worker w).abs = .idle := by
      rcases notifyAll_worker s w with h | ⟨-, h⟩
      · rw [h, hw]
        rfl
      · rw [h]
        rfl
    rw [abs_set (by rw [hidle]; rfl), abs_notifyAll]
  | @take w hw hin hd hq =>
    refine .inr ⟨.pop w, ?_⟩
    have hidle : s.abs.worker w = .idle := by
      show (s.worker w).abs = _
      rw [hw]
      rfl
    rw [abs_take W s hw]
    unfold Worklist.State.step
    dsimp only
    rw [hidle]
    exact if_pos ⟨hin, hd, hq⟩
  | wake hw => exact .inl (abs_set (by rw [hw]; rfl))
  | @process w size d batch subdirs hw =>
    -- what is processed goes out only with the context, so it counts as held until then
    refine .inr ⟨.list w 0, ?_⟩
    have hbusy : s.abs.worker w = .busy (d :: batch) size subdirs := by
      show (s.worker w).abs = _
      rw [hw]
      rfl
    have hout := out_update h (w := w) (by rw [hw]; nofun) (s.processed w ++ [d])
    have hheld : unmerged (s.worker w).abs (s.processed w) = s.processed w := by
      rw [hw]
      rfl
    unfold Worklist.State.step
    dsimp only
    rw [hbusy]
    show (if s.done = true then _ else _) = _
    rw [if_neg (by rw [h.running]; nofun)]
    unfold State.abs State.set Worklist.State.emit Worklist.State.set
    dsimp only
    rw [abs_worker_update, hout, unmerged_update, hheld]
    rfl
  | @throw w size d batch subdirs e ctx hw =>
    refine .inr ⟨.fail w, ?_⟩
    have hbusy : s.abs.worker w = .busy (d :: batch) size subdirs := by
      show (s.worker w).abs = _
      rw [hw]
      rfl
    have hfailed : (s.thrown ++ [e]).isEmpty = false := by
      rw [List.isEmpty_eq_false_iff]
      exact List.append_ne_nil_of_right_ne_nil _ (List.cons_ne_nil _ _)
    unfold Worklist.State.step
    dsimp only
    rw [hbusy]
    unfold State.abs State.set Worklist.State.set
    dsimp only
    rw [abs_worker_update, unmerged_keep s (by nofun) (by rw [hw]; nofun), hfailed]
    rfl
  | @capture w size e hw =>
    have hset : (s.set w (.caught size)).abs = s.abs := by
      refine abs_set ?_
      rw [hw]
      rfl
    exact .inl hset
  | @book w size subdirs hw =>
    -- the batch is empty, whether it was processed or given up
    refine .inr ⟨.push w, ?_⟩
    have hbusy : (s.worker w).abs = .busy [] size subdirs := by
      rcases hw with hw | ⟨hw, rfl⟩
      · rw [hw]
        rfl
      · rw [hw]
        rfl
    have habs : (s.book w size subdirs).abs =
        { s.abs.set w .idle with
          queue := s.abs.queue ++ subdirs
          active := s.abs.active - size } := by
      have hplain : State.abs { s.set w .waiting with
            queue := s.queue ++ subdirs
            activeDirs := s.activeDirs - size } =
          { s.abs.set w .idle with
            queue := s.abs.queue ++ subdirs
            active := s.abs.active - size } := by
        unfold State.abs State.set Worklist.State.set
        dsimp only
        rw [abs_worker_update, unmerged_keep s (by nofun) (by rw [hbusy]; nofun)]
        rfl
      unfold State.book
      dsimp only
      split
      · rw [abs_notifyAll, hplain]
      · exact hplain
    unfold Worklist.State.step
    dsimp only
    rw [show s.abs.worker w = _ from hbusy, habs]
  | @finish w hw =>
    -- the context is merged: what was held goes out
    refine .inr ⟨.leave w, ?_⟩
    have hidle : s.abs.worker w = .idle := by
      show (s.worker w).abs = _
      rw [hw]
      rfl
    have hin : w < W.numWorkers := by
      rcases h.inside w with hwait | hin
      · rw [hw] at hwait
        cases hwait
      · exact hin
    have hheld : unmerged (s.worker w).abs (s.processed w) = s.processed w := by
      rw [hw]
      rfl
    have hbuffer := unmerged_update s w (.gone : Worker D E) (s.processed w)
    rw [Function.update_eq_self] at hbuffer
    unfold Worklist.State.step
    dsimp only
    rw [hidle]
    show (if w < W.numWorkers ∧ (s.done = true ∨ s.queue = [] ∧ s.activeDirs = 0) then _ else none) = _
    rw [if_pos ⟨hin, .inr (h.leaving w hw)⟩]
    unfold State.abs State.set Worklist.State.handOver Worklist.State.set
    dsimp only
    rw [abs_worker_update, hbuffer, hheld, List.flatMap_append, List.flatMap_singleton]
    rfl
  | cancel => cases hok

end Abs

/-! ### The invariant -/

section Invariant

variable {W : Call D C} {s s' : State D C E}

/-- What the work list keeps of a walk. -/
abbrev State.Kept (W : Call D C) (s : State D C E) : Prop :=
  Worklist.Kept W.worklist (fun d => (W.dirs.all d : Multiset D)) (fun d => {d}) s.abs

/-- The exception a thread has caught and not handed in. -/
def Worker.pending : Worker D E → Multiset E
  | .catching _ e => {e}
  | _ => 0

/-- A thread sleeps only while the queue is empty and a batch is out. -/
def State.Watched (s : State D C E) : Prop := ∀ w, s.worker w = .asleep → s.queue = [] ∧ s.activeDirs ≠ 0

/-- The threads that have gone are merged, each once, and with the context it ended with. -/
structure State.Merged (W : Call D C) (s : State D C E) : Prop where
  once : (s.merged.map Prod.fst).Nodup
  gone : ∀ w, s.worker w = .gone → w ∈ s.merged.map Prod.fst
  ctx : ∀ p ∈ s.merged, p.2 = s.ctx p.1
  folded : s.thrown = [] → ∀ w, s.ctx w = (s.processed w).foldl (fun c d => W.processDir d c) W.ctxPrototype

/-- Every exception is caught, and the first one handed in is kept. -/
structure State.Errors (W : Call D C) (s : State D C E) : Prop where
  first : s.firstError = s.captured.head?
  caught : (s.captured : Multiset E) + total W.numWorkers (fun i => (s.worker i).pending) = (s.thrown : Multiset E)

structure State.Inv (W : Call D C) (s : State D C E) : Prop where
  settled : s.Settled W
  kept : s.Kept W
  watched : s.Watched
  merged : s.Merged W
  errors : s.Errors W

theorem inv_start (W : Call D C) : (State.start W : State D C E).Inv W where
  settled := ⟨rfl, fun _ => .inl rfl, nofun, nofun⟩
  kept := Worklist.Kept.start
  watched := nofun
  merged := ⟨List.nodup_nil, nofun, nofun, fun _ _ => rfl⟩
  errors := by
    refine ⟨rfl, ?_⟩
    have hzero : total W.numWorkers (fun _ => (Worker.waiting : Worker D E).pending) = 0 :=
      Finset.sum_eq_zero fun _ _ => rfl
    show (0 : Multiset E) + _ = 0
    rw [zero_add]
    exact hzero

/-- A batch that is out is counted. -/
theorem State.Kept.active_pos (h : s.Kept W) {w size : ℕ} {batch subdirs : List D}
    (hw : (s.worker w).abs = .busy batch size subdirs) : s.activeDirs ≠ 0 := by
  obtain ⟨hin, hpos⟩ := h.inside w batch size subdirs hw
  have hle := Worklist.le_total (fun i => (s.abs.worker i).size) hin
  rw [show s.abs.worker w = _ from hw, ← h.active] at hle
  have hsize : 0 < s.abs.active := hpos.trans_le hle
  exact Nat.pos_iff_ne_zero.1 hsize

/-- The worklist step of a step of the walk. -/
theorem kept_step (h : s.Inv W) {e : Event C E} (he : Effect W s e s') (hok : e.notCancel = true) : s'.Kept W := by
  rcases simulates h.settled he hok with heq | ⟨e, hstep⟩
  · unfold State.Kept
    rw [heq]
    exact h.kept
  · refine Worklist.Kept.step (⟨?_, nofun⟩ : Worklist.Collects _ (fun _ => false) _ _) h.kept hstep
    intro d os ds hlist
    obtain ⟨rfl, rfl⟩ := Prod.mk.inj (Option.some.inj hlist)
    rw [W.dirs.all_eq, Worklist.under_coe, Worklist.meant_singleton, Multiset.coe_add]
    rfl

/-- Only threads of the call do anything. -/
theorem State.Settled.inside_of_ne (h : s.Settled W) {w : ℕ} (hw : s.worker w ≠ .waiting) : w < W.numWorkers :=
  (h.inside w).resolve_left hw

theorem inside_update (h : ∀ v, s.worker v = .waiting ∨ v < W.numWorkers) {w : ℕ} (hin : w < W.numWorkers)
    (x : Worker D E) (v : ℕ) : Function.update s.worker w x v = .waiting ∨ v < W.numWorkers := by
  by_cases hv : v = w
  · exact .inr (hv ▸ hin)
  · rw [Function.update_of_ne hv]
    exact h v

theorem inside_notifyAll (h : ∀ v, s.worker v = .waiting ∨ v < W.numWorkers) (v : ℕ) :
    s.notifyAll.worker v = .waiting ∨ v < W.numWorkers := by
  rcases notifyAll_worker s v with heq | ⟨-, heq⟩
  · rw [heq]
    exact h v
  · exact .inl heq

/-- Merged threads stay gone while another goes on. -/
theorem gone_update (h : s.Settled W) {w : ℕ} (hw : s.worker w ≠ .gone) (x : Worker D E) :
    ∀ p ∈ s.merged, Function.update s.worker w x p.1 = .gone := by
  intro p hp
  have hgone := h.merged p hp
  have hne : p.1 ≠ w := by
    rintro rfl
    exact hw hgone
  rw [Function.update_of_ne hne]
  exact hgone

theorem gone_notifyAll (h : s.Settled W) : ∀ p ∈ s.merged, s.notifyAll.worker p.1 = .gone := by
  intro p hp
  have hgone := h.merged p hp
  rcases notifyAll_worker s p.1 with heq | ⟨hasleep, -⟩
  · rw [heq]
    exact hgone
  · rw [hgone] at hasleep
    cases hasleep

/-- A step that leaves the queue and the count alone, and lets nobody leave. -/
theorem State.Settled.move (h : s.Settled W) {w : ℕ} {x : Worker D E} (hin : w < W.numWorkers)
    (hw : s.worker w ≠ .gone) (hx : x ≠ .leaving) : (s.set w x).Settled W := by
  refine ⟨h.running, inside_update h.inside hin x, gone_update h hw x, ?_⟩
  intro v hv
  rcases of_update hv with ⟨-, hleave⟩ | ⟨-, hv⟩
  · exact absurd hleave hx
  · exact h.leaving v hv

/-- While a batch is out nobody leaves. -/
theorem State.Inv.none_leaving (h : s.Inv W) {w v size : ℕ} {batch subdirs : List D}
    (hw : (s.worker w).abs = .busy batch size subdirs) : s.worker v ≠ .leaving :=
  fun hv => h.kept.active_pos hw (h.settled.leaving v hv).2

theorem settled_step (h : s.Inv W) {e : Event C E} (he : Effect W s e s') (hok : e.notCancel = true) : s'.Settled W := by
  have hs := h.settled
  cases he with
  | sleep hw hin hq ha => exact hs.move hin (by rw [hw]; nofun) nofun
  | quit hw hin hd => exact absurd (hd.symm.trans hs.running) nofun
  | @leave w hw hin hq ha =>
    -- the queue is empty and nobody is at work, and both stay so
    refine ⟨hs.running, inside_update (inside_notifyAll hs.inside) hin _, ?_, fun v _ => ⟨hq, ha⟩⟩
    intro p hp
    have hne : p.1 ≠ w := by
      rintro rfl
      have hgone := hs.merged p hp
      rw [hw] at hgone
      cases hgone
    show Function.update s.notifyAll.worker w .leaving p.1 = .gone
    rw [Function.update_of_ne hne]
    exact gone_notifyAll hs p hp
  | @take w hw hin hd hq =>
    have hmove : (s.set w (.busy (s.queue.drop (s.queue.length - min W.dirPopBatch s.queue.length)).reverse
        (min W.dirPopBatch s.queue.length) [])).Settled W := hs.move hin (by rw [hw]; nofun) nofun
    refine ⟨hs.running, hmove.inside, hmove.merged, ?_⟩
    -- something was queued, so no thread is leaving
    intro v hv
    exact absurd (hmove.leaving v hv).1 hq
  | wake hw => exact hs.move (hs.inside_of_ne (by rw [hw]; nofun)) (by rw [hw]; nofun) nofun
  | @process w size d batch subdirs hw =>
    have hmove : (s.set w (.busy batch size (subdirs ++ W.dirs.children d))).Settled W :=
      hs.move (hs.inside_of_ne (by rw [hw]; nofun)) (by rw [hw]; nofun) nofun
    exact ⟨hmove.running, hmove.inside, hmove.merged, hmove.leaving⟩
  | @throw w size d batch subdirs e ctx hw =>
    have hmove : (s.set w (.catching size e)).Settled W :=
      hs.move (hs.inside_of_ne (by rw [hw]; nofun)) (by rw [hw]; nofun) nofun
    exact ⟨hmove.running, hmove.inside, hmove.merged, hmove.leaving⟩
  | @capture w size e hw =>
    have hmove : (s.set w (.caught size)).Settled W :=
      hs.move (hs.inside_of_ne (by rw [hw]; nofun)) (by rw [hw]; nofun) nofun
    exact ⟨hmove.running, hmove.inside, hmove.merged, hmove.leaving⟩
  | @book w size subdirs hw =>
    have hbusy : (s.worker w).abs = .busy [] size subdirs := by
      rcases hw with hw | ⟨hw, rfl⟩ <;> rw [hw] <;> rfl
    have hne : s.worker w ≠ .waiting ∧ s.worker w ≠ .gone := by
      constructor <;> intro heq <;> rw [heq] at hbusy <;> cases hbusy
    have hmove : (s.set w .waiting).Settled W := hs.move (hs.inside_of_ne hne.1) hne.2 nofun
    -- while this thread was at work no other could leave
    have hnone : ∀ v, (s.set w .waiting).worker v ≠ .leaving := by
      intro v hv
      rcases of_update hv with ⟨-, hleave⟩ | ⟨-, hv⟩
      · cases hleave
      · exact h.none_leaving hbusy hv
    have hbooked : State.Settled W { s.set w .waiting with
        queue := s.queue ++ subdirs
        activeDirs := s.activeDirs - size } :=
      ⟨hmove.running, hmove.inside, hmove.merged, fun v hv => absurd hv (hnone v)⟩
    unfold State.book
    dsimp only
    split
    · refine ⟨hbooked.running, inside_notifyAll hbooked.inside, gone_notifyAll hbooked, ?_⟩
      intro v hv
      rcases notifyAll_worker _ v with heq | ⟨-, heq⟩
      · rw [heq] at hv
        exact absurd hv (hnone v)
      · rw [heq] at hv
        cases hv
    · exact hbooked
  | @finish w hw =>
    have hin := hs.inside_of_ne (w := w) (by rw [hw]; nofun)
    have hmove : (s.set w .gone).Settled W := hs.move hin (by rw [hw]; nofun) nofun
    refine ⟨hmove.running, hmove.inside, ?_, hmove.leaving⟩
    intro p hp
    rcases List.mem_append.1 hp with hp | hp
    · exact hmove.merged p hp
    · rw [List.mem_singleton.1 hp]
      exact Function.update_self _ _ _
  | cancel => cases hok

/-- **A notification is never missed**: whoever sleeps is woken when the queue fills or the last batch is in. -/
theorem watched_step (h : s.Inv W) {e : Event C E} (he : Effect W s e s') (hok : e.notCancel = true) : s'.Watched := by
  have hkeep : ∀ (w : ℕ) (x : Worker D E), x ≠ .asleep → (s.set w x).Watched := by
    intro w x hx v hv
    rcases of_update hv with ⟨-, hasleep⟩ | ⟨-, hv⟩
    · exact absurd hasleep hx
    · exact h.watched v hv
  cases he with
  | sleep hw hin hq ha => exact fun _ _ => ⟨hq, ha⟩
  | quit hw hin hd => exact absurd (hd.symm.trans h.settled.running) nofun
  | leave hw hin hq ha =>
    intro v hv
    rcases of_update hv with ⟨-, hasleep⟩ | ⟨-, hv⟩
    · cases hasleep
    · exact absurd hv (notifyAll_ne_asleep s v)
  | @take w hw hin hd hq =>
    intro v hv
    rcases of_update hv with ⟨-, hasleep⟩ | ⟨-, hv⟩
    · cases hasleep
    · exact absurd (h.watched v hv).1 hq
  | wake hw => exact hkeep _ _ nofun
  | process hw => exact hkeep _ _ nofun
  | throw e ctx hw => exact hkeep _ _ nofun
  | capture hw => exact hkeep _ _ nofun
  | @book w size subdirs hw =>
    unfold State.book
    dsimp only
    split
    · exact fun v hv => absurd hv (notifyAll_ne_asleep _ v)
    · rename_i hquiet
      rw [not_or, not_not] at hquiet
      exact fun _ _ => hquiet
  | finish hw => exact hkeep _ _ nofun
  | cancel => cases hok

/-- A step that merges nobody and leaves the contexts alone. -/
theorem State.Merged.move (h : s.Merged W) {worker : ℕ → Worker D E}
    (hgone : ∀ v, worker v = .gone → s.worker v = .gone) : State.Merged W { s with worker := worker } :=
  ⟨h.once, fun v hv => h.gone v (hgone v hv), h.ctx, h.folded⟩

theorem gone_of_update {worker : ℕ → Worker D E} {w v : ℕ} {x : Worker D E}
    (hv : Function.update worker w x v = .gone) (hx : x ≠ .gone) : worker v = .gone := by
  rcases of_update hv with ⟨-, hgone⟩ | ⟨-, hv⟩
  · exact absurd hgone hx
  · exact hv

theorem gone_of_notifyAll {v : ℕ} (hv : s.notifyAll.worker v = .gone) : s.worker v = .gone := by
  rcases notifyAll_worker s v with heq | ⟨-, heq⟩
  · rw [← heq]
    exact hv
  · rw [heq] at hv
    cases hv

theorem merged_step (h : s.Inv W) {e : Event C E} (he : Effect W s e s') (hok : e.notCancel = true) : s'.Merged W := by
  have hm := h.merged
  -- the context of a thread that has not gone is nobody's merged one
  have hctx : ∀ (w : ℕ) (c : C), s.worker w ≠ .gone → ∀ p ∈ s.merged, p.2 = Function.update s.ctx w c p.1 := by
    intro w c hw p hp
    have hne : p.1 ≠ w := by
      rintro rfl
      exact hw (h.settled.merged p hp)
    rw [Function.update_of_ne hne]
    exact hm.ctx p hp
  cases he with
  | sleep hw hin hq ha => exact hm.move fun v hv => gone_of_update hv nofun
  | quit hw hin hd => exact absurd (hd.symm.trans h.settled.running) nofun
  | leave hw hin hq ha => exact hm.move fun v hv => gone_of_notifyAll (gone_of_update hv nofun)
  | take hw hin hd hq =>
    exact ⟨hm.once, fun v hv => hm.gone v (gone_of_update hv nofun), hm.ctx, hm.folded⟩
  | wake hw => exact hm.move fun v hv => gone_of_update hv nofun
  | @process w size d batch subdirs hw =>
    refine ⟨hm.once, fun v hv => hm.gone v (gone_of_update hv nofun), hctx w _ (by rw [hw]; nofun), ?_⟩
    intro hnone v
    have hfold := hm.folded hnone v
    by_cases hv : v = w
    · subst hv
      show Function.update s.ctx v _ v = (Function.update s.processed v _ v).foldl _ _
      rw [Function.update_self, Function.update_self, List.foldl_append, ← hfold]
      rfl
    · show Function.update s.ctx w _ v = (Function.update s.processed w _ v).foldl _ _
      rw [Function.update_of_ne hv, Function.update_of_ne hv]
      exact hfold
  | @throw w size d batch subdirs e ctx hw =>
    refine ⟨hm.once, fun v hv => hm.gone v (gone_of_update hv nofun), hctx w _ (by rw [hw]; nofun), ?_⟩
    intro hnone
    exact absurd hnone (List.append_ne_nil_of_right_ne_nil _ (List.cons_ne_nil _ _))
  | capture hw =>
    exact ⟨hm.once, fun v hv => hm.gone v (gone_of_update hv nofun), hm.ctx, hm.folded⟩
  | @book w size subdirs hw =>
    have hbooked : State.Merged W { s.set w .waiting with
        queue := s.queue ++ subdirs
        activeDirs := s.activeDirs - size } :=
      ⟨hm.once, fun v hv => hm.gone v (gone_of_update hv nofun), hm.ctx, hm.folded⟩
    unfold State.book
    dsimp only
    split
    · exact hbooked.move fun v => gone_of_notifyAll
    · exact hbooked
  | @finish w hw =>
    have hfresh : w ∉ s.merged.map Prod.fst := by
      intro hmem
      obtain ⟨p, hp, rfl⟩ := List.mem_map.1 hmem
      have hgone := h.settled.merged p hp
      rw [hw] at hgone
      cases hgone
    refine ⟨?_, ?_, ?_, hm.folded⟩
    · show ((s.merged ++ [(w, s.ctx w)]).map Prod.fst).Nodup
      rw [List.map_append]
      exact List.nodup_append_comm.1 (List.nodup_cons.2 ⟨hfresh, hm.once⟩)
    · intro v hv
      show v ∈ (s.merged ++ [(w, s.ctx w)]).map Prod.fst
      rw [List.map_append, List.mem_append]
      rcases of_update hv with ⟨rfl, -⟩ | ⟨-, hv⟩
      · exact .inr List.mem_cons_self
      · exact .inl (hm.gone v hv)
    · intro p hp
      rcases List.mem_append.1 hp with hp | hp
      · exact hm.ctx p hp
      · rw [List.mem_singleton.1 hp]
        rfl
  | cancel => cases hok

/-- A thread goes on without an exception. -/
theorem pending_update {w : ℕ} (hin : w < W.numWorkers) {x : Worker D E} (hx : x.pending = (s.worker w).pending) :
    total W.numWorkers (fun i => (Function.update s.worker w x i).pending) =
      total W.numWorkers (fun i => (s.worker i).pending) := by
  have hupdate := total_update Worker.pending s.worker hin x
  rw [hx] at hupdate
  exact add_right_cancel hupdate

theorem pending_notifyAll (s : State D C E) (w : ℕ) : (s.notifyAll.worker w).pending = (s.worker w).pending := by
  rcases notifyAll_worker s w with heq | ⟨hasleep, heq⟩
  · rw [heq]
  · rw [hasleep, heq]
    rfl

theorem errors_step (h : s.Inv W) {e : Event C E} (he : Effect W s e s') (hok : e.notCancel = true) : s'.Errors W := by
  obtain ⟨hfirst, hcaught⟩ := h.errors
  have hinside : ∀ w, s.worker w ≠ .waiting → w < W.numWorkers := fun w => h.settled.inside_of_ne
  -- a thread that neither throws nor hands in
  have hkeep : ∀ (w : ℕ) (x : Worker D E), w < W.numWorkers → x.pending = (s.worker w).pending →
      (s.captured : Multiset E) + total W.numWorkers (fun i => (Function.update s.worker w x i).pending) =
        (s.thrown : Multiset E) := by
    intro w x hin hx
    rw [pending_update hin hx]
    exact hcaught
  cases he with
  | sleep hw hin hq ha => exact ⟨hfirst, hkeep _ _ hin (by rw [hw]; rfl)⟩
  | quit hw hin hd => exact absurd (hd.symm.trans h.settled.running) nofun
  | @leave w hw hin hq ha =>
    refine ⟨hfirst, ?_⟩
    have hzero : (Worker.leaving : Worker D E).pending = (s.notifyAll.worker w).pending := by
      rw [pending_notifyAll, hw]
      rfl
    show (s.captured : Multiset E) + total W.numWorkers (fun i => (Function.update s.notifyAll.worker w _ i).pending) = _
    rw [pending_update (s := s.notifyAll) hin hzero]
    simp only [pending_notifyAll]
    exact hcaught
  | take hw hin hd hq => exact ⟨hfirst, hkeep _ _ hin (by rw [hw]; rfl)⟩
  | wake hw => exact ⟨hfirst, hkeep _ _ (hinside _ (by rw [hw]; nofun)) (by rw [hw]; rfl)⟩
  | process hw => exact ⟨hfirst, hkeep _ _ (hinside _ (by rw [hw]; nofun)) (by rw [hw]; rfl)⟩
  | @throw w size d batch subdirs e ctx hw =>
    refine ⟨hfirst, ?_⟩
    have hgrow := total_grow (g := Worker.pending) (f := s.worker) (hinside w (by rw [hw]; nofun))
      (x := .catching size e) (c := {e}) (by rw [hw]; exact (zero_add _).symm)
    show (s.captured : Multiset E) + total W.numWorkers (fun i => (Function.update s.worker w _ i).pending) =
      ((s.thrown ++ [e] : List E) : Multiset E)
    rw [hgrow, ← add_assoc, hcaught, ← Multiset.coe_add]
    rfl
  | @capture w size e hw =>
    refine ⟨?_, ?_⟩
    · show (s.firstError <|> some e) = (s.captured ++ [e]).head?
      rw [hfirst]
      cases s.captured <;> rfl
    · have hshrink := total_shrink (g := Worker.pending) (f := s.worker) (hinside w (by rw [hw]; nofun))
        (x := .caught size) (c := {e}) (by rw [hw]; exact (zero_add _).symm)
      show ((s.captured ++ [e] : List E) : Multiset E) +
        total W.numWorkers (fun i => (Function.update s.worker w _ i).pending) = (s.thrown : Multiset E)
      rw [← hcaught, ← hshrink, ← Multiset.coe_add, Multiset.coe_singleton]
      abel
  | @book w size subdirs hw =>
    have hin : w < W.numWorkers := by
      refine hinside w ?_
      rcases hw with hw | ⟨hw, -⟩ <;> rw [hw] <;> nofun
    have hzero : (Worker.waiting : Worker D E).pending = (s.worker w).pending := by
      rcases hw with hw | ⟨hw, -⟩ <;> rw [hw] <;> rfl
    have hbooked := hkeep w _ hin hzero
    unfold State.book
    dsimp only
    split
    · refine ⟨hfirst, ?_⟩
      simp only [pending_notifyAll]
      exact hbooked
    · exact ⟨hfirst, hbooked⟩
  | finish hw => exact ⟨hfirst, hkeep _ _ (hinside _ (by rw [hw]; nofun)) (by rw [hw]; rfl)⟩
  | cancel => cases hok

/-- **Every step without cancellation keeps the invariant.** -/
theorem inv_step (h : s.Inv W) {e : Event C E} (hs : s.step W e = some s') (hok : e.notCancel = true) : s'.Inv W := by
  have he := effect_of_step hs
  exact ⟨settled_step h he hok, kept_step h he hok, watched_step h he hok, merged_step h he hok,
    errors_step h he hok⟩

theorem next_eq {e : Event C E} (hs : s.step W e = some s') : (machine W).next s e = s' := by
  show (s.step W e).getD s = s'
  rw [hs]
  rfl

theorem inv_reach (h : (machine W).Reach (fun _ e => e.notCancel) s) : s.Inv W := by
  refine h.invariant (I := State.Inv W) (inv_start W) fun s e hs hc hok => ?_
  obtain ⟨s', heq⟩ := Option.isSome_iff_exists.1 hc
  rw [next_eq heq]
  exact inv_step hs heq hok

/-! ### Progress -/

/-- Whoever is not through can go on, or sleeps. -/
theorem own_step {w : ℕ} (hin : w < W.numWorkers) (hw : s.worker w ≠ .gone)
    (hawake : s.worker w ≠ .asleep) :
    ∃ e : Event C E, e.isWake = false ∧ e.isThrow = false ∧ e.notCancel = true ∧ (machine W).can s e := by
  have hcan : ∀ e : Event C E, (s.step W e).isSome = true → (machine W).can s e := fun _ h => h
  cases hs : s.worker w with
  | waiting => exact ⟨.check w, rfl, rfl, rfl, hcan _ (by simp only [State.step, hs, if_pos hin, Option.isSome_some])⟩
  | asleep => exact absurd hs hawake
  | busy batch size subdirs =>
    cases batch with
    | nil => exact ⟨.book w, rfl, rfl, rfl, hcan _ (by simp only [State.step, hs, Option.isSome_some])⟩
    | cons d batch => exact ⟨.process w, rfl, rfl, rfl, hcan _ (by simp only [State.step, hs, Option.isSome_some])⟩
  | catching size e => exact ⟨.capture w, rfl, rfl, rfl, hcan _ (by simp only [State.step, hs, Option.isSome_some])⟩
  | caught size => exact ⟨.book w, rfl, rfl, rfl, hcan _ (by simp only [State.step, hs, Option.isSome_some])⟩
  | leaving => exact ⟨.finish w, rfl, rfl, rfl, hcan _ (by simp only [State.step, hs, Option.isSome_some])⟩
  | gone => exact absurd hs hw

/-- **The walk is never stuck.** If a thread sleeps, the batch it waits for is with one that does not. -/
theorem exists_step (h : s.Inv W) (hfin : ¬ s.finished W) :
    ∃ e : Event C E, e.isWake = false ∧ e.isThrow = false ∧ e.notCancel = true ∧ (machine W).can s e := by
  obtain ⟨w, hin, hw⟩ : ∃ w, w < W.numWorkers ∧ s.worker w ≠ .gone := by
    by_contra hall
    push Not at hall
    refine hfin fun w hw => ?_
    rw [hall w hw]
  by_cases hasleep : s.worker w = .asleep
  · have hactive := (h.watched w hasleep).2
    obtain ⟨v, hv, hbusy⟩ : ∃ v, v < W.numWorkers ∧ (s.worker v).abs.size ≠ 0 := by
      by_contra hall
      push Not at hall
      refine hactive ?_
      have hsum : s.activeDirs = total W.numWorkers fun i => (s.worker i).abs.size := h.kept.active
      rw [hsum]
      exact Finset.sum_eq_zero fun i hi => hall i (Finset.mem_range.1 hi)
    refine own_step hv ?_ ?_ <;> intro heq <;> rw [heq] at hbusy <;> exact hbusy rfl
  · exact own_step hin hw hasleep

/-- How many directories are at and under those of a list. -/
def Dirs.below (T : Dirs D) (ds : List D) : ℕ := (ds.map fun d => (T.all d).length).sum

theorem Dirs.below_append (T : Dirs D) (ds es : List D) : T.below (ds ++ es) = T.below ds + T.below es := by
  unfold Dirs.below
  rw [List.map_append, List.sum_append]

theorem Dirs.length_all (T : Dirs D) (d : D) : (T.all d).length = T.below (T.children d) + 1 := by
  rw [T.all_eq, List.length_cons, List.length_flatMap]
  rfl

/-- What a batch costs: three steps each, and what its children cost. -/
def Call.batchFuel (W : Call D C) (batch : List D) : ℕ :=
  (batch.map fun d => 3 + (W.numWorkers + 8) * W.dirs.below (W.dirs.children d)).sum

theorem Call.batchFuel_cons (W : Call D C) (d : D) (batch : List D) : W.batchFuel (d :: batch) =
    3 + (W.numWorkers + 8) * W.dirs.below (W.dirs.children d) + W.batchFuel batch := List.sum_cons

theorem Dirs.below_cons (T : Dirs D) (d : D) (ds : List D) :
    T.below (d :: ds) = T.below (T.children d) + 1 + T.below ds := by
  rw [← T.length_all]
  exact List.sum_cons

/-- In the queue a directory counts as much as in a batch, and five steps and a wake of everybody more. -/
theorem Call.batchFuel_add (W : Call D C) (batch : List D) :
    W.batchFuel batch + (W.numWorkers + 5) * batch.length = (W.numWorkers + 8) * W.dirs.below batch := by
  induction batch with
  | nil => rfl
  | cons d batch ih =>
    rw [W.batchFuel_cons, W.dirs.below_cons, List.length_cons, Nat.mul_add _ _ (W.dirs.below batch), ← ih,
      Nat.mul_add (W.numWorkers + 8) _ 1, Nat.mul_add (W.numWorkers + 5) _ 1]
    omega

/-- What a thread still does, a batch it has, and the threads it may wake. -/
def Worker.fuel (W : Call D C) : Worker D E → ℕ
  | .waiting => W.numWorkers + 4
  | .asleep => W.numWorkers + 3
  | .busy batch _ subdirs => 2 * W.numWorkers + 7 + W.batchFuel batch + (W.numWorkers + 8) * W.dirs.below subdirs
  | .catching _ _ => 2 * W.numWorkers + 9
  | .caught _ => 2 * W.numWorkers + 8
  | .leaving => 1
  | .gone => 0

/-- More than the steps that are left, wakes without a notification apart. -/
def State.fuel (W : Call D C) (s : State D C E) : ℕ :=
  (W.numWorkers + 8) * W.dirs.below s.queue + total W.numWorkers fun i => (s.worker i).fuel W

/-- A notification gives every sleeper one more step. -/
theorem fuel_notifyAll (W : Call D C) (s : State D C E) : s.notifyAll.fuel W ≤ s.fuel W + W.numWorkers := by
  have hsum : total W.numWorkers (fun i => (s.notifyAll.worker i).fuel W) ≤
      total W.numWorkers (fun i => (s.worker i).fuel W + 1) := by
    refine Finset.sum_le_sum fun i _ => ?_
    rcases notifyAll_worker s i with heq | ⟨hasleep, heq⟩
    · rw [heq]
      omega
    · rw [heq, hasleep]
      exact Nat.le_refl _
  have hone : total W.numWorkers (fun i => (s.worker i).fuel W + 1) =
      total W.numWorkers (fun i => (s.worker i).fuel W) + W.numWorkers := by
    unfold total
    rw [Finset.sum_add_distrib, Finset.sum_const_nat (m := 1) fun _ _ => rfl, Finset.card_range, mul_one]
  show (W.numWorkers + 8) * W.dirs.below s.queue + _ ≤ (W.numWorkers + 8) * W.dirs.below s.queue + _ + _
  omega

/-- One thread goes on. -/
theorem fuel_set {w : ℕ} (hin : w < W.numWorkers) (x : Worker D E) :
    (s.set w x).fuel W + (s.worker w).fuel W = s.fuel W + x.fuel W := by
  have hupdate := total_update (Worker.fuel W) s.worker hin x
  show (W.numWorkers + 8) * W.dirs.below s.queue +
    total W.numWorkers (fun i => (Function.update s.worker w x i).fuel W) + _ = _
  unfold State.fuel
  omega

/-- A batch from the queue pays for itself. -/
theorem fuel_take {w : ℕ} (hw : s.worker w = .waiting) (hin : w < W.numWorkers) (hq : s.queue ≠ []) :
    (s.take W.dirPopBatch w).fuel W < s.fuel W := by
  obtain ⟨n, hn⟩ : ∃ n, n = min W.dirPopBatch s.queue.length := ⟨_, rfl⟩
  have hlen := List.length_pos_iff.2 hq
  have hbatch := W.dirPopBatch_pos
  have htaken : (s.queue.drop (s.queue.length - n)).reverse.length = n := by
    rw [List.length_reverse, List.length_drop]
    omega
  have hsplit : W.dirs.below s.queue = W.dirs.below (s.queue.take (s.queue.length - n)) +
      W.dirs.below (s.queue.drop (s.queue.length - n)).reverse := by
    have hreverse : W.dirs.below (s.queue.drop (s.queue.length - n)).reverse =
        W.dirs.below (s.queue.drop (s.queue.length - n)) := by
      unfold Dirs.below
      rw [List.map_reverse, List.sum_reverse]
    rw [hreverse, ← Dirs.below_append, List.take_append_drop]
  have hcost := W.batchFuel_add (s.queue.drop (s.queue.length - n)).reverse
  have hpaid : W.numWorkers + 5 ≤ (W.numWorkers + 5) * n := Nat.le_mul_of_pos_right _ (by omega)
  have hupdate := total_update (Worker.fuel W) s.worker hin
    (.busy (s.queue.drop (s.queue.length - n)).reverse n [])
  have hwaiting : (Worker.waiting : Worker D E).fuel W = W.numWorkers + 4 := rfl
  have hbusy : (Worker.busy (s.queue.drop (s.queue.length - n)).reverse n [] : Worker D E).fuel W =
    2 * W.numWorkers + 7 + W.batchFuel (s.queue.drop (s.queue.length - n)).reverse + 0 := rfl
  rw [hw, hwaiting, hbusy] at hupdate
  rw [htaken] at hcost
  show (W.numWorkers + 8) * W.dirs.below (s.queue.take (s.queue.length - min W.dirPopBatch s.queue.length)) +
    total W.numWorkers (fun i => (Function.update s.worker w (.busy (s.queue.drop (s.queue.length -
      min W.dirPopBatch s.queue.length)).reverse (min W.dirPopBatch s.queue.length) []) i).fuel W) < s.fuel W
  unfold State.fuel
  rw [← hn, hsplit, Nat.mul_add]
  omega

theorem fuel_book {w size : ℕ} {subdirs : List D} (hin : w < W.numWorkers)
    (hw : s.worker w = .busy [] size subdirs ∨ s.worker w = .caught size ∧ subdirs = []) :
    (s.book w size subdirs).fuel W < s.fuel W := by
  obtain ⟨t, ht⟩ : ∃ t : State D C E, t = { s.set w .waiting with
    queue := s.queue ++ subdirs
    activeDirs := s.activeDirs - size } := ⟨_, rfl⟩
  have hold : 2 * W.numWorkers + 7 + (W.numWorkers + 8) * W.dirs.below subdirs ≤ (s.worker w).fuel W := by
    rcases hw with hw | ⟨hw, rfl⟩
    · rw [hw]
      exact Nat.le_refl _
    · rw [hw]
      exact Nat.le_succ _
  have hset := fuel_set (s := s) hin .waiting
  have hwaiting : (Worker.waiting : Worker D E).fuel W = W.numWorkers + 4 := rfl
  have hqueue : t.fuel W = (s.set w .waiting).fuel W + (W.numWorkers + 8) * W.dirs.below subdirs := by
    rw [ht]
    unfold State.fuel State.set
    dsimp only
    rw [W.dirs.below_append, Nat.mul_add]
    omega
  have hwake := fuel_notifyAll W t
  rw [hwaiting] at hset
  have hbook : s.book w size subdirs = if t.queue ≠ [] ∨ t.activeDirs = 0 then t.notifyAll else t := by
    rw [ht]
    rfl
  rw [hbook]
  split <;> omega

/-- **Every step uses fuel up**, but for a wake without a notification, which costs one. -/
theorem fuel_step (h : s.Settled W) {e : Event C E} (he : Effect W s e s') (hok : e.notCancel = true) :
    if e.isWake then s'.fuel W ≤ s.fuel W + 1 else s'.fuel W < s.fuel W := by
  have hinside : ∀ w, s.worker w ≠ .waiting → w < W.numWorkers := fun w => h.inside_of_ne
  cases he with
  | @sleep w hw hin hq ha =>
    have hset := fuel_set (s := s) hin .asleep
    have hasleep : (Worker.asleep : Worker D E).fuel W = W.numWorkers + 3 := rfl
    have hwaiting : (Worker.waiting : Worker D E).fuel W = W.numWorkers + 4 := rfl
    rw [hw, hasleep, hwaiting] at hset
    show (s.set w .asleep).fuel W < s.fuel W
    omega
  | quit hw hin hd => exact absurd (hd.symm.trans h.running) nofun
  | @leave w hw hin hq ha =>
    -- each of the others costs at most one to wake, and this one gives up more than there are
    have hset := fuel_set (s := s.notifyAll) hin .leaving
    have hwake := fuel_notifyAll W s
    have hleaving : (Worker.leaving : Worker D E).fuel W = 1 := rfl
    have hwaiting : (s.notifyAll.worker w).fuel W = W.numWorkers + 4 := by
      rcases notifyAll_worker s w with heq | ⟨hasleep, -⟩
      · rw [heq, hw]
        rfl
      · rw [hw] at hasleep
        cases hasleep
    rw [hleaving, hwaiting] at hset
    show (s.notifyAll.set w .leaving).fuel W < s.fuel W
    omega
  | take hw hin hd hq => exact fuel_take hw hin hq
  | @wake w hw =>
    have hset := fuel_set (s := s) (hinside w (by rw [hw]; nofun)) .waiting
    have hasleep : (Worker.asleep : Worker D E).fuel W = W.numWorkers + 3 := rfl
    have hwaiting : (Worker.waiting : Worker D E).fuel W = W.numWorkers + 4 := rfl
    rw [hw, hasleep, hwaiting] at hset
    show (s.set w .waiting).fuel W ≤ s.fuel W + 1
    omega
  | @process w size d batch subdirs hw =>
    -- a directory holds the fuel for all below it, and hands on that of its subdirectories
    have hset := fuel_set (s := s) (hinside w (by rw [hw]; nofun))
      (.busy batch size (subdirs ++ W.dirs.children d))
    have hbefore : (Worker.busy (d :: batch) size subdirs : Worker D E).fuel W =
      2 * W.numWorkers + 7 + W.batchFuel (d :: batch) + (W.numWorkers + 8) * W.dirs.below subdirs := rfl
    have hafter : (Worker.busy batch size (subdirs ++ W.dirs.children d) : Worker D E).fuel W =
      2 * W.numWorkers + 7 + W.batchFuel batch + (W.numWorkers + 8) * W.dirs.below (subdirs ++ W.dirs.children d) := rfl
    rw [hw, hbefore, hafter, W.batchFuel_cons, W.dirs.below_append, Nat.mul_add _ _ (W.dirs.below (W.dirs.children d))] at hset
    show (s.set w (.busy batch size (subdirs ++ W.dirs.children d))).fuel W < s.fuel W
    omega
  | @throw w size d batch subdirs e ctx hw =>
    have hset := fuel_set (s := s) (hinside w (by rw [hw]; nofun)) (.catching size e)
    have hbefore : (Worker.busy (d :: batch) size subdirs : Worker D E).fuel W =
      2 * W.numWorkers + 7 + W.batchFuel (d :: batch) + (W.numWorkers + 8) * W.dirs.below subdirs := rfl
    have hafter : (Worker.catching size e : Worker D E).fuel W = 2 * W.numWorkers + 9 := rfl
    rw [hw, hbefore, hafter, W.batchFuel_cons] at hset
    show (s.set w (.catching size e)).fuel W < s.fuel W
    omega
  | @capture w size e hw =>
    have hset := fuel_set (s := s) (hinside w (by rw [hw]; nofun)) (.caught size)
    have hbefore : (Worker.catching size e : Worker D E).fuel W = 2 * W.numWorkers + 9 := rfl
    have hafter : (Worker.caught size : Worker D E).fuel W = 2 * W.numWorkers + 8 := rfl
    rw [hw, hbefore, hafter] at hset
    show (s.set w (.caught size)).fuel W < s.fuel W
    omega
  | @book w size subdirs hw =>
    refine fuel_book (hinside w ?_) hw
    rcases hw with hw | ⟨hw, -⟩ <;> rw [hw] <;> nofun
  | @finish w hw =>
    have hset := fuel_set (s := s) (hinside w (by rw [hw]; nofun)) .gone
    have hbefore : (Worker.leaving : Worker D E).fuel W = 1 := rfl
    have hafter : (Worker.gone : Worker D E).fuel W = 0 := rfl
    rw [hw, hbefore, hafter] at hset
    show (s.set w .gone).fuel W < s.fuel W
    omega
  | cancel => cases hok

/-- The steps of a run are bounded by what there is to do, and the wakes without a notification. -/
theorem run_bounded {es : List (Event C E)} (h : (machine W).Allows (fun _ e => e.notCancel) (.start W) es) :
    es.countP (fun e => !e.isWake) ≤ (State.start W : State D C E).fuel W + es.countP Event.isWake := by
  have hcount := h.count_le (State.fuel W) Event.isWake ?_ ?_ .init
  · exact (Nat.le_add_left _ _).trans hcount
  · intro s e hr hc hok hwake
    obtain ⟨s', hs⟩ := Option.isSome_iff_exists.1 hc
    have hstep := fuel_step (inv_reach hr).settled (effect_of_step hs) hok
    rw [hwake, if_neg Bool.false_ne_true] at hstep
    rw [next_eq hs]
    exact hstep
  · intro s e hr hc hok hwake
    obtain ⟨s', hs⟩ := Option.isSome_iff_exists.1 hc
    have hstep := fuel_step (inv_reach hr).settled (effect_of_step hs) hok
    rw [hwake, if_pos rfl] at hstep
    rw [next_eq hs]
    exact hstep

/-! ### The end -/

/-- A thread that leaves has found the queue empty and no batch out, and so it stays. -/
theorem alone_of_left (h : s.Inv W) {w : ℕ} (hw : s.worker w = .leaving ∨ s.worker w = .gone) :
    s.queue = [] ∧ ∀ v batch size subdirs, (s.worker v).abs ≠ .busy batch size subdirs := by
  have hdone : s.queue = [] ∧ s.activeDirs = 0 := by
    rcases hw with hw | hw
    · exact h.settled.leaving w hw
    · have hgone : s.abs.worker w = .gone := by
        show (s.worker w).abs = _
        rw [hw]
        rfl
      exact (h.kept.gone w hgone).2 h.settled.running
  exact ⟨hdone.1, fun v batch size subdirs hv => h.kept.active_pos hv hdone.2⟩

/-- Every thread is merged once. -/
theorem merged_perm (h : s.Inv W) (hfin : s.finished W) : (s.merged.map Prod.fst).Perm (List.range W.numWorkers) := by
  rw [List.perm_ext_iff_of_nodup h.merged.once List.nodup_range]
  intro w
  rw [List.mem_range]
  constructor
  · intro hmem
    obtain ⟨p, hp, rfl⟩ := List.mem_map.1 hmem
    have hgone := h.settled.merged p hp
    exact h.settled.inside_of_ne (by rw [hgone]; nofun)
  · intro hin
    have hgone := hfin w hin
    refine h.merged.gone w ?_
    split at hgone
    · assumption
    · cases hgone

/-- Every directory is processed once. -/
theorem processed_perm (h : s.Inv W) (hfin : s.finished W) (hok : s.thrown = []) :
    (s.merged.flatMap fun p => s.processed p.1).Perm (W.dirs.all W.rootDir) := by
  have hall : s.abs.finished W.worklist := by
    intro w hw
    have hgone := hfin w hw
    split at hgone
    · rename_i heq
      have habs : s.abs.worker w = .gone := by
        show (s.worker w).abs = .gone
        rw [heq]
        rfl
      rw [habs]
    · cases hgone
  have hcollected := h.kept.collected_of_finished hall (by show (!s.thrown.isEmpty) = false; rw [hok]; rfl)
    h.settled.running
  rw [Worklist.meant_singleton] at hcollected
  exact Multiset.coe_eq_coe.1 hcollected

/-- What was thrown was handed in, and the first of it is thrown again. -/
theorem rethrown (h : s.Inv W) (hfin : s.finished W) :
    s.captured.Perm s.thrown ∧ s.outcome = match s.captured with
      | [] => .ok ()
      | e :: _ => .error e := by
  constructor
  · have hnone : total W.numWorkers (fun i => (s.worker i).pending) = 0 := by
      refine Finset.sum_eq_zero fun i hi => ?_
      have hgone := hfin i (Finset.mem_range.1 hi)
      split at hgone
      · rename_i heq
        rw [heq]
        rfl
      · cases hgone
    have hcaught := h.errors.caught
    rw [hnone, add_zero] at hcaught
    exact Multiset.coe_eq_coe.1 hcaught
  · unfold State.outcome
    rw [h.errors.first]
    cases s.captured <;> rfl

end Invariant

end FastClone.DirWalk
