import FastClone.Proof.ComparePipeline
import FastClone.Spec.CheckEngine

/-!
# What the check engine keeps

`Inv`: where each file of the manifest is, which requests are open, and what the records say. It is stated with
the results of the pipeline that are in hand, since `drainCompare` routes them one by one. Each function has its
lemma, `Effect` lists the steps, and `inv_step` puts the lemmas together.
-/

namespace FastClone.CheckEngine

open Worklist (total total_update total_grow total_shrink of_update)
open FastClone.Delta FastClone.Wire FastClone.Compare
open FastClone.ComparePipeline (ComparePipelineConfig ComparedItem)

variable {o : CheckOptions} {s s' : State} {items : List ComparedItem}

/-! ### The pipeline under the engine -/

/-- The events that neither bring an entry nor take a result. -/
def passive : ComparePipeline.Event → Bool
  | .enqueue _ | .drain => false
  | _ => true

theorem passive_of_isWorker {e : ComparePipeline.Event} (h : isWorker e = true) : passive e = true := by
  cases e <;> first | rfl | cases h

/-- What the engine sees of its pipeline. -/
structure Unseen (p p' : ComparePipeline.State) : Prop where
  enqueued : p'.enqueued = p.enqueued
  out : p'.out = p.out
  inFlight : p'.inFlight = p.inFlight

theorem unseen_of_step {cfg : ComparePipelineConfig} {p p' : ComparePipeline.State} {e : ComparePipeline.Event}
    (he : passive e = true) (hs : p.step cfg e = some p') : Unseen p p' := by
  cases ComparePipeline.effect_of_step hs with
  | enqueue remote => cases he
  | drain => cases he
  | probe q hw => exact ⟨rfl, rfl, rfl⟩
  | flush hfree => exact ⟨rfl, rfl, rfl⟩
  | setActiveCap cap => exact ⟨rfl, rfl, rfl⟩
  | stop => exact ⟨rfl, rfl, rfl⟩
  | wake hw hin hfree hawake => exact ⟨rfl, rfl, rfl⟩
  | leave hw hstop htasks => exact ⟨rfl, rfl, rfl⟩
  | wait hw hcap => exact ⟨rfl, rfl, rfl⟩
  | claim hw hcap => exact ⟨rfl, rfl, rfl⟩
  | skip hw => exact ⟨rfl, rfl, rfl⟩
  | publish hw => exact ⟨rfl, rfl, rfl⟩
  | count hw => exact ⟨rfl, rfl, rfl⟩
  | release hw hfree => exact ⟨rfl, rfl, rfl⟩

/-! ### The invariant -/

/-- The task a thread of the hash pool has. -/
def HashWorker.held : HashWorker → Multiset Bytes
  | .hashing task => {task.rel}
  | _ => 0

def Record.path (r : Record) : Bytes := r.remote.relativePath

/-- The counter of a category. -/
def CompareCounters.of (c : CompareCounters) : CompareCategory → ℕ
  | .same => c.same
  | .diff => c.diff
  | .missing => c.missing
  | .extra => c.extraLocal

/-- A result of the pipeline asks for the hash. -/
def Needs (out : List ComparedItem) (n : HashNeed) : Prop :=
  ∃ i ∈ out, i.outcome.needHash = true ∧ i.remote = n.remote ∧ i.localFile = n.localFile

/-- With `items` drained and not routed. -/
structure Inv (o : CheckOptions) (s : State) (items : List ComparedItem) : Prop where
  pipe : s.pipe.Inv o.compareCfg
  nodup : (s.manifest.map FileEntry.relativePath).Nodup
  files : (s.manifest : Multiset FileEntry) =
    (s.delayedCompareEntries : Multiset FileEntry) + (s.pipe.enqueued.map ComparePipeline.Task.remote : List FileEntry)
  inHand : ∀ i ∈ items, i ∈ s.pipe.out
  routed : ((s.pipe.out.map ComparedItem.remote : List FileEntry) : Multiset FileEntry) =
    (items.map ComparedItem.remote : List FileEntry) + (s.hashQueue.map HashNeed.remote : List FileEntry) +
      Table.total (fun _ n => {n.remote}) s.awaiting + (s.verdicts.map Record.remote : List FileEntry) +
      (s.lost.map HashNeed.remote : List FileEntry)
  queued : ∀ n ∈ s.hashQueue, Needs s.pipe.out n
  keyed : ∀ rel n, s.awaiting.lookup rel = some n → n.remote.relativePath = rel ∧ Needs s.pipe.out n
  right : ∀ r ∈ s.verdicts, ∃ i ∈ s.pipe.out, i.remote = r.remote ∧ i.localFile = r.localFile ∧ Right s i r
  requested : (s.requested : Multiset Bytes) = Table.total (fun rel _ => {rel}) s.awaiting +
    ((s.verdicts.filter Record.hashCompared).map Record.path : List Bytes)
  asked : (s.requested : Multiset Bytes) = (s.unanswered : Multiset Bytes) + (s.answers.map Prod.fst : List Bytes)
  inFlight : s.inFlight = s.unanswered.length
  unanswered : ∀ rel ∈ s.unanswered, ∃ n, s.awaiting.lookup rel = some n
  stashed : ∀ rel hash, s.serverHashReady.lookup rel = some hash → (rel, hash) ∈ s.answers
  results : ∀ rel r, s.localResults.lookup rel = some r → (rel, r) ∈ s.localHashes
  tasks : (s.requested : Multiset Bytes) = (s.hashTaskQueue.map HashTask.rel : List Bytes) +
    total o.maxWorkers (fun w => (s.hashWorker w).held) + (s.localHashes.map Prod.fst : List Bytes)
  pool : ∀ w, s.hashWorker w = .waiting ∨ w < o.maxWorkers
  enumerated : s.counters.enumerated = s.manifest.length
  counts : ∀ c, s.counters.of c = s.recorded.countP fun r => decide (r.category = c)

theorem Right.mono {i : ComparedItem} {r : Record} (h : Right s i r) (hlocal : ∀ x ∈ s.localHashes, x ∈ s'.localHashes)
    (hserver : ∀ x ∈ s.answers, x ∈ s'.answers) : Right s' i r := by
  cases h with
  | decided hneed hflag hcategory => exact .decided hneed hflag hcategory
  | hashed hneed hflag hl hs hcategory => exact .hashed hneed hflag (hlocal _ hl) (hserver _ hs) hcategory

theorem Needs.mono {out out' : List ComparedItem} {n : HashNeed} (h : Needs out n) (hout : ∀ i ∈ out, i ∈ out') :
    Needs out' n := by
  obtain ⟨i, hi, hneed⟩ := h
  exact ⟨i, hout i hi, hneed⟩

/-- The records stay right while results of the pipeline, local hashes and answers are added. -/
theorem Inv.right_mono (h : Inv o s items) (hout : ∀ i ∈ s.pipe.out, i ∈ s'.pipe.out)
    (hlocal : ∀ x ∈ s.localHashes, x ∈ s'.localHashes) (hserver : ∀ x ∈ s.answers, x ∈ s'.answers) :
    ∀ r ∈ s.verdicts, ∃ i ∈ s'.pipe.out, i.remote = r.remote ∧ i.localFile = r.localFile ∧ Right s' i r := by
  intro r hr
  obtain ⟨i, hi, hremote, hfile, hright⟩ := h.right r hr
  exact ⟨i, hout i hi, hremote, hfile, hright.mono hlocal hserver⟩

/-- Steps that move the main thread and set its flags. -/
theorem Inv.control (h : Inv o s items) (pc : Pc) (manifestDone userInterrupted disconnected localReadFailed hashStop : Bool)
    (window cap : ℕ) (ready : List Bytes) (partialRun : Bool) (exit : Option ExitCode) :
    Inv o { s with
      pc := pc, manifestDone := manifestDone, userInterrupted := userInterrupted, disconnected := disconnected,
      localReadFailed := localReadFailed, hashStop := hashStop, hashWindow := window, hashWorkerCap := cap,
      readyQueue := ready, partialRun := partialRun, exit := exit } items :=
  ⟨h.pipe, h.nodup, h.files, h.inHand, h.routed, h.queued, h.keyed, h.right_mono (fun _ hx => hx) (fun _ hx => hx) fun _ hx => hx,
    h.requested, h.asked, h.inFlight, h.unanswered, h.stashed, h.results, h.tasks, h.pool, h.enumerated, h.counts⟩

/-! ### Paths -/

/-- The paths of what is drained are paths of the manifest. -/
theorem Inv.paths_nodup (h : Inv o s items) :
    (((s.pipe.out.map ComparedItem.remote).map FileEntry.relativePath : List Bytes) : Multiset Bytes).Nodup := by
  have hout : ((s.pipe.out.map ComparedItem.remote : List FileEntry) : Multiset FileEntry) ≤ s.manifest := by
    have hkept := congrArg (Multiset.map ComparePipeline.Task.remote) h.pipe.kept
    rw [Multiset.map_add, Multiset.map_coe, Multiset.map_coe, List.map_map] at hkept
    rw [h.files, ← hkept]
    exact (Multiset.le_add_left _ _).trans (Multiset.le_add_left _ _)
  have hle := Multiset.map_le_map (f := FileEntry.relativePath) hout
  rw [Multiset.map_coe, Multiset.map_coe] at hle
  exact Multiset.nodup_of_le hle (Multiset.coe_nodup.2 h.nodup)

/-- An entry that waits is found under its own path. -/
theorem Inv.keys_eq (h : Inv o s items) : Table.total (fun rel _ => {rel}) s.awaiting =
    (Table.total (fun _ n => {n.remote}) s.awaiting : Multiset FileEntry).map FileEntry.relativePath := by
  have hkeyed : ∀ e ∈ s.awaiting.entries, e.1 = e.2.remote.relativePath := fun e he =>
    (h.keyed e.1 e.2 (AList.mem_lookup_iff.2 he)).1.symm
  show (s.awaiting.entries.map fun e => ({e.1} : Multiset Bytes)).sum =
    Multiset.mapAddMonoidHom FileEntry.relativePath (s.awaiting.entries.map fun e => ({e.2.remote} : Multiset FileEntry)).sum
  rw [map_list_sum, List.map_map]
  refine congrArg List.sum (List.map_congr_left fun e he => ?_)
  rw [hkeyed e he]
  rfl

/-- The requests, and the paths that are still queued for one, are paths of what is drained. -/
theorem Inv.requested_le (h : Inv o s items) :
    (s.requested : Multiset Bytes) + ((s.hashQueue.map HashNeed.remote).map FileEntry.relativePath : List Bytes) ≤
      ((s.pipe.out.map ComparedItem.remote).map FileEntry.relativePath : List Bytes) := by
  have hfiltered : (((s.verdicts.filter Record.hashCompared).map Record.path : List Bytes) : Multiset Bytes) ≤
      ((s.verdicts.map Record.remote).map FileEntry.relativePath : List Bytes) := by
    rw [List.map_map]
    exact (List.filter_sublist.map Record.path).subperm
  have hparts : ∀ a q w v l : Multiset Bytes, w + v + q ≤ a + q + w + v + l := by
    intro a q w v l
    refine Multiset.le_iff_exists_add.2 ⟨a + l, ?_⟩
    abel
  have hrouted := congrArg (Multiset.map FileEntry.relativePath) h.routed
  simp only [Multiset.map_add, Multiset.map_coe] at hrouted
  rw [hrouted, h.requested, h.keys_eq]
  refine (add_le_add (add_le_add le_rfl hfiltered) le_rfl).trans ?_
  exact hparts _ _ _ _ _

theorem Inv.requested_nodup (h : Inv o s items) : (s.requested : Multiset Bytes).Nodup :=
  Multiset.nodup_of_le ((Multiset.le_add_right _ _).trans h.requested_le) h.paths_nodup

/-- The path at the front of `hashQueue` has no request. -/
theorem Inv.fresh (h : Inv o s items) {need : HashNeed} {rest : List HashNeed} (hq : s.hashQueue = need :: rest) :
    need.remote.relativePath ∉ s.requested := by
  have hnodup := Multiset.nodup_of_le h.requested_le h.paths_nodup
  have hdisjoint := (Multiset.nodup_add.1 hnodup).2.2
  intro hmem
  refine Multiset.disjoint_left.1 hdisjoint (Multiset.mem_coe.2 hmem) ?_
  rw [hq]
  exact Multiset.mem_coe.2 List.mem_cons_self

/-- What waits has been requested. -/
theorem Inv.mem_requested (h : Inv o s items) {rel : Bytes} {n : HashNeed} (hl : s.awaiting.lookup rel = some n) :
    rel ∈ s.requested := by
  have hmem : rel ∈ (s.requested : Multiset Bytes) := by
    rw [h.requested, Table.total_erase hl]
    exact Multiset.mem_add.2 (.inl (Multiset.mem_add.2 (.inl (Multiset.mem_singleton_self rel))))
  exact Multiset.mem_coe.1 hmem

/-- An answered request is not open. -/
theorem Inv.answered_closed (h : Inv o s items) {rel : Bytes} {hash : Hash} (ha : (rel, hash) ∈ s.answers) :
    rel ∉ s.unanswered := by
  have hnodup := h.requested_nodup
  rw [h.asked] at hnodup
  have hdisjoint := (Multiset.nodup_add.1 hnodup).2.2
  intro hmem
  exact Multiset.disjoint_left.1 hdisjoint (Multiset.mem_coe.2 hmem) (Multiset.mem_coe.2 (List.mem_map_of_mem ha))

/-! ### What the functions keep -/

theorem nodup_snoc {l : List FileEntry} {e : FileEntry} (h : (l.map FileEntry.relativePath).Nodup)
    (hnew : e.relativePath ∉ l.map FileEntry.relativePath) : ((l ++ [e]).map FileEntry.relativePath).Nodup := by
  rw [List.map_append, List.map_singleton]
  exact List.nodup_append.2 ⟨h, List.nodup_singleton _, fun a ha b hb heq =>
    hnew (List.mem_singleton.1 hb ▸ heq ▸ ha)⟩

theorem Inv.setPipe (h : Inv o s items) {p : ComparePipeline.State} (hp : p.Inv o.compareCfg) (hseen : Unseen s.pipe p)
    (pc : Pc) : Inv o { s with pipe := p, pc := pc } items := by
  have hout : ∀ i ∈ s.pipe.out, i ∈ p.out := fun i hi => hseen.out ▸ hi
  refine ⟨hp, h.nodup, ?_, fun i hi => hout i (h.inHand i hi), ?_, fun n hn => (h.queued n hn).mono hout,
    fun rel n hn => ⟨(h.keyed rel n hn).1, (h.keyed rel n hn).2.mono hout⟩,
    h.right_mono hout (fun _ hx => hx) fun _ hx => hx, h.requested, h.asked, h.inFlight, h.unanswered, h.stashed,
    h.results, h.tasks, h.pool, h.enumerated, h.counts⟩
  · show (s.manifest : Multiset FileEntry) = (s.delayedCompareEntries : Multiset FileEntry) +
      (p.enqueued.map ComparePipeline.Task.remote : List FileEntry)
    rw [hseen.enqueued]
    exact h.files
  · show ((p.out.map ComparedItem.remote : List FileEntry) : Multiset FileEntry) = _
    rw [hseen.out]
    exact h.routed

/-- An entry goes into the pipeline, from `delayed` or as one more of the manifest. -/
theorem Inv.enqueue (h : Inv o s items) {remote : FileEntry} {manifest delayed : List FileEntry} {enumerated : ℕ}
    (hnodup : (manifest.map FileEntry.relativePath).Nodup)
    (hfiles : (manifest : Multiset FileEntry) + s.delayedCompareEntries = (s.manifest : Multiset FileEntry) + delayed + {remote})
    (henumerated : enumerated = manifest.length) :
    Inv o { s with
      counters := { s.counters with enumerated := enumerated }
      manifest := manifest
      pipe := s.pipe.enqueue remote
      delayedCompareEntries := delayed } items := by
  have hp : (s.pipe.enqueue remote).Inv o.compareCfg := ComparePipeline.inv_step h.pipe (e := .enqueue remote) rfl
  refine ⟨hp, hnodup, ?_, h.inHand, h.routed, h.queued, h.keyed,
    h.right_mono (fun _ hx => hx) (fun _ hx => hx) fun _ hx => hx, h.requested, h.asked, h.inFlight, h.unanswered,
    h.stashed, h.results, h.tasks, h.pool, henumerated, fun c => ?_⟩
  · show (manifest : Multiset FileEntry) = (delayed : Multiset FileEntry) +
      ((s.pipe.enqueued ++ [(⟨s.pipe.enqueued.length, remote⟩ : ComparePipeline.Task)]).map ComparePipeline.Task.remote : List FileEntry)
    rw [List.map_append, ← Multiset.coe_add, List.map_singleton, Multiset.coe_singleton]
    refine add_right_cancel (b := (s.delayedCompareEntries : Multiset FileEntry)) (hfiles.trans ?_)
    rw [h.files]
    abel
  · rw [← h.counts c]
    cases c <;> rfl

theorem Inv.delay (h : Inv o s items) {remote : FileEntry} (hnew : remote.relativePath ∉ s.manifest.map FileEntry.relativePath) :
    Inv o { s with
      counters := { s.counters with enumerated := s.counters.enumerated + 1 }
      manifest := s.manifest ++ [remote]
      delayedCompareEntries := s.delayedCompareEntries ++ [remote] } items := by
  refine ⟨h.pipe, ?_, ?_, h.inHand, h.routed, h.queued, h.keyed,
    h.right_mono (fun _ hx => hx) (fun _ hx => hx) fun _ hx => hx, h.requested, h.asked, h.inFlight, h.unanswered,
    h.stashed, h.results, h.tasks, h.pool, ?_, fun c => ?_⟩
  · exact nodup_snoc h.nodup hnew
  · show ((s.manifest ++ [remote] : List FileEntry) : Multiset FileEntry) =
      ((s.delayedCompareEntries ++ [remote] : List FileEntry) : Multiset FileEntry) + _
    rw [← Multiset.coe_add, ← Multiset.coe_add, h.files]
    abel
  · show s.counters.enumerated + 1 = (s.manifest ++ [remote]).length
    rw [List.length_append, h.enumerated, List.length_singleton]
  · rw [← h.counts c]
    cases c <;> rfl

theorem Inv.manifestEntry (h : Inv o s items) {remote : FileEntry}
    (hnew : remote.isDirectory = false → remote.relativePath ∉ s.manifest.map FileEntry.relativePath) :
    Inv o (s.manifestEntry o remote) items := by
  unfold State.manifestEntry
  split
  · exact h
  · rename_i hfile
    have hfresh := hnew (by simpa using hfile)
    dsimp only
    split
    · exact h.delay hfresh
    · refine h.enqueue (nodup_snoc h.nodup hfresh) ?_ ?_
      · rw [← Multiset.coe_add, Multiset.coe_singleton]
        abel
      · rw [List.length_append, h.enumerated, List.length_singleton]

theorem Inv.refill (h : Inv o s items) : Inv o (s.refill o) items := by
  unfold State.refill
  split
  · rename_i remote delayed hdelayed
    split
    · have hnodup : (s.manifest.map FileEntry.relativePath).Nodup := h.nodup
      refine h.enqueue hnodup ?_ h.enumerated
      rw [hdelayed, ← Multiset.cons_coe, ← Multiset.singleton_add]
      abel
    · exact h.control .flush _ _ _ _ _ _ _ _ _ _
  · exact h.control .flush _ _ _ _ _ _ _ _ _ _

/-! ### Records -/

theorem verdicts_record {r : Record} (hr : r.category ≠ .extra) : (s.record o r).verdicts = s.verdicts ++ [r] := by
  show (s.recorded ++ [r]).filter (fun r => decide (r.category ≠ .extra)) = _
  rw [List.filter_append, List.filter_cons_of_pos (by exact decide_eq_true hr)]
  rfl

theorem verdicts_record_extra {r : Record} (hr : r.category = .extra) : (s.record o r).verdicts = s.verdicts := by
  show (s.recorded ++ [r]).filter (fun r => decide (r.category ≠ .extra)) = _
  rw [List.filter_append, List.filter_cons_of_neg (by simp [hr])]
  exact List.append_nil _

theorem counts_record (h : ∀ c, s.counters.of c = s.recorded.countP fun r => decide (r.category = c)) (r : Record) :
    ∀ c, (s.record o r).counters.of c = (s.record o r).recorded.countP fun r => decide (r.category = c) := by
  intro c
  show (State.count s.counters r.category).of c = (s.recorded ++ [r]).countP fun r => decide (r.category = c)
  rw [List.countP_append, ← h c, List.countP_singleton]
  cases r.category <;> cases c <;> rfl

theorem enumerated_record (r : Record) : (s.record o r).counters.enumerated = s.counters.enumerated := by
  show (State.count s.counters r.category).enumerated = _
  cases r.category <;> rfl

theorem decideCompare_ne_extra (mode : CompareMode) (localFile : Option FileEntry) (remote : FileEntry) :
    (decideCompare mode localFile remote).category ≠ .extra := by
  unfold decideCompare
  split
  · nofun
  · split
    · nofun
    · split
      · nofun
      · nofun
      · split <;> nofun

theorem classifyByHash_ne_extra (localHash serverHash : Hash) : classifyByHash true localHash serverHash ≠ .extra := by
  unfold classifyByHash
  split <;> nofun

theorem right_record {r : Record} {i : ComparedItem} (h : Inv o s items) (hr : r.category ≠ .extra)
    (hlocal : ∀ x ∈ s.localHashes, x ∈ s'.localHashes) (hserver : ∀ x ∈ s.answers, x ∈ s'.answers)
    (hpipe : s'.pipe = s.pipe) (hi : i ∈ s.pipe.out) (hremote : i.remote = r.remote) (hfile : i.localFile = r.localFile)
    (hright : Right s' i r) :
    ∀ q ∈ (s.record o r).verdicts, ∃ i ∈ s'.pipe.out, i.remote = q.remote ∧ i.localFile = q.localFile ∧ Right s' i q := by
  rw [verdicts_record hr]
  intro q hq
  rcases List.mem_append.1 hq with hq | hq
  · exact h.right_mono (fun _ hx => hpipe ▸ hx) hlocal hserver q hq
  · rw [List.mem_singleton.1 hq, hpipe]
    exact ⟨i, hi, hremote, hfile, hright⟩

/-! ### The results of the pipeline -/

/-- A result with its verdict is recorded, the others wait for a request. -/
theorem Inv.route {item : ComparedItem} (h : Inv o s (item :: items)) : Inv o (s.route o item) items := by
  have hitem : item ∈ s.pipe.out := h.inHand item List.mem_cons_self
  have hrest : ∀ i ∈ items, i ∈ s.pipe.out := fun i hi => h.inHand i (List.mem_cons_of_mem _ hi)
  have hdecided := (h.pipe.accounts.decided item (ComparePipeline.mem_compared_of_out hitem)).1
  have hrouted := h.routed
  rw [List.map_cons, ← Multiset.cons_coe, ← Multiset.singleton_add] at hrouted
  unfold State.route
  split
  · rename_i hneed
    refine ⟨h.pipe, h.nodup, h.files, hrest, ?_, ?_, h.keyed, h.right_mono (fun _ hx => hx) (fun _ hx => hx) fun _ hx => hx,
      h.requested, h.asked, h.inFlight, h.unanswered, h.stashed, h.results, h.tasks, h.pool, h.enumerated, h.counts⟩
    · show _ = ((items.map ComparedItem.remote : List FileEntry) : Multiset FileEntry) +
        ((s.hashQueue ++ [(⟨item.remote, item.localFile⟩ : HashNeed)]).map HashNeed.remote : List FileEntry) +
        Table.total (fun _ n => {n.remote}) s.awaiting + (s.verdicts.map Record.remote : List FileEntry) +
        (s.lost.map HashNeed.remote : List FileEntry)
      rw [hrouted, List.map_append, ← Multiset.coe_add, List.map_singleton, Multiset.coe_singleton]
      abel
    · intro n hn
      rcases List.mem_append.1 hn with hn | hn
      · exact h.queued n hn
      · rw [List.mem_singleton.1 hn]
        exact ⟨item, hitem, hneed, rfl, rfl⟩
  · rename_i hneed
    have hcategory : item.outcome.category ≠ .extra := by
      rw [hdecided]
      exact decideCompare_ne_extra _ _ _
    have hverdicts := verdicts_record (o := o) (s := s) (r := ⟨item.outcome.category, item.remote, item.localFile, false⟩) hcategory
    refine ⟨h.pipe, h.nodup, h.files, hrest, ?_, h.queued, h.keyed,
      right_record h hcategory (fun _ hx => hx) (fun _ hx => hx) rfl hitem rfl rfl
        (.decided (by simpa using hneed) rfl rfl), ?_, h.asked, h.inFlight, h.unanswered, h.stashed, h.results,
      h.tasks, h.pool, ?_, counts_record h.counts _⟩
    · rw [hverdicts, List.map_append, ← Multiset.coe_add, List.map_singleton, Multiset.coe_singleton]
      refine hrouted.trans ?_
      show _ = ((items.map ComparedItem.remote : List FileEntry) : Multiset FileEntry) + (s.hashQueue.map HashNeed.remote : List FileEntry) +
        Table.total (fun _ n => {n.remote}) s.awaiting + (_ + {item.remote}) + (s.lost.map HashNeed.remote : List FileEntry)
      abel
    · rw [hverdicts, List.filter_append, List.filter_cons_of_neg (by nofun), List.filter_nil, List.append_nil]
      exact h.requested
    · rw [enumerated_record]
      exact h.enumerated

theorem Inv.routeAll (h : Inv o s items) : Inv o (items.foldl (State.route o) s) [] := by
  induction items generalizing s with
  | nil => exact h
  | cons item items ih => exact ih h.route

theorem hashFirst_perm (items : List ComparedItem) : (State.hashFirst items).Perm items := by
  unfold State.hashFirst
  refine ((List.perm_insertionSort _ _).append_right _).trans ?_
  exact List.filter_append_perm (fun i => i.outcome.needHash) items

theorem Inv.drainCompare (h : Inv o s []) : Inv o (s.drainCompare o) [] := by
  have hp : s.pipe.drain.Inv o.compareCfg := ComparePipeline.inv_step h.pipe (e := .drain) rfl
  have hout : ∀ i ∈ s.pipe.out, i ∈ s.pipe.drain.out := fun i hi => List.mem_append_left _ hi
  have hdrained : Inv o { s with pipe := s.pipe.drain } (State.hashFirst s.pipe.results) := by
    refine ⟨hp, h.nodup, h.files, ?_, ?_, fun n hn => (h.queued n hn).mono hout,
      fun rel n hn => ⟨(h.keyed rel n hn).1, (h.keyed rel n hn).2.mono hout⟩,
      h.right_mono hout (fun _ hx => hx) fun _ hx => hx, h.requested, h.asked, h.inFlight, h.unanswered, h.stashed,
      h.results, h.tasks, h.pool, h.enumerated, h.counts⟩
    · intro i hi
      exact List.mem_append_right _ ((hashFirst_perm _).mem_iff.1 hi)
    · have hperm : (((State.hashFirst s.pipe.results).map ComparedItem.remote : List FileEntry) : Multiset FileEntry) =
          (s.pipe.results.map ComparedItem.remote : List FileEntry) :=
        Multiset.coe_eq_coe.2 ((hashFirst_perm _).map _)
      have hrouted := h.routed
      rw [List.map_nil, Multiset.coe_nil, zero_add] at hrouted
      show (((s.pipe.out ++ s.pipe.results).map ComparedItem.remote : List FileEntry) : Multiset FileEntry) = _
      rw [List.map_append, ← Multiset.coe_add, hrouted, hperm]
      show _ = ((s.pipe.results.map ComparedItem.remote : List FileEntry) : Multiset FileEntry) +
        (s.hashQueue.map HashNeed.remote : List FileEntry) +
        Table.total (fun _ n => {n.remote}) s.awaiting + (s.verdicts.map Record.remote : List FileEntry) +
        (s.lost.map HashNeed.remote : List FileEntry)
      abel
  exact hdrained.routeAll.control _ _ _ _ _ _ _ _ _ _ _

/-! ### Requests -/

/-- The request for the front of `hashQueue`. -/
theorem Inv.send (h : Inv o s items) {need : HashNeed} {rest : List HashNeed} (hq : s.hashQueue = need :: rest) :
    Inv o { s.sendHashRequest need with hashQueue := rest } items := by
  have hfresh := h.fresh hq
  have hnone : s.awaiting.lookup need.remote.relativePath = none := by
    cases hl : s.awaiting.lookup need.remote.relativePath with
    | none => rfl
    | some n => exact absurd (h.mem_requested hl) hfresh
  have hneeds : Needs s.pipe.out need := h.queued need (hq ▸ List.mem_cons_self)
  have hawaiting : (s.sendHashRequest need).awaiting = s.awaiting.insert need.remote.relativePath need := by
    show (if (s.awaiting.lookup need.remote.relativePath).isSome then _ else _) = _
    rw [hnone]
    rfl
  refine ⟨h.pipe, h.nodup, h.files, h.inHand, ?_, fun n hn => h.queued n (hq ▸ List.mem_cons_of_mem _ hn), ?_,
    h.right_mono (fun _ hx => hx) (fun _ hx => hx) fun _ hx => hx, ?_, ?_, ?_, ?_, h.stashed, h.results, ?_, h.pool,
    h.enumerated, h.counts⟩
  · -- the file moves from the queue to the table
    refine h.routed.trans ?_
    show _ = ((items.map ComparedItem.remote : List FileEntry) : Multiset FileEntry) +
      (rest.map HashNeed.remote : List FileEntry) +
      Table.total (fun _ n => {n.remote}) (s.sendHashRequest need).awaiting +
      (s.verdicts.map Record.remote : List FileEntry) + (s.lost.map HashNeed.remote : List FileEntry)
    rw [hawaiting, Table.total_insert_new hnone, hq, List.map_cons, ← Multiset.cons_coe,
      ← Multiset.singleton_add]
    abel
  · -- the new entry is under its own path
    intro rel n hl
    have hl' : (s.awaiting.insert need.remote.relativePath need).lookup rel = some n := hawaiting ▸ hl
    by_cases hrel : rel = need.remote.relativePath
    · rw [hrel, AList.lookup_insert] at hl'
      cases hl'
      exact ⟨hrel.symm, hneeds⟩
    · rw [AList.lookup_insert_ne hrel] at hl'
      exact h.keyed rel n hl'
  · show ((s.requested ++ [need.remote.relativePath] : List Bytes) : Multiset Bytes) =
      Table.total (fun rel _ => {rel}) (s.sendHashRequest need).awaiting +
      ((s.verdicts.filter Record.hashCompared).map Record.path : List Bytes)
    rw [hawaiting, Table.total_insert_new hnone, ← Multiset.coe_add, h.requested, Multiset.coe_singleton]
    abel
  · show ((s.requested ++ [_] : List Bytes) : Multiset Bytes) = ((s.unanswered ++ [_] : List Bytes) : Multiset Bytes) +
      (s.answers.map Prod.fst : List Bytes)
    rw [← Multiset.coe_add, ← Multiset.coe_add, h.asked]
    abel
  · show s.inFlight + 1 = (s.unanswered ++ [_]).length
    rw [List.length_append, h.inFlight, List.length_singleton]
  · -- what has no answer yet is in the table, the new request too
    intro rel hrel
    rcases List.mem_append.1 hrel with hrel | hrel
    · obtain ⟨n, hn⟩ := h.unanswered rel hrel
      refine ⟨n, ?_⟩
      show (s.sendHashRequest need).awaiting.lookup rel = some n
      have hne : rel ≠ need.remote.relativePath := by
        rintro rfl
        rw [hnone] at hn
        cases hn
      rw [hawaiting, AList.lookup_insert_ne hne]
      exact hn
    · refine ⟨need, ?_⟩
      show (s.sendHashRequest need).awaiting.lookup rel = some need
      rw [hawaiting, List.mem_singleton.1 hrel, AList.lookup_insert]
  · show ((s.requested ++ [need.remote.relativePath] : List Bytes) : Multiset Bytes) =
      ((s.hashTaskQueue ++ [(⟨need.remote.relativePath, need.localFile.map FileEntry.fileSize⟩ : HashTask)]).map
        HashTask.rel : List Bytes) +
      total o.maxWorkers (fun w => (s.hashWorker w).held) + (s.localHashes.map Prod.fst : List Bytes)
    rw [← Multiset.coe_add, h.tasks, List.map_append, ← Multiset.coe_add, List.map_singleton, Multiset.coe_singleton]
    abel

theorem Inv.pump (h : Inv o s items) (room : Bool) (next : Pc) : Inv o (s.pump room next) items := by
  unfold State.pump
  split
  · rename_i need rest hq
    split
    · exact h.send hq
    · exact h.control _ _ _ _ _ _ _ _ _ _ _
  · exact h.control _ _ _ _ _ _ _ _ _ _ _

/-- The request that cannot be sent takes its file with it. -/
theorem Inv.sendFails (h : Inv o s items) {need : HashNeed} {rest : List HashNeed} (hq : s.hashQueue = need :: rest) :
    Inv o { s with hashQueue := rest, lost := need :: s.lost, disconnected := true, pc := .stop } items := by
  refine ⟨h.pipe, h.nodup, h.files, h.inHand, ?_, fun n hn => h.queued n (hq ▸ List.mem_cons_of_mem _ hn), h.keyed,
    h.right_mono (fun _ hx => hx) (fun _ hx => hx) fun _ hx => hx, h.requested, h.asked, h.inFlight, h.unanswered,
    h.stashed, h.results, h.tasks, h.pool, h.enumerated, h.counts⟩
  refine h.routed.trans ?_
  show _ = ((items.map ComparedItem.remote : List FileEntry) : Multiset FileEntry) +
    (rest.map HashNeed.remote : List FileEntry) + Table.total (fun _ n => {n.remote}) s.awaiting +
    (s.verdicts.map Record.remote : List FileEntry) + ((need :: s.lost).map HashNeed.remote : List FileEntry)
  rw [hq, List.map_cons, List.map_cons, ← Multiset.cons_coe, ← Multiset.cons_coe, ← Multiset.singleton_add,
    ← Multiset.singleton_add]
  abel

/-! ### Responses -/

/-- The first half of `handleHashResponse`. -/
theorem Inv.answer (h : Inv o s items) {rel : Bytes} (hopen : rel ∈ s.unanswered) (hash : Hash) (window : ℕ) :
    Inv o { s with
      inFlight := s.inFlight - 1
      hashWindow := window
      unanswered := s.unanswered.erase rel
      answers := s.answers ++ [(rel, hash)] } items := by
  have hserver : ∀ x ∈ s.answers, x ∈ s.answers ++ [(rel, hash)] := fun x hx => List.mem_append_left _ hx
  refine ⟨h.pipe, h.nodup, h.files, h.inHand, h.routed, h.queued, h.keyed,
    h.right_mono (fun _ hx => hx) (fun _ hx => hx) hserver, h.requested, ?_, ?_, ?_, ?_, h.results, h.tasks, h.pool,
    h.enumerated, h.counts⟩
  · show (s.requested : Multiset Bytes) = ((s.unanswered.erase rel : List Bytes) : Multiset Bytes) +
      ((s.answers ++ [(rel, hash)]).map Prod.fst : List Bytes)
    have hcons : (s.unanswered : Multiset Bytes) = {rel} + ((s.unanswered.erase rel : List Bytes) : Multiset Bytes) := by
      rw [Multiset.singleton_add, Multiset.cons_coe]
      exact Multiset.coe_eq_coe.2 (List.perm_cons_erase hopen)
    rw [h.asked, hcons, List.map_append, ← Multiset.coe_add, List.map_singleton, Multiset.coe_singleton]
    abel
  · show s.inFlight - 1 = (s.unanswered.erase rel).length
    rw [List.length_erase_of_mem hopen, h.inFlight]
  · intro r hr
    exact h.unanswered r (List.mem_of_mem_erase hr)
  · intro r x hx
    exact hserver _ (h.stashed r x hx)

theorem Inv.stash (h : Inv o s items) {rel : Bytes} {hash : Hash} (ha : (rel, hash) ∈ s.answers) :
    Inv o { s with serverHashReady := s.serverHashReady.insert rel hash } items := by
  refine ⟨h.pipe, h.nodup, h.files, h.inHand, h.routed, h.queued, h.keyed,
    h.right_mono (fun _ hx => hx) (fun _ hx => hx) fun _ hx => hx, h.requested, h.asked, h.inFlight, h.unanswered,
    fun r x hx => ?_, h.results, h.tasks, h.pool, h.enumerated, h.counts⟩
  by_cases hr : r = rel
  · rw [hr, AList.lookup_insert] at hx
    cases hx
    exact hr ▸ ha
  · rw [AList.lookup_insert_ne hr] at hx
    exact h.stashed r x hx

/-- The two hashes of a file meet. -/
theorem Inv.finalizePaired (h : Inv o s items) {rel : Bytes} {need : HashNeed} {lr : LocalResult} {serverHash : Hash}
    (hl : s.awaiting.lookup rel = some need) (hlocal : (rel, lr) ∈ s.localHashes)
    (hserver : (rel, serverHash) ∈ s.answers) : Inv o (s.finalizePaired o rel need lr serverHash) items := by
  obtain ⟨hrel, i, hi, hneed, hremote, hfile⟩ := h.keyed rel need hl
  cases lr with
  | failed => exact h.control _ _ _ _ _ _ _ _ _ _ _
  | hashed hash =>
    have hcategory := classifyByHash_ne_extra hash serverHash
    have hverdicts := verdicts_record (o := o) (s := s)
      (r := ⟨classifyByHash true hash serverHash, need.remote, need.localFile, true⟩) hcategory
    refine ⟨h.pipe, h.nodup, h.files, h.inHand, ?_, h.queued, ?_, ?_, ?_, h.asked, h.inFlight, ?_, ?_, h.results, h.tasks,
      h.pool, ?_, counts_record (o := o) h.counts _⟩
    · -- the file leaves the table for its verdict
      refine h.routed.trans ?_
      show _ = ((items.map ComparedItem.remote : List FileEntry) : Multiset FileEntry) +
        (s.hashQueue.map HashNeed.remote : List FileEntry) +
        Table.total (fun _ n => {n.remote}) (s.awaiting.erase rel) +
        ((s.record o ⟨classifyByHash true hash serverHash, need.remote, need.localFile, true⟩).verdicts.map Record.remote : List FileEntry) +
        (s.lost.map HashNeed.remote : List FileEntry)
      rw [hverdicts, Table.total_erase hl, List.map_append, ← Multiset.coe_add, List.map_singleton,
        Multiset.coe_singleton]
      abel
    · intro r n hn
      exact h.keyed r n (Table.lookup_of_erase hn)
    · exact right_record h hcategory (fun _ hx => hx) (fun _ hx => hx) rfl hi hremote hfile
        (.hashed hneed rfl (hrel ▸ hlocal) (hrel ▸ hserver) rfl)
    · show (s.requested : Multiset Bytes) = Table.total (fun rel _ => {rel}) (s.awaiting.erase rel) +
        (((s.record o ⟨classifyByHash true hash serverHash, need.remote, need.localFile, true⟩).verdicts.filter Record.hashCompared).map Record.path : List Bytes)
      rw [hverdicts, h.requested, Table.total_erase hl, List.filter_append, List.filter_cons_of_pos rfl, List.map_append,
        ← Multiset.coe_add, List.filter_nil, List.map_singleton, Multiset.coe_singleton]
      show _ = _ + (_ + {need.remote.relativePath})
      rw [hrel]
      abel
    · -- the answer is there, so another path's entry was looked for
      intro r hr
      have hne : r ≠ rel := by
        rintro rfl
        exact h.answered_closed hserver hr
      obtain ⟨n, hn⟩ := h.unanswered r hr
      exact ⟨n, (AList.lookup_erase_ne hne).trans hn⟩
    · intro r x hx
      exact h.stashed r x (Table.lookup_of_erase hx)
    · show (s.record o _).counters.enumerated = _
      rw [enumerated_record]
      exact h.enumerated

theorem Inv.drainReady (h : Inv o s items) (last : Bool) (done : List Bytes) :
    Inv o (s.drainReady o last done) items := by
  unfold State.drainReady
  split
  · exact h.control _ _ _ _ _ _ _ _ _ _ _
  · split
    · rename_i hl hs hr
      have hfinal := h.finalizePaired hl (h.results _ _ hr) (h.stashed _ _ hs)
      exact hfinal.control _ _ _ _ _ _ _ _ _ _ _
    · exact h.control _ _ _ _ _ _ _ _ _ _ _

theorem Inv.handleHashResponse (h : Inv o s items) {rel : Bytes} (hopen : rel ∈ s.unanswered) (hash : Hash)
    (window batched : ℕ) : Inv o (s.handleHashResponse o rel hash window batched) items := by
  have hanswered := h.answer hopen hash window
  have hmem : (rel, hash) ∈ s.answers ++ [(rel, hash)] := List.mem_append_right _ List.mem_cons_self
  obtain ⟨need, hl⟩ := h.unanswered rel hopen
  unfold State.handleHashResponse
  dsimp only
  rw [hl]
  dsimp only
  split
  · rename_i lr hr
    have hfinal := hanswered.finalizePaired hl (h.results _ _ hr) hmem
    exact hfinal.control _ _ _ _ _ _ _ _ _ _ _
  · exact (hanswered.stash hmem).control _ _ _ _ _ _ _ _ _ _ _

theorem Inv.frame (h : Inv o s items) {f : Frame} {window : ℕ} (hok : Conforms s (.frame f window)) (batched : ℕ) :
    Inv o (s.frame o f window batched) items := by
  cases f with
  | manifestEntry remote => exact (h.manifestEntry hok.1).control _ _ _ _ _ _ _ _ _ _ _
  | manifestProgress => exact h.control _ _ _ _ _ _ _ _ _ _ _
  | manifestEnd => exact h.control _ _ _ _ _ _ _ _ _ _ _
  | hashResponse rel hash => exact h.handleHashResponse hok.2 hash window batched
  | unexpected => exact h.control _ _ _ _ _ _ _ _ _ _ _

/-! ### The hash pool -/

theorem pool_update (h : Inv o s items) {w : ℕ} {x : HashWorker} (hin : w < o.maxWorkers) :
    ∀ v, Function.update s.hashWorker w x v = .waiting ∨ v < o.maxWorkers := by
  intro v
  by_cases hv : v = w
  · exact .inr (hv ▸ hin)
  · rw [Function.update_of_ne hv]
    exact h.pool v

theorem Inv.hashTake (h : Inv o s items) {w : ℕ} {task : HashTask} {tasks : List HashTask} (hin : w < o.maxWorkers)
    (hw : s.hashWorker w = .waiting) (hq : s.hashTaskQueue = task :: tasks) :
    Inv o { s.setWorker w (.hashing task) with hashTaskQueue := tasks } items := by
  have hheld := total_grow (g := HashWorker.held) (f := s.hashWorker) hin (x := .hashing task) (c := {task.rel})
    (by rw [hw]; exact (zero_add _).symm)
  refine ⟨h.pipe, h.nodup, h.files, h.inHand, h.routed, h.queued, h.keyed,
    h.right_mono (fun _ hx => hx) (fun _ hx => hx) fun _ hx => hx, h.requested, h.asked, h.inFlight, h.unanswered,
    h.stashed, h.results, ?_, pool_update h hin, h.enumerated, h.counts⟩
  show (s.requested : Multiset Bytes) = (tasks.map HashTask.rel : List Bytes) +
    total o.maxWorkers (fun v => (Function.update s.hashWorker w (.hashing task) v).held) + _
  rw [hheld, h.tasks, hq, List.map_cons, ← Multiset.cons_coe, ← Multiset.singleton_add]
  abel

theorem Inv.hashStore (h : Inv o s items) {w : ℕ} {task : HashTask} (hin : w < o.maxWorkers)
    (hw : s.hashWorker w = .hashing task) (r : LocalResult) :
    Inv o { s.setWorker w (.stored task.rel) with
      localResults := s.localResults.insert task.rel r
      localHashes := s.localHashes ++ [(task.rel, r)] } items := by
  have hheld := total_shrink (g := HashWorker.held) (f := s.hashWorker) hin (x := .stored task.rel) (c := {task.rel})
    (by rw [hw]; exact (zero_add _).symm)
  have hlocal : ∀ x ∈ s.localHashes, x ∈ s.localHashes ++ [(task.rel, r)] := fun x hx => List.mem_append_left _ hx
  refine ⟨h.pipe, h.nodup, h.files, h.inHand, h.routed, h.queued, h.keyed,
    h.right_mono (fun _ hx => hx) hlocal fun _ hx => hx, h.requested, h.asked, h.inFlight, h.unanswered,
    h.stashed, ?_, ?_, pool_update h hin, h.enumerated, h.counts⟩
  · intro rel x hx
    by_cases hrel : rel = task.rel
    · rw [hrel, AList.lookup_insert] at hx
      cases hx
      rw [hrel]
      exact List.mem_append_right _ List.mem_cons_self
    · rw [AList.lookup_insert_ne hrel] at hx
      exact hlocal _ (h.results rel x hx)
  · show (s.requested : Multiset Bytes) = (s.hashTaskQueue.map HashTask.rel : List Bytes) +
      total o.maxWorkers (fun v => (Function.update s.hashWorker w (.stored task.rel) v).held) +
      ((s.localHashes ++ [(task.rel, r)]).map Prod.fst : List Bytes)
    rw [h.tasks, ← hheld, List.map_append, ← Multiset.coe_add, List.map_singleton, Multiset.coe_singleton]
    abel

/-- A thread without a task goes on. -/
theorem Inv.hashMove (h : Inv o s items) {w : ℕ} {x : HashWorker} (hin : w < o.maxWorkers)
    (hheld : x.held = (s.hashWorker w).held) (ready : List Bytes) :
    Inv o { s.setWorker w x with readyQueue := ready } items := by
  have hsum := total_update HashWorker.held s.hashWorker hin x
  rw [hheld] at hsum
  refine ⟨h.pipe, h.nodup, h.files, h.inHand, h.routed, h.queued, h.keyed,
    h.right_mono (fun _ hx => hx) (fun _ hx => hx) fun _ hx => hx, h.requested, h.asked, h.inFlight, h.unanswered,
    h.stashed, h.results, ?_, pool_update h hin, h.enumerated, h.counts⟩
  show (s.requested : Multiset Bytes) = (s.hashTaskQueue.map HashTask.rel : List Bytes) +
    total o.maxWorkers (fun v => (Function.update s.hashWorker w x v).held) + _
  rw [add_right_cancel hsum]
  exact h.tasks

/-! ### The end -/

theorem Inv.recordExtras (h : Inv o s items) (extras : List (Bytes × Option FileEntry)) :
    Inv o ((extras.map State.extraRecord).foldl (State.record o) s) items := by
  induction extras generalizing s with
  | nil => exact h
  | cons e extras ih =>
    have hverdicts := verdicts_record_extra (o := o) (s := s) (r := State.extraRecord e) rfl
    refine ih (s := s.record o (State.extraRecord e)) ⟨h.pipe, h.nodup, h.files, h.inHand, ?_, h.queued, h.keyed, ?_, ?_, h.asked, h.inFlight, h.unanswered,
      h.stashed, h.results, h.tasks, h.pool, ?_, counts_record h.counts _⟩
    · rw [hverdicts]
      exact h.routed
    · rw [hverdicts]
      exact h.right_mono (fun _ hx => hx) (fun _ hx => hx) fun _ hx => hx
    · rw [hverdicts]
      exact h.requested
    · rw [enumerated_record]
      exact h.enumerated

theorem Inv.outcome (h : Inv o s items) (extras : List (Bytes × Option FileEntry)) :
    Inv o (s.outcome o extras) items := by
  unfold State.outcome
  dsimp only
  split
  · exact h.control _ _ _ _ _ _ _ _ _ _ _
  · split
    · exact h.control _ _ _ _ _ _ _ _ _ _ _
    · split
      · exact h.control _ _ _ _ _ _ _ _ _ _ _
      · exact ((h.control .finished _ _ _ _ _ _ _ _ _ _).recordExtras extras).control _ _ _ _ _ _ _ _ _ _ _

/-! ### What a step can do -/

inductive Effect (o : CheckOptions) (s : State) : Event → State → Prop where
  | loop (interrupted : Bool) (hpc : s.pc = .loop) : Effect o s (.loop interrupted) (s.loop interrupted)
  | drainCompare (hpc : s.pc = .drainCompare) : Effect o s .drainCompare (s.drainCompare o)
  | swapReady {last : Bool} (hpc : s.pc = .swapReady last) :
      Effect o s .swapReady { s with pc := .drainReady last s.readyQueue, readyQueue := [] }
  | drainReady {last : Bool} {done : List Bytes} (hpc : s.pc = .drainReady last done) :
      Effect o s .drainReady (s.drainReady o last done)
  | refill (hpc : s.pc = .refill) : Effect o s .refill (s.refill o)
  | flush {p : ComparePipeline.State} (hpc : s.pc = .flush) (hp : s.pipe.step o.compareCfg .flush = some p) :
      Effect o s .flush { s with pipe := p, pc := .pump .tune }
  | pump {next : Pc} (room : Bool) (hpc : s.pc = .pump next) : Effect o s (.pump room) (s.pump room next)
  | sendFails {next : Pc} {need : HashNeed} {rest : List HashNeed} (hpc : s.pc = .pump next)
      (hq : s.hashQueue = need :: rest) :
      Effect o s .sendFails { s with hashQueue := rest, lost := need :: s.lost, disconnected := true, pc := .stop }
  | tune (sample : Option (ℕ × ℕ × ℕ)) (hpc : s.pc = .tune) : Effect o s (.tune sample) (s.tune o sample)
  | more {batched : ℕ} (hpc : s.pc = .more batched) : Effect o s .more (s.more o batched)
  | frame {batched : ℕ} (f : Frame) (window : ℕ) (hpc : s.pc = .recv batched) :
      Effect o s (.frame f window) (s.frame o f window batched)
  | recvFails {batched : ℕ} (hpc : s.pc = .recv batched) :
      Effect o s .recvFails { s with disconnected := true, pc := .stop }
  | waited (hpc : s.pc = .wait) : Effect o s .waited { s with pc := .loop }
  | stop (hpc : s.pc = .stop) : Effect o s .stop { s with pipe := { s.pipe with stop := true }, pc := .join }
  | join (hpc : s.pc = .join) : Effect o s .join { s with hashStop := true, pc := .joinWorkers }
  | joinWorkers (hpc : s.pc = .joinWorkers) :
      Effect o s .joinWorkers { s with pc := if s.localReadFailed then .outcome else .swapReady true }
  | outcome (extras : List (Bytes × Option FileEntry)) (hpc : s.pc = .outcome) :
      Effect o s (.outcome extras) (s.outcome o extras)
  | pipe {e : ComparePipeline.Event} {p : ComparePipeline.State} (he : isWorker e = true)
      (hp : s.pipe.step o.compareCfg e = some p) : Effect o s (.pipe e) { s with pipe := p }
  | hashTake {w : ℕ} {task : HashTask} {tasks : List HashTask} (hw : s.hashWorker w = .waiting)
      (hq : s.hashTaskQueue = task :: tasks) (hin : w < o.maxWorkers) :
      Effect o s (.hashTake w) { s.setWorker w (.hashing task) with hashTaskQueue := tasks }
  | hashStore {w : ℕ} {task : HashTask} (hw : s.hashWorker w = .hashing task) (r : LocalResult) :
      Effect o s (.hashStore w r) { s.setWorker w (.stored task.rel) with
        localResults := s.localResults.insert task.rel r
        localHashes := s.localHashes ++ [(task.rel, r)] }
  | hashReady {w : ℕ} {rel : Bytes} (hw : s.hashWorker w = .stored rel) :
      Effect o s (.hashReady w) { s.setWorker w .waiting with readyQueue := s.readyQueue ++ [rel] }
  | hashLeave {w : ℕ} (hw : s.hashWorker w = .waiting) (hin : w < o.maxWorkers) :
      Effect o s (.hashLeave w) (s.setWorker w .gone)

/-- A step with a guard in front. -/
theorem of_guard {α : Type} {c : Prop} [Decidable c] {x y : α} (h : (if c then some x else none) = some y) : c ∧ x = y := by
  split at h
  · rename_i hc
    cases h
    exact ⟨hc, rfl⟩
  · cases h

theorem effect_of_step {e : Event} (hs : s.step o e = some s') : Effect o s e s' := by
  cases e with
  | loop interrupted =>
    obtain ⟨hpc, rfl⟩ := of_guard hs
    exact .loop interrupted hpc
  | drainCompare =>
    obtain ⟨hpc, rfl⟩ := of_guard hs
    exact .drainCompare hpc
  | swapReady =>
    simp only [State.step] at hs
    split at hs
    · rename_i last hpc
      cases hs
      exact .swapReady hpc
    · cases hs
  | drainReady =>
    simp only [State.step] at hs
    split at hs
    · rename_i last done hpc
      cases hs
      exact .drainReady hpc
    · cases hs
  | refill =>
    obtain ⟨hpc, rfl⟩ := of_guard hs
    exact .refill hpc
  | flush =>
    simp only [State.step] at hs
    split at hs
    · rename_i hpc
      obtain ⟨p, hp, rfl⟩ := Option.map_eq_some_iff.1 hs
      exact .flush hpc hp
    · cases hs
  | pump room =>
    simp only [State.step] at hs
    split at hs
    · rename_i next hpc
      cases hs
      exact .pump room hpc
    · cases hs
  | sendFails =>
    simp only [State.step] at hs
    split at hs
    · rename_i next need rest hpc hq
      obtain ⟨-, rfl⟩ := of_guard hs
      exact .sendFails hpc hq
    · cases hs
  | tune sample =>
    obtain ⟨hpc, rfl⟩ := of_guard hs
    exact .tune sample hpc
  | more =>
    simp only [State.step] at hs
    split at hs
    · rename_i batched hpc
      cases hs
      exact .more hpc
    · cases hs
  | frame f window =>
    simp only [State.step] at hs
    split at hs
    · rename_i batched hpc
      cases hs
      exact .frame f window hpc
    · cases hs
  | recvFails =>
    simp only [State.step] at hs
    split at hs
    · rename_i batched hpc
      cases hs
      exact .recvFails hpc
    · cases hs
  | waited =>
    obtain ⟨hpc, rfl⟩ := of_guard hs
    exact .waited hpc
  | stop =>
    obtain ⟨hpc, rfl⟩ := of_guard hs
    exact .stop hpc
  | join =>
    obtain ⟨hpc, rfl⟩ := of_guard hs
    exact .join hpc.1
  | joinWorkers =>
    obtain ⟨hpc, rfl⟩ := of_guard hs
    exact .joinWorkers hpc.1
  | outcome extras =>
    obtain ⟨hpc, rfl⟩ := of_guard hs
    exact .outcome extras hpc
  | pipe e =>
    simp only [State.step] at hs
    split at hs
    · rename_i he
      obtain ⟨p, hp, rfl⟩ := Option.map_eq_some_iff.1 hs
      exact .pipe he hp
    · cases hs
  | hashTake w =>
    simp only [State.step] at hs
    split at hs
    · rename_i task tasks hw hq
      obtain ⟨hin, rfl⟩ := of_guard hs
      exact .hashTake hw hq hin.1
    · cases hs
  | hashStore w r =>
    simp only [State.step] at hs
    split at hs
    · rename_i task hw
      cases hs
      exact .hashStore hw r
    · cases hs
  | hashReady w =>
    simp only [State.step] at hs
    split at hs
    · rename_i rel hw
      cases hs
      exact .hashReady hw
    · cases hs
  | hashLeave w =>
    simp only [State.step] at hs
    split at hs
    · rename_i hw
      obtain ⟨hin, rfl⟩ := of_guard hs
      exact .hashLeave hw hin.1
    · cases hs

theorem inv_step (h : Inv o s []) {e : Event} (hok : Conforms s e) (he : Effect o s e s') : Inv o s' [] := by
  have hpool : ∀ w, s.hashWorker w ≠ .waiting → w < o.maxWorkers := fun w => (h.pool w).resolve_left
  cases he with
  | loop interrupted hpc =>
    unfold State.loop
    split
    · split <;> exact h.control _ _ _ _ _ _ _ _ _ _ _
    · exact h.control _ _ _ _ _ _ _ _ _ _ _
  | drainCompare hpc => exact h.drainCompare
  | swapReady hpc => exact h.control _ _ _ _ _ _ _ _ _ _ _
  | drainReady hpc => exact h.drainReady _ _
  | refill hpc => exact h.refill
  | flush hpc hp => exact h.setPipe (ComparePipeline.inv_step h.pipe hp) (unseen_of_step rfl hp) _
  | pump room hpc => exact h.pump room _
  | sendFails hpc hq => exact h.sendFails hq
  | tune sample hpc => exact h.control _ _ _ _ _ _ _ _ _ _ _
  | more hpc => exact h.control _ _ _ _ _ _ _ _ _ _ _
  | frame f window hpc => exact h.frame hok _
  | recvFails hpc => exact h.control _ _ _ _ _ _ _ _ _ _ _
  | waited hpc => exact h.control _ _ _ _ _ _ _ _ _ _ _
  | stop hpc =>
    have hp : s.pipe.step o.compareCfg .stop = some { s.pipe with stop := true } := rfl
    exact h.setPipe (ComparePipeline.inv_step h.pipe hp) (unseen_of_step rfl hp) _
  | join hpc => exact h.control _ _ _ _ _ _ _ _ _ _ _
  | joinWorkers hpc => exact h.control _ _ _ _ _ _ _ _ _ _ _
  | outcome extras hpc => exact h.outcome extras
  | pipe he hp => exact h.setPipe (ComparePipeline.inv_step h.pipe hp) (unseen_of_step (passive_of_isWorker he) hp) _
  | hashTake hw hq hin => exact h.hashTake hin hw hq
  | hashStore hw r => exact h.hashStore (hpool _ (by rw [hw]; nofun)) hw r
  | hashReady hw => exact h.hashMove (hpool _ (by rw [hw]; nofun)) (by rw [hw]; rfl) _
  | hashLeave hw hin => exact h.hashMove hin (by rw [hw]; rfl) s.readyQueue

theorem inv_start (o : CheckOptions) : Inv o (.start o) [] := by
  have hidle : total o.maxWorkers (fun _ => HashWorker.held .waiting) = 0 := Finset.sum_eq_zero fun _ _ => rfl
  refine ⟨ComparePipeline.inv_init o.compareCfg, List.nodup_nil, rfl, nofun, rfl, nofun, nofun, nofun, rfl, rfl, rfl, nofun,
    nofun, nofun, ?_, fun _ => .inl rfl, rfl, fun c => ?_⟩
  · show (0 : Multiset Bytes) = 0 + total o.maxWorkers (fun _ => HashWorker.held .waiting) + 0
    rw [hidle]
    rfl
  · cases c <;> rfl

end FastClone.CheckEngine
