import FastClone.Proof.DirWalk
import FastClone.Spec.ExtraScan
import Mathlib.Data.List.Sort

/-!
# The walk is exact, and so is the scan for extra files

`parallelDirWalk_exact` states what every run of `ParallelDirWalk` without cancellation does, and what
follows for `ScanExtrasImpl`: where no listing fails it returns the local files that are neither left out
nor in the remote set, sorted.
-/

namespace FastClone.ExtraScan

open FastClone.Delta FastClone.Scan FastClone.DirWalk

/-! ### What a directory contributes -/

/-- The files of a directory that are seen. -/
def filesSeen (d : PendingDir) : List Bytes :=
  ((seen d).filter fun t => !t.isDirectory).map fun t => buildRelPath d.relDir t.attr.name

/-- A directory adds its files that are not in the remote set. -/
theorem extraFiles_processDir (fn : Bytes → Bool) (dirInRemote : RemotePredicate) (collectDirs : Bool) (d : PendingDir)
    (ctx : ScanCtx) : (processDir (some fn) dirInRemote collectDirs d ctx).extraFiles =
      ctx.extraFiles ++ (filesSeen d).filter fun p => !fn p := by
  unfold processDir filesSeen
  induction seen d generalizing ctx with
  | nil => simp
  | cons t ts ih =>
    rw [List.foldl_cons, ih]
    unfold ScanCtx.add
    dsimp only
    cases ht : t.isDirectory with
    | true =>
      have hskip : ((t :: ts).filter fun t => !t.isDirectory) = ts.filter fun t => !t.isDirectory :=
        List.filter_cons_of_neg (by simp [ht])
      rw [hskip]
      cases collectDirs <;> rfl
    | false =>
      have hkeep : ((t :: ts).filter fun t => !t.isDirectory) = t :: ts.filter fun t => !t.isDirectory :=
        List.filter_cons_of_pos (by simp [ht])
      rw [hkeep, List.map_cons, if_neg Bool.false_ne_true, Option.any_some]
      cases hfn : fn (buildRelPath d.relDir t.attr.name) with
      | true =>
        rw [List.filter_cons_of_neg (by simp [hfn])]
        rfl
      | false =>
        rw [List.filter_cons_of_pos (by simp [hfn])]
        simp

/-- A thread collects the extra files of what it has processed. -/
theorem extraFiles_foldl (fn : Bytes → Bool) (dirInRemote : RemotePredicate) (collectDirs : Bool) (ds : List PendingDir)
    (ctx : ScanCtx) : (ds.foldl (fun c d => processDir (some fn) dirInRemote collectDirs d c) ctx).extraFiles =
      ctx.extraFiles ++ (ds.flatMap filesSeen).filter fun p => !fn p := by
  induction ds generalizing ctx with
  | nil => simp
  | cons d ds ih =>
    rw [List.foldl_cons, ih, extraFiles_processDir, List.flatMap_cons, List.filter_append, List.append_assoc]

theorem extraFiles_merge (collectDirs : Bool) (merged : List ScanCtx) (result : ScanCtx) :
    (merged.foldl (ScanCtx.finishWorker collectDirs) result).extraFiles =
      result.extraFiles ++ merged.flatMap ScanCtx.extraFiles := by
  induction merged generalizing result with
  | nil => simp
  | cons ctx merged ih =>
    rw [List.foldl_cons, ih, List.flatMap_cons]
    show result.extraFiles ++ ctx.extraFiles ++ _ = _
    rw [List.append_assoc]

/-! ### What the tree holds -/

/-- An entry that is listed is seen, unless it is left out or neither a directory nor a regular file. -/
theorem passes_of_listedAt {t : Tree} (h : listedAt t = true) : t.passes false =
    (!t.attr.excluded && match t with
      | .leaf _ regular => regular
      | _ => true) := by
  cases t with
  | leaf a regular =>
    have hfails : a.excluded = true ∨ a.statusFails = false := by simpa [listedAt] using h
    unfold Tree.passes Tree.attr
    rcases hfails with he | hf
    · simp [he]
    · simp [hf]
  | link a =>
    have hfails : a.excluded = true ∨ a.statusFails = false := by simpa [listedAt] using h
    unfold Tree.passes Tree.attr
    rcases hfails with he | hf
    · simp [he]
    · simp [hf]
  | dir a opens reads entries =>
    have hfails : a.excluded = true ∨ a.statusFails = false := by
      have hcases : a.excluded = true ∨
          a.statusFails = false ∧ opens = true ∧ entries.length ≤ reads ∧ listedIn entries = true := by
        simpa [listedAt, and_assoc] using h
      rcases hcases with he | ⟨hf, -⟩
      · exact .inl he
      · exact .inr hf
    unfold Tree.passes Tree.attr
    rcases hfails with he | hf
    · simp [he]
    · simp [hf]

/-- A directory that opens and is read to the end shows all that can be examined. -/
theorem seen_of_listed {d : PendingDir} (h : listed d = true) : seen d = d.entries.filter (Tree.passes false) := by
  have hparts : (d.opens = true ∧ d.entries.length ≤ d.reads) ∧ listedIn d.entries = true := by
    simpa [listed] using h
  unfold seen
  rw [if_pos hparts.1.1, List.take_of_length_le hparts.1.2]

/-- The files of a listing, and those under its directories. -/
theorem localFilesIn_perm (relDir : Bytes) (ts : List Tree) (h : listedIn ts = true) :
    (((ts.filter (Tree.passes false)).filter fun t => !t.isDirectory).map (fun t => buildRelPath relDir t.attr.name) ++
      ((ts.filter (Tree.passes false)).filterMap (Tree.pending relDir)).flatMap localFiles).Perm
        (localFilesIn relDir ts) := by
  induction ts with
  | nil => exact .refl _
  | cons t ts ih =>
    obtain ⟨ht, hts⟩ : listedAt t = true ∧ listedIn ts = true := by simpa [listedIn] using h
    have hrest := ih hts
    have hpasses := passes_of_listedAt ht
    rw [localFilesIn]
    cases hp : t.passes false with
    | false =>
      rw [List.filter_cons_of_neg (by simp [hp])]
      have hnone : localFilesAt relDir t = [] := by
        rw [hp] at hpasses
        cases t with
        | leaf a regular =>
          have hno : (regular && !a.excluded) = false := by
            rw [Bool.and_comm]
            exact hpasses.symm
          rw [localFilesAt, hno]
          rfl
        | link a => rw [localFilesAt]
        | dir a opens reads entries =>
          have hexcluded : a.excluded = true := by simpa [Tree.attr] using hpasses
          rw [localFilesAt, if_pos hexcluded]
      rw [hnone]
      exact hrest
    | true =>
      rw [List.filter_cons_of_pos (by simp [hp])]
      rw [hp] at hpasses
      cases t with
      | leaf a regular =>
        have hyes : (regular && !a.excluded) = true := by
          rw [Bool.and_comm]
          exact hpasses.symm
        rw [localFilesAt, if_pos hyes, List.filter_cons_of_pos (by rfl), List.map_cons,
          List.filterMap_cons_none (by rfl)]
        exact hrest.cons _
      | link a =>
        rw [localFilesAt, List.filter_cons_of_neg (by simp [Tree.isDirectory]), List.filterMap_cons_none (by rfl)]
        exact hrest
      | dir a opens reads entries =>
        have hexcluded : ¬ a.excluded = true := by simpa [Tree.attr] using hpasses
        rw [localFilesAt, if_neg hexcluded, List.filter_cons_of_neg (by simp [Tree.isDirectory]),
          List.filterMap_cons_some (b := ⟨buildRelPath relDir a.name, opens, reads, entries⟩) (by rfl),
          List.flatMap_cons]
        refine List.Perm.trans ?_ (hrest.append_left _)
        rw [← List.append_assoc, ← List.append_assoc]
        exact List.perm_append_comm.append_right _

theorem listed_of_mem_subdirs {c d : PendingDir} (h : listed d = true) (hc : c ∈ subdirs d) : listed c = true := by
  unfold subdirs at hc
  rw [seen_of_listed h] at hc
  obtain ⟨t, ht, hpending⟩ := List.mem_filterMap.1 hc
  obtain ⟨hmem, hpasses⟩ := List.mem_filter.1 ht
  have hall : ∀ ts : List Tree, listedIn ts = true → t ∈ ts → listedAt t = true := by
    intro ts hts hmem
    induction ts with
    | nil => cases hmem
    | cons u us ih =>
      obtain ⟨hu, hus⟩ : listedAt u = true ∧ listedIn us = true := by simpa [listedIn] using hts
      rcases List.mem_cons.1 hmem with rfl | hmem
      · exact hu
      · exact ih hus hmem
  have hlisted := hall d.entries (by simpa [listed] using h : _ ∧ _).2 hmem
  cases t with
  | leaf a regular => cases hpending
  | link a => cases hpending
  | dir a opens reads entries =>
    cases hpending
    have hexcluded : a.excluded = false := by
      have hkept := hpasses
      rw [passes_of_listedAt hlisted] at hkept
      simpa [Tree.attr] using hkept
    have hparts : a.statusFails = false ∧ opens = true ∧ entries.length ≤ reads ∧ listedIn entries = true := by
      simpa [listedAt, hexcluded, and_assoc] using hlisted
    simp [listed, hparts]

/-- **Where no listing fails, the walk sees every file that is not left out.** -/
theorem filesSeen_perm (d : PendingDir) (h : listed d = true) :
    ((localTree.all d).flatMap filesSeen).Perm (localFiles d) := by
  induction d using localTree.finite.induction with
  | _ d ih =>
    have hchildren : ∀ cs : List PendingDir, (∀ c ∈ cs, c ∈ subdirs d) →
        ((cs.flatMap localTree.all).flatMap filesSeen).Perm (cs.flatMap localFiles) := by
      intro cs hcs
      induction cs with
      | nil => exact .refl _
      | cons c cs ihc =>
        have hc := hcs c List.mem_cons_self
        rw [List.flatMap_cons, List.flatMap_append, List.flatMap_cons]
        exact (ih c hc (listed_of_mem_subdirs h hc)).append
          (ihc fun c' hc' => hcs c' (List.mem_cons_of_mem _ hc'))
    rw [localTree.all_eq, List.flatMap_cons]
    refine ((hchildren (subdirs d) fun _ hc => hc).append_left _).trans ?_
    have hlisting := localFilesIn_perm d.relDir d.entries (by simpa [listed] using h : _ ∧ _).2
    unfold filesSeen subdirs
    rw [seen_of_listed h]
    exact hlisting

/-! ### The result -/

theorem sortPaths_perm (l : List Bytes) : (sortPaths l).Perm l := List.mergeSort_perm _ _

theorem sortPaths_sorted (l : List Bytes) : (sortPaths l).Pairwise (· ≤ ·) := by
  have hsorted : (sortPaths l).Pairwise fun a b => decide (a ≤ b) = true := by
    refine List.pairwise_mergeSort ?_ ?_ l
    · intro a b c hab hbc
      exact decide_eq_true (List.le_trans (of_decide_eq_true hab) (of_decide_eq_true hbc))
    · intro a b
      rw [Bool.or_eq_true, decide_eq_true_eq, decide_eq_true_eq]
      exact List.le_total a b
  exact hsorted.imp fun h => of_decide_eq_true h

/-- **The extra files**, once all threads have left without an exception. -/
theorem extraFiles_perm {E : Type} {root : PendingDir} {fn : Bytes → Bool} {dirInRemote : RemotePredicate}
    {collectDirs : Bool} {numWorkers : ℕ} {hpos : 0 < numWorkers} {s : State PendingDir ScanCtx E}
    (h : s.Inv (scanCall root (some fn) dirInRemote collectDirs numWorkers hpos))
    (hfin : s.finished (scanCall root (some fn) dirInRemote collectDirs numWorkers hpos)) (hok : s.thrown = [])
    (hlisted : listed root = true) :
    (scanResult collectDirs (s.merged.map Prod.snd)).extraFiles.Perm ((localFiles root).filter fun p => !fn p) := by
  have hctx : ∀ p ∈ s.merged, p.2.extraFiles = ((s.processed p.1).flatMap filesSeen).filter fun p => !fn p := by
    intro p hp
    rw [h.merged.ctx p hp, h.merged.folded hok p.1]
    exact (extraFiles_foldl fn dirInRemote collectDirs _ _).trans (List.nil_append _)
  have hjoined : (s.merged.map Prod.snd).flatMap ScanCtx.extraFiles =
      ((s.merged.flatMap fun p => s.processed p.1).flatMap filesSeen).filter fun p => !fn p := by
    rw [List.flatMap_map, List.flatMap_assoc, List.filter_flatMap]
    exact List.flatMap_congr hctx
  have hseen := ((processed_perm h hfin hok).flatMap_right filesSeen).trans (filesSeen_perm root hlisted)
  show (sortPaths ((s.merged.map Prod.snd).foldl (ScanCtx.finishWorker collectDirs) {}).extraFiles).Perm _
  refine (sortPaths_perm _).trans ?_
  rw [extraFiles_merge, hjoined]
  exact hseen.filter _

/-- **The parallel walk.** For every finite tree, every number of threads and every batch size, in every run
without cancellation: the steps are bounded, and unless all threads have left somebody can go on; whoever
leaves finds the queue empty and no batch out; at the end every context is merged once. If the callback has
thrown nothing, every directory is processed once and the call returns; otherwise it throws the first exception
that was handed in. Then the scan for extra files returns the local files that are neither left out nor in the
remote set, sorted. -/
theorem parallelDirWalk_exact {D C E : Type} (W : Call D C) :
    (∀ es : List (Event C E), (machine W).Allows (fun _ e => e.notCancel) (.start W) es →
      es.countP (fun e => !e.isWake) ≤ (State.start W : State D C E).fuel W + es.countP Event.isWake) ∧
    (∀ s : State D C E, (machine W).Reach (fun _ e => e.notCancel) s →
      (¬ s.finished W → ∃ e : Event C E,
        e.isWake = false ∧ e.isThrow = false ∧ e.notCancel = true ∧ (machine W).can s e) ∧
      (∀ w, s.worker w = .leaving ∨ s.worker w = .gone →
        s.queue = [] ∧ ∀ v batch size subdirs, (s.worker v).abs ≠ .busy batch size subdirs) ∧
      (s.finished W →
        (s.merged.map Prod.fst).Perm (List.range W.numWorkers) ∧
        (s.thrown = [] → (s.merged.flatMap fun p => s.processed p.1).Perm (W.dirs.all W.rootDir) ∧
          (∀ p ∈ s.merged, p.2 = (s.processed p.1).foldl (fun c d => W.processDir d c) W.ctxPrototype) ∧
          s.outcome = .ok ()) ∧
        (s.thrown ≠ [] → s.captured.Perm s.thrown ∧ ∃ e, s.captured.head? = some e ∧ s.outcome = .error e))) ∧
    ∀ (root : PendingDir) (fn : Bytes → Bool) (dirInRemote : RemotePredicate) (collectDirs : Bool) (numWorkers : ℕ)
      (hpos : 0 < numWorkers) (s : State PendingDir ScanCtx E), listed root = true →
      (machine (scanCall root (some fn) dirInRemote collectDirs numWorkers hpos)).Reach (fun _ e => e.notCancel) s →
      s.finished (scanCall root (some fn) dirInRemote collectDirs numWorkers hpos) → s.outcome = .ok () →
      (scanResult collectDirs (s.merged.map Prod.snd)).extraFiles.Pairwise (· ≤ ·) ∧
        (scanResult collectDirs (s.merged.map Prod.snd)).extraFiles.Perm ((localFiles root).filter fun p => !fn p) := by
  refine ⟨fun es hes => run_bounded hes, fun s hs => ?_, ?_⟩
  · have hinv := inv_reach hs
    refine ⟨exists_step hinv, fun w hw => alone_of_left hinv hw, fun hfin => ⟨merged_perm hinv hfin, ?_, ?_⟩⟩
    · intro hok
      obtain ⟨hcaptured, houtcome⟩ := rethrown hinv hfin
      refine ⟨processed_perm hinv hfin hok, ?_, ?_⟩
      · intro p hp
        rw [hinv.merged.ctx p hp]
        exact hinv.merged.folded hok p.1
      · rw [hok] at hcaptured
        rw [houtcome, hcaptured.eq_nil]
    · intro hthrown
      obtain ⟨hcaptured, houtcome⟩ := rethrown hinv hfin
      refine ⟨hcaptured, ?_⟩
      cases hlist : s.captured with
      | nil =>
        rw [hlist] at hcaptured
        exact absurd hcaptured.symm.eq_nil hthrown
      | cons e rest =>
        rw [hlist] at houtcome
        exact ⟨e, rfl, houtcome⟩
  · intro root fn dirInRemote collectDirs numWorkers hpos s hlisted hs hfin hok
    have hinv := inv_reach hs
    refine ⟨sortPaths_sorted _, extraFiles_perm hinv hfin ?_ hlisted⟩
    obtain ⟨hcaptured, houtcome⟩ := rethrown hinv hfin
    cases hlist : s.captured with
    | nil =>
      rw [hlist] at hcaptured
      exact hcaptured.symm.eq_nil
    | cons e rest =>
      rw [hok, hlist] at houtcome
      cases houtcome

theorem smallTree_finite : WellFounded fun c d : ℕ => c ∈ if d = 0 then [1] else [] := by
  have hstep : ∀ c d : ℕ, (c ∈ if d = 0 then [1] else []) → d = 0 ∧ c = 1 := by
    intro c d hc
    split at hc
    · rename_i hd
      exact ⟨hd, List.mem_singleton.1 hc⟩
    · cases hc
  refine ⟨fun d => .intro d fun c hc => .intro c fun b hb => ?_⟩
  obtain ⟨-, rfl⟩ := hstep c d hc
  exact absurd (hstep b 1 hb).1 (by decide)

/-- A root with one subdirectory, two threads, and a context that counts. -/
def smallWalk : Call ℕ ℕ where
  dirs := ⟨fun d => if d = 0 then [1] else [], smallTree_finite⟩
  rootDir := 0
  numWorkers := 2
  numWorkers_pos := Nat.two_pos
  dirPopBatch := 8
  dirPopBatch_pos := Nat.succ_pos 7
  ctxPrototype := 0
  processDir := fun _ ctx => ctx + 1

/-- The second thread sleeps while the first has the root, then takes the subdirectory. -/
def smallRun : List (Event ℕ Unit) :=
  [.check 0, .check 1, .process 0, .book 0, .check 1, .check 0, .process 1, .book 1, .check 1, .check 0, .finish 0,
    .finish 1]

theorem parallelDirWalk_smallRun : ∃ s : State ℕ ℕ Unit,
    (machine smallWalk).Reach (fun _ e => e.notCancel) s ∧ s.outcome = .ok () ∧
      (s.merged.flatMap fun p => s.processed p.1).Perm (smallWalk.dirs.all smallWalk.rootDir) := by
  have hreach : (machine smallWalk).Reach (fun _ e => e.notCancel)
      ((machine smallWalk).run (machine smallWalk).init smallRun) := Runs.Machine.reach_run (by decide)
  obtain ⟨-, hreached, -⟩ := parallelDirWalk_exact (E := Unit) smallWalk
  obtain ⟨hperm, -, houtcome⟩ := ((hreached _ hreach).2.2 (by decide)).2.1 (by decide)
  exact ⟨_, hreach, houtcome, hperm⟩

end FastClone.ExtraScan
