import FastClone.Proof.MirrorTree

/-!
# The mirror delete reaches exactly the mirrored set

A path below another is longer, so in the order of the removals a directory comes after all that is below it
(`Call.Sound.remove_dir`). What is left in the end are the files that are kept, and of the extra directories
those with such a file below them (`removeLocalExtras_exact`).
-/

namespace FastClone.MirrorDelete

open FastClone.Delta FastClone.Scan FastClone.ExtraScan FastClone.DirWalk Runs

variable {C : Call} {s s' : State}

/-! ### Steps -/

/-- What a step does. -/
inductive Effect (C : Call) (s : State) : Event → State → Prop
  | draw {w : ℕ} (hw : w < C.deleteWorkers) (hhand : s.pool.hand w = .drawing) :
      Effect C s (.draw w) { s with pool := s.pool.draw C.fileCount w }
  | remove {w i : ℕ} (refused : Bool) (hhand : s.pool.hand w = .working i) :
      Effect C s (.remove w refused)
        { s.removeFile (C.scan.extraFiles.getD i []) refused with pool := s.pool.finish w i }
  | join {sorted : List Bytes} (hearly : s.extraDirs = none) (hleft : ∀ w < C.deleteWorkers, s.pool.hand w = .left)
      (hperm : sorted.Perm C.scan.extraDirs) (hsorted : sorted.Pairwise fun a b => b.length ≤ a.length) :
      Effect C s (.join sorted) { s with
        existingLocalDirs := s.existingLocalDirs ∪ C.scan.localDirs.toFinset
        extraDirs := some sorted }
  | removeDir {dir : Bytes} {rest : List Bytes} (refused : Bool) (hlate : s.extraDirs = some (dir :: rest)) :
      Effect C s (.removeDir refused) { s.removeDir dir refused with extraDirs := some rest }

theorem effect_of_step {e : Event} (hs : s.step C e = some s') : Effect C s e s' := by
  cases e with
  | draw w =>
    simp only [State.step] at hs
    split at hs
    · rename_i hcan
      obtain rfl := Option.some.inj hs
      exact .draw hcan.1 hcan.2
    · nomatch hs
  | remove w refused =>
    simp only [State.step] at hs
    split at hs
    · rename_i i hhand
      obtain rfl := Option.some.inj hs
      exact .remove refused hhand
    · nomatch hs
  | join sorted =>
    simp only [State.step] at hs
    split at hs
    · rename_i hcan
      obtain rfl := Option.some.inj hs
      exact .join hcan.1 hcan.2.1 hcan.2.2.1 hcan.2.2.2
    · nomatch hs
  | removeDir refused =>
    simp only [State.step] at hs
    split at hs
    · rename_i dir rest hlate
      obtain rfl := Option.some.inj hs
      exact .removeDir refused hlate
    · nomatch hs

/-! ### `fs::remove` -/

section Remove

variable {fs : Fs} {path : Bytes}

theorem remove_file (h : path ∈ fs.files) :
    fs.remove path false = ({ fs with files := fs.files.erase path }, .removed) := by
  unfold Fs.remove
  rw [if_neg Bool.false_ne_true, if_pos h]

theorem remove_full (hfile : path ∉ fs.files) (hdir : path ∈ fs.dirs) (h : ∃ other ∈ fs.files ∪ fs.dirs, Below path other) :
    fs.remove path false = (fs, .failed) := by
  unfold Fs.remove
  rw [if_neg Bool.false_ne_true, if_neg hfile, if_pos hdir, if_pos h]

theorem remove_empty (hfile : path ∉ fs.files) (hdir : path ∈ fs.dirs)
    (h : ¬ ∃ other ∈ fs.files ∪ fs.dirs, Below path other) :
    fs.remove path false = ({ fs with dirs := fs.dirs.erase path }, .removed) := by
  unfold Fs.remove
  rw [if_neg Bool.false_ne_true, if_neg hfile, if_pos hdir, if_neg h]

theorem remove_absent (hfile : path ∉ fs.files) (hdir : path ∉ fs.dirs) : fs.remove path false = (fs, .absent) := by
  unfold Fs.remove
  rw [if_neg Bool.false_ne_true, if_neg hfile, if_neg hdir]

end Remove

/-! ### The invariant -/

/-- What the scan has found is there, and what is below an extra directory is extra. -/
structure Call.Sound (C : Call) : Prop where
  nodup : C.scan.extraFiles.Nodup
  files : ∀ p ∈ C.scan.extraFiles, p ∈ C.fs.files
  dirs : ∀ d ∈ C.scan.extraDirs, d ∈ C.fs.dirs
  apart : ∀ d ∈ C.fs.dirs, d ∉ C.fs.files
  closed : ∀ d ∈ C.scan.extraDirs, ∀ e ∈ C.fs.dirs, Below d e → e ∈ C.scan.extraDirs

/-- The directories `gone` have had their turn: those with a file below them are still there. -/
structure State.Swept (C : Call) (s : State) (gone rest : List Bytes) : Prop where
  left : ∀ w < C.deleteWorkers, s.pool.hand w = .left
  perm : (gone ++ rest).Perm C.scan.extraDirs
  sorted : (gone ++ rest).Pairwise fun a b => b.length ≤ a.length
  dirs : ∀ d, d ∈ s.fs.dirs ↔ d ∈ C.fs.dirs ∧ (d ∈ gone → ∃ p ∈ s.fs.files, Below d p)

structure State.Kept (C : Call) (s : State) : Prop where
  pool : s.pool.Kept C.fileCount C.deleteWorkers
  removed : s.removed = s.pool.done.map fun i => C.scan.extraFiles.getD i []
  files : ∀ p, p ∈ s.fs.files ↔ p ∈ C.fs.files ∧ p ∉ s.removed
  count : s.deletedFiles = s.removed.length
  early : s.extraDirs = none → s.fs.dirs = C.fs.dirs
  late : ∀ rest, s.extraDirs = some rest → ∃ gone, s.Swept C gone rest

theorem kept_init (C : Call) : (State.start C).Kept C where
  pool := Tickets.kept_start C.fileCount C.deleteWorkers
  removed := rfl
  files _ := ⟨fun h => ⟨h, List.not_mem_nil⟩, And.left⟩
  count := rfl
  early _ := rfl
  late := nofun

/-- As long as a worker has not left, no directory is removed. -/
theorem State.Kept.none_of_hand (h : s.Kept C) {w : ℕ} (hw : w < C.deleteWorkers) (hhand : s.pool.hand w ≠ .left) :
    s.extraDirs = none := by
  cases hdirs : s.extraDirs with
  | none => rfl
  | some rest =>
    obtain ⟨gone, hswept⟩ := h.late rest hdirs
    exact absurd (hswept.left w hw) hhand

/-- The file with a number that somebody works on is there. -/
theorem State.Kept.there (h : s.Kept C) (hC : C.Sound) {w i : ℕ} (hhand : s.pool.hand w = .working i) :
    C.scan.extraFiles.getD i [] ∈ s.fs.files := by
  obtain ⟨hi, -, hnot⟩ := h.pool.working w i hhand
  have hget : ∀ j, (hj : j < C.scan.extraFiles.length) → C.scan.extraFiles.getD j [] = C.scan.extraFiles[j] := by
    intro j hj
    rw [List.getD_eq_getElem?_getD, List.getElem?_eq_getElem hj]
    rfl
  rw [h.files, h.removed, hget i hi]
  refine ⟨hC.files _ (List.getElem_mem hi), fun hmem => ?_⟩
  obtain ⟨j, hj, heq⟩ := List.mem_map.1 hmem
  obtain ⟨hjlt, -⟩ := h.pool.drawn j hj
  rw [hget j hjlt] at heq
  have hsame : j = i := (hC.nodup.getElem_inj_iff).1 heq
  exact hnot (hsame ▸ hj)

theorem State.Kept.remove (h : s.Kept C) (hC : C.Sound) {w i : ℕ} (hhand : s.pool.hand w = .working i) :
    State.Kept C { s.removeFile (C.scan.extraFiles.getD i []) false with pool := s.pool.finish w i } := by
  have hw : w < C.deleteWorkers := h.pool.within w (by rw [hhand]; nofun)
  have hnone := h.none_of_hand hw (by rw [hhand]; nofun)
  have hthere := h.there hC hhand
  unfold removeFile
  rw [remove_file hthere]
  refine ⟨h.pool.finish hhand, ?_, ?_, ?_, ?_, ?_⟩
  · change s.removed ++ _ = (s.pool.done ++ [i]).map _
    rw [List.map_append, h.removed]
    rfl
  · intro p
    change p ∈ s.fs.files.erase _ ↔ p ∈ C.fs.files ∧ p ∉ s.removed ++ [_]
    rw [Finset.mem_erase, h.files, List.mem_append, List.mem_singleton]
    tauto
  · change s.deletedFiles + 1 = (s.removed ++ [_]).length
    rw [List.length_append, List.length_singleton, h.count]
  · exact h.early
  · intro rest hrest
    rw [show s.extraDirs = some rest from hrest] at hnone
    nomatch hnone

/-- **A directory in its turn** stays exactly if a file is left below it. -/
theorem State.Swept.removeDir {gone rest : List Bytes} {dir : Bytes} (hC : C.Sound) (h : s.Swept C gone (dir :: rest))
    (hapart : ∀ d ∈ C.fs.dirs, d ∉ s.fs.files) :
    State.Swept C { s.removeDir dir false with extraDirs := some rest } (gone ++ [dir]) rest ∧
      (s.removeDir dir false).fs.files = s.fs.files := by
  have hextra : dir ∈ C.scan.extraDirs := h.perm.subset (List.mem_append_right _ List.mem_cons_self)
  have hdir := hC.dirs dir hextra
  have hnofile := hapart dir hdir
  have hperm : (gone ++ [dir] ++ rest).Perm C.scan.extraDirs := by
    rw [List.append_assoc]
    exact h.perm
  have hsorted : (gone ++ [dir] ++ rest).Pairwise fun a b => b.length ≤ a.length := by
    rw [List.append_assoc]
    exact h.sorted
  have hmore : ∀ d, (d ∈ gone ++ [dir] ↔ d ∈ gone ∨ d = dir) := fun d => by
    rw [List.mem_append, List.mem_singleton]
  by_cases hmem : dir ∈ s.fs.dirs
  · by_cases hkept : ∃ p ∈ s.fs.files, Below dir p
    · -- the file below it keeps it from being empty
      obtain ⟨p, hp, hbelow⟩ := hkept
      have hfull : ∃ other ∈ s.fs.files ∪ s.fs.dirs, Below dir other := ⟨p, Finset.mem_union_left _ hp, hbelow⟩
      unfold State.removeDir
      rw [remove_full hnofile hmem hfull]
      refine ⟨⟨h.left, hperm, hsorted, fun d => ?_⟩, rfl⟩
      rw [hmore]
      refine (h.dirs d).trans (and_congr_right fun _ => ⟨fun hgone => ?_, fun hgone hin => hgone (Or.inl hin)⟩)
      rintro (hin | rfl)
      · exact hgone hin
      · exact ⟨p, hp, hbelow⟩
    · -- what is below it has had its turn, and has no file below it either
      have hempty : ¬ ∃ other ∈ s.fs.files ∪ s.fs.dirs, Below dir other := by
        rintro ⟨e, he, hbelow⟩
        rcases Finset.mem_union.1 he with hfile | hsub
        · exact hkept ⟨e, hfile, hbelow⟩
        obtain ⟨he0, hgone⟩ := (h.dirs e).1 hsub
        have hlt := hbelow.length_lt
        rcases List.mem_append.1 (h.perm.symm.subset (hC.closed dir hextra e he0 hbelow)) with hin | hin
        · obtain ⟨p, hp, hpe⟩ := hgone hin
          exact hkept ⟨p, hp, hbelow.trans hpe⟩
        · rcases List.mem_cons.1 hin with rfl | hlater
          · exact Nat.lt_irrefl _ hlt
          · have hle := (List.pairwise_cons.1 (List.pairwise_append.1 h.sorted).2.1).1 e hlater
            omega
      unfold State.removeDir
      rw [remove_empty hnofile hmem hempty]
      refine ⟨⟨h.left, hperm, hsorted, fun d => ?_⟩, rfl⟩
      change d ∈ s.fs.dirs.erase dir ↔ _
      rw [Finset.mem_erase, h.dirs, hmore]
      constructor
      · rintro ⟨hne, hin, hgone⟩
        exact ⟨hin, fun hor => hgone (hor.resolve_right hne)⟩
      · rintro ⟨hin, hgone⟩
        exact ⟨fun heq => hkept (heq ▸ hgone (Or.inr heq)), hin, fun hold => hgone (Or.inl hold)⟩
  · unfold State.removeDir
    rw [remove_absent hnofile hmem]
    refine ⟨⟨h.left, hperm, hsorted, fun d => ?_⟩, rfl⟩
    rw [hmore]
    refine (h.dirs d).trans (and_congr_right fun hd => ⟨fun hgone => ?_, fun hgone hin => hgone (Or.inl hin)⟩)
    rintro (hin | rfl)
    · exact hgone hin
    · by_contra hno
      exact hmem ((h.dirs d).2 ⟨hd, hgone⟩)

theorem State.Kept.draw (h : s.Kept C) {w : ℕ} (hw : w < C.deleteWorkers) (hhand : s.pool.hand w = .drawing) :
    State.Kept C { s with pool := s.pool.draw C.fileCount w } := by
  have hnone := h.none_of_hand hw (by rw [hhand]; nofun)
  refine ⟨h.pool.draw hw hhand, h.removed, h.files, h.count, h.early, fun rest hrest => ?_⟩
  rw [show s.extraDirs = some rest from hrest] at hnone
  nomatch hnone

theorem State.Kept.join (h : s.Kept C) {sorted : List Bytes} (hearly : s.extraDirs = none)
    (hleft : ∀ w < C.deleteWorkers, s.pool.hand w = .left) (hperm : sorted.Perm C.scan.extraDirs)
    (hsorted : sorted.Pairwise fun a b => b.length ≤ a.length) :
    State.Kept C { s with
      existingLocalDirs := s.existingLocalDirs ∪ C.scan.localDirs.toFinset
      extraDirs := some sorted } := by
  refine ⟨h.pool, h.removed, h.files, h.count, nofun, fun rest hrest => ⟨[], hleft, ?_, ?_, fun d => ?_⟩⟩
  · obtain rfl := Option.some.inj hrest
    exact hperm
  · obtain rfl := Option.some.inj hrest
    exact hsorted
  · change d ∈ s.fs.dirs ↔ _
    rw [h.early hearly]
    exact ⟨fun hd => ⟨hd, nofun⟩, And.left⟩

theorem State.Kept.removeDir (h : s.Kept C) (hC : C.Sound) {dir : Bytes} {rest : List Bytes}
    (hlate : s.extraDirs = some (dir :: rest)) :
    State.Kept C { s.removeDir dir false with extraDirs := some rest } := by
  obtain ⟨gone, hswept⟩ := h.late _ hlate
  have hapart : ∀ d ∈ C.fs.dirs, d ∉ s.fs.files := fun d hd hfile => hC.apart d hd ((h.files d).1 hfile).1
  obtain ⟨hnext, hfiles⟩ := hswept.removeDir hC hapart
  have hsame : (s.removeDir dir false).pool = s.pool ∧ (s.removeDir dir false).removed = s.removed ∧
      (s.removeDir dir false).deletedFiles = s.deletedFiles := by
    unfold State.removeDir
    split <;> exact ⟨rfl, rfl, rfl⟩
  obtain ⟨hpool, hremoved, hcount⟩ := hsame
  refine ⟨hpool.symm ▸ h.pool, ?_, fun p => ?_, ?_, nofun, fun rest' hrest => ?_⟩
  · change (s.removeDir dir false).removed = (s.removeDir dir false).pool.done.map _
    rw [hpool, hremoved]
    exact h.removed
  · change p ∈ (s.removeDir dir false).fs.files ↔ p ∈ C.fs.files ∧ p ∉ (s.removeDir dir false).removed
    rw [hfiles, hremoved]
    exact h.files p
  · change (s.removeDir dir false).deletedFiles = (s.removeDir dir false).removed.length
    rw [hcount, hremoved]
    exact h.count
  · obtain rfl := Option.some.inj hrest
    exact ⟨gone ++ [dir], hnext⟩

theorem State.Kept.step (h : s.Kept C) (hC : C.Sound) {e : Event} (hs : Effect C s e s') (hok : e.granted = true) :
    s'.Kept C := by
  cases hs with
  | draw hw hhand => exact h.draw hw hhand
  | remove refused hhand =>
    obtain rfl : refused = false := by simpa [Event.granted] using hok
    exact h.remove hC hhand
  | join hearly hleft hperm hsorted => exact h.join hearly hleft hperm hsorted
  | removeDir refused hlate =>
    obtain rfl : refused = false := by simpa [Event.granted] using hok
    exact h.removeDir hC hlate

theorem next_eq {e : Event} (hc : (machine C).can s e) : Effect C s e ((machine C).next s e) := by
  obtain ⟨s', hs⟩ := Option.isSome_iff_exists.1 hc
  have hnext : (machine C).next s e = s' := by simp [machine, hs]
  rw [hnext]
  exact effect_of_step hs

theorem kept_reach (hC : C.Sound) (h : (machine C).Reach (fun _ e => e.granted = true) s) : s.Kept C :=
  h.invariant (kept_init C) fun _ _ hkept hc hok => hkept.step hC (next_eq hc) hok

/-! ### Progress -/

/-- The steps that are left. -/
def State.rank (C : Call) (s : State) : ℕ :=
  s.pool.rank C.fileCount C.deleteWorkers +
    match s.extraDirs with
    | none => C.scan.extraDirs.length + 1
    | some rest => rest.length

theorem removeFile_extraDirs (s : State) (path : Bytes) (refused : Bool) :
    (s.removeFile path refused).extraDirs = s.extraDirs := by
  unfold State.removeFile
  split <;> rfl

theorem removeDir_pool (s : State) (dir : Bytes) (refused : Bool) : (s.removeDir dir refused).pool = s.pool := by
  unfold State.removeDir
  split <;> rfl

theorem rank_step {e : Event} (hpool : s.pool.Kept C.fileCount C.deleteWorkers) (hs : Effect C s e s') :
    s'.rank C < s.rank C := by
  unfold State.rank
  cases hs with
  | draw hw hhand =>
    rename_i w
    have hdraw : (s.pool.draw C.fileCount w).rank C.fileCount C.deleteWorkers + 1 =
        s.pool.rank C.fileCount C.deleteWorkers := Tickets.rank_draw hw hhand
    dsimp only
    omega
  | remove refused hhand =>
    rename_i w i
    have hw : w < C.deleteWorkers := hpool.within w (by rw [hhand]; nofun)
    have hfinish : (s.pool.finish w i).rank C.fileCount C.deleteWorkers + 1 =
        s.pool.rank C.fileCount C.deleteWorkers := Tickets.rank_finish hw hhand
    dsimp only
    rw [removeFile_extraDirs]
    omega
  | join hearly hleft hperm hsorted =>
    have hlen := hperm.length_eq
    rw [hearly]
    dsimp only
    omega
  | removeDir refused hlate =>
    rw [hlate]
    dsimp only
    rw [removeDir_pool, List.length_cons]
    omega

/-- Until the call returns somebody can go on. -/
theorem exists_step (hover : ¬ s.over) : ∃ e : Event, e.granted = true ∧ (machine C).can s e := by
  cases hdirs : s.extraDirs with
  | none =>
    by_cases hleft : ∀ w < C.deleteWorkers, s.pool.hand w = .left
    · have hsorted : (C.scan.extraDirs.mergeSort fun a b => decide (b.length ≤ a.length)).Pairwise
          fun a b => b.length ≤ a.length := by
        have hbool : (C.scan.extraDirs.mergeSort fun a b => decide (b.length ≤ a.length)).Pairwise
            fun a b => decide (b.length ≤ a.length) = true := by
          refine List.pairwise_mergeSort ?_ ?_ C.scan.extraDirs
          · intro a b c hab hbc
            exact decide_eq_true (Nat.le_trans (of_decide_eq_true hbc) (of_decide_eq_true hab))
          · intro a b
            rw [Bool.or_eq_true, decide_eq_true_eq, decide_eq_true_eq]
            exact Nat.le_total b.length a.length
        exact hbool.imp fun h => of_decide_eq_true h
      refine ⟨.join (C.scan.extraDirs.mergeSort fun a b => decide (b.length ≤ a.length)), rfl, ?_⟩
      have hjoin : s.extraDirs = none ∧ (∀ w < C.deleteWorkers, s.pool.hand w = .left) ∧
          (C.scan.extraDirs.mergeSort fun a b => decide (b.length ≤ a.length)).Perm C.scan.extraDirs ∧
          (C.scan.extraDirs.mergeSort fun a b => decide (b.length ≤ a.length)).Pairwise
            fun a b => b.length ≤ a.length := ⟨hdirs, hleft, List.mergeSort_perm _ _, hsorted⟩
      simp only [machine, State.step]
      rw [if_pos hjoin]
      rfl
    · obtain ⟨w, hw, hhand⟩ : ∃ w, w < C.deleteWorkers ∧ s.pool.hand w ≠ .left := by
        simpa using hleft
      cases hcase : s.pool.hand w with
      | drawing => exact ⟨.draw w, rfl, by simp [machine, State.step, hw, hcase]⟩
      | working i => exact ⟨.remove w false, rfl, by simp [machine, State.step, hcase]⟩
      | left => exact absurd hcase hhand
  | some rest =>
    cases rest with
    | nil => exact absurd hdirs hover
    | cons dir rest => exact ⟨.removeDir false, rfl, by simp [machine, State.step, hdirs]⟩

/-! ### The whole call -/

/-- What is left of the tree, and what was removed and counted. -/
structure Mirrored (T : LocalTree) (remoteFiles remoteDirs : Bytes → Bool) (s : State) : Prop where
  files : ∀ p, p ∈ s.fs.files ↔ p ∈ T.files ∧ (remoteFiles p = true ∨ p ∈ T.excluded)
  dirs : ∀ d, d ∈ s.fs.dirs ↔ d ∈ T.dirs ∧ (remoteDirs d = true ∨ ∃ p ∈ s.fs.files, Below d p)
  once : s.removed.Nodup
  removed : ∀ p, p ∈ s.removed ↔ p ∈ T.files ∧ remoteFiles p = false ∧ p ∉ T.excluded
  count : s.deletedFiles = s.removed.length

theorem map_getD_range (l : List Bytes) : (List.range l.length).map (fun i => l.getD i []) = l := by
  refine List.ext_getElem (by simp) fun i hi hi' => ?_
  simp [hi']

/-- **When the call returns, every extra file was removed, once.** -/
theorem State.Kept.removed_perm (h : s.Kept C) (hover : s.over) : s.removed.Perm C.scan.extraFiles := by
  obtain ⟨gone, hswept⟩ := h.late [] hover
  have hworkers : C.fileCount ≠ 0 → 0 < C.deleteWorkers := by
    intro hne
    unfold Call.deleteWorkers
    rw [if_neg hne]
    omega
  have hdone := h.pool.done_perm hworkers hswept.left
  rw [h.removed]
  exact (hdone.map _).trans (List.Perm.of_eq (map_getD_range C.scan.extraFiles))

section Scanned

variable {T : LocalTree} {E : Type} {remoteFiles remoteDirs : Bytes → Bool} {numWorkers : ℕ} {hpos : 0 < numWorkers}
  {walk : DirWalk.State PendingDir ScanCtx E}

/-- The call after the scan. -/
def afterScan (T : LocalTree) (walk : DirWalk.State PendingDir ScanCtx E) (numWorkers : ℕ)
    (existingLocalDirs : Finset Bytes) : Call where
  fs := T.fs
  scan := scanResult true (walk.merged.map Prod.snd)
  numWorkers := numWorkers
  existingLocalDirs := existingLocalDirs

theorem sound_afterScan (hlisted : listed T.root = true)
    (hclosed : ∀ e, remoteDirs e = true → ∀ d, Below d e → d ∈ T.dirs → remoteDirs d = true)
    (hinv : walk.Inv (scanCall T.root (some remoteFiles) (some remoteDirs) true numWorkers hpos))
    (hfin : walk.finished (scanCall T.root (some remoteFiles) (some remoteDirs) true numWorkers hpos))
    (hok : walk.thrown = []) (n : ℕ) (existingLocalDirs : Finset Bytes) :
    (afterScan T walk n existingLocalDirs).Sound where
  nodup := LocalTree.extraFiles_nodup hlisted hinv hfin hok
  files p hp := List.mem_toFinset.2 ((LocalTree.mem_extraFiles hlisted hinv hfin hok).1 hp).1
  dirs d hd := List.mem_toFinset.2 ((LocalTree.mem_extraDirs hlisted hinv hfin hok).1 hd).1
  apart d hd hfile := LocalTree.not_mem_files (List.mem_toFinset.1 hd) (List.mem_toFinset.1 hfile)
  closed := by
    intro d hd e he hbelow
    obtain ⟨hin, hremote⟩ := (LocalTree.mem_extraDirs hlisted hinv hfin hok).1 hd
    refine (LocalTree.mem_extraDirs hlisted hinv hfin hok).2 ⟨List.mem_toFinset.1 he, ?_⟩
    cases hyes : remoteDirs e with
    | false => rfl
    | true =>
      rw [hclosed e hyes d hbelow hin] at hremote
      nomatch hremote

/-- **The mirrored set.** Take any local tree of regular files and directories that can be listed, any remote
files, and remote directories that have with a directory all local ones above it. However the threads of the
scan and of the removal take turns, and in whatever order paths of one length are sorted: if the system grants
every removal, the call goes on until it returns, and then what is left and what was removed and counted is as
`Mirrored` says. -/
theorem removeLocalExtras_exact (T : LocalTree) (remoteFiles remoteDirs : Bytes → Bool) (hlisted : listed T.root = true)
    (hclosed : ∀ e, remoteDirs e = true → ∀ d, Below d e → d ∈ T.dirs → remoteDirs d = true)
    (hwalk : (DirWalk.machine (scanCall T.root (some remoteFiles) (some remoteDirs) true numWorkers hpos)).Reach
      (fun _ e => e.notCancel) walk)
    (hfin : walk.finished (scanCall T.root (some remoteFiles) (some remoteDirs) true numWorkers hpos))
    (hok : walk.outcome = .ok ()) (n : ℕ) (existingLocalDirs : Finset Bytes) :
    (∀ es, (machine (afterScan T walk n existingLocalDirs)).Allows (fun _ e => e.granted = true)
        (.start (afterScan T walk n existingLocalDirs)) es →
      es.length ≤ (State.start (afterScan T walk n existingLocalDirs)).rank (afterScan T walk n existingLocalDirs)) ∧
    ∀ s, (machine (afterScan T walk n existingLocalDirs)).Reach (fun _ e => e.granted = true) s →
      (¬ s.over → ∃ e : Event, e.granted = true ∧ (machine (afterScan T walk n existingLocalDirs)).can s e) ∧
      (s.over → Mirrored T remoteFiles remoteDirs s) := by
  have hinv := inv_reach hwalk
  have hthrown : walk.thrown = [] := by
    obtain ⟨hcaptured, houtcome⟩ := rethrown hinv hfin
    cases hlist : walk.captured with
    | nil =>
      rw [hlist] at hcaptured
      exact hcaptured.symm.eq_nil
    | cons e rest =>
      rw [hok, hlist] at houtcome
      cases houtcome
  have hsound := sound_afterScan hlisted hclosed hinv hfin hthrown n existingLocalDirs
  refine ⟨fun es hes => ?_, fun s hs => ⟨exists_step, fun hover => ?_⟩⟩
  · have hcount := hes.count_le (fun s => s.rank (afterScan T walk n existingLocalDirs)) (fun _ => false)
      (fun s e hr hc hok _ => rank_step (kept_reach hsound hr).pool (next_eq hc)) (fun _ _ _ _ _ h => absurd h Bool.false_ne_true) .init
    simp only [Bool.not_false, List.countP_true, List.countP_false, Function.const_apply] at hcount
    exact Nat.le_trans (Nat.le_add_left _ _) hcount
  · have hkept := kept_reach hsound hs
    have hperm := hkept.removed_perm hover
    have hremoved : ∀ p, p ∈ s.removed ↔ p ∈ T.files ∧ remoteFiles p = false ∧ p ∉ T.excluded := fun p =>
      hperm.mem_iff.trans (LocalTree.mem_extraFiles hlisted hinv hfin hthrown)
    obtain ⟨gone, hswept⟩ := hkept.late [] hover
    have hgone : ∀ d, d ∈ gone ↔ d ∈ T.dirs ∧ remoteDirs d = false := by
      intro d
      have hall := hswept.perm
      rw [List.append_nil] at hall
      exact hall.mem_iff.trans (LocalTree.mem_extraDirs hlisted hinv hfin hthrown)
    refine ⟨fun p => ?_, fun d => ?_, hperm.nodup_iff.2 hsound.nodup, hremoved, hkept.count⟩
    · have hfile : p ∈ (afterScan T walk n existingLocalDirs).fs.files ↔ p ∈ T.files := List.mem_toFinset
      rw [hkept.files, hremoved, hfile, ← Bool.not_eq_true]
      tauto
    · have hdir : d ∈ (afterScan T walk n existingLocalDirs).fs.dirs ↔ d ∈ T.dirs := List.mem_toFinset
      rw [hswept.dirs, hgone, hdir, ← Bool.not_eq_true]
      tauto

end Scanned

def entry (c : UInt8) (excluded : Bool) : Attr where
  name := ⟨[c], List.cons_ne_nil c []⟩
  excluded := excluded
  statusFails := false
  sizeFails := false
  fileSize := 1
  mtimeNs := 0

/-- The files `d/f`, `d/k` and `e/s/x`, and the program itself as `p`. -/
def smallTree : LocalTree where
  root := ⟨[], true, 3, [.dir (entry 100 false) true 2 [.leaf (entry 102 false) true, .leaf (entry 107 false) true],
    .dir (entry 101 false) true 1 [.dir (entry 115 false) true 1 [.leaf (entry 120 false) true]], .leaf (entry 112 true) true]⟩
  top := rfl
  ordinary := rfl
  named := by decide

/-- Of these the server has `d/k` only. -/
def onlyK (p : Bytes) : Bool := p == [100, 47, 107]

def smallCall : DirWalk.Call PendingDir ScanCtx :=
  scanCall smallTree.root (some onlyK) (some fun _ => false) true 1 Nat.one_pos

def smallScan : List (DirWalk.Event ScanCtx Unit) :=
  [.check 0, .process 0, .book 0, .check 0, .process 0, .process 0, .book 0, .check 0, .process 0, .book 0, .check 0,
    .finish 0]

/-- Two threads remove the files. -/
def smallDelete : List Event :=
  [.draw 0, .draw 1, .remove 1 false, .draw 1, .remove 0 false, .draw 0, .join [[101, 47, 115], [101], [100]],
    .removeDir false, .removeDir false, .removeDir false]

/-- What the scan returns is in order already. -/
def smallFound : ScanCtx where
  extraFiles := [[100, 47, 102], [101, 47, 115, 47, 120]]
  extraDirs := [[100], [101], [101, 47, 115]]
  localDirs := [[100], [101], [101, 47, 115]]

theorem scanResult_small :
    scanResult true (((DirWalk.machine smallCall).run (.start smallCall) smallScan).merged.map Prod.snd) = smallFound := by
  have hmerged : ((DirWalk.machine smallCall).run (.start smallCall) smallScan).merged.map Prod.snd = [smallFound] := rfl
  have hfiles : sortPaths smallFound.extraFiles = smallFound.extraFiles := List.mergeSort_of_pairwise (by decide)
  have hdirs : sortPaths smallFound.extraDirs = smallFound.extraDirs := List.mergeSort_of_pairwise (by decide)
  rw [hmerged]
  change ScanCtx.mk (sortPaths smallFound.extraFiles) (sortPaths smallFound.extraDirs)
    (sortPaths smallFound.extraDirs) = _
  rw [hfiles, hdirs]
  rfl

/-- Two files are removed and counted, and the directories `e/s` and `e`; `d` stays with `k` in it. -/
theorem removeLocalExtras_small : ∃ s : State, s.removed = [[101, 47, 115, 47, 120], [100, 47, 102]] ∧
    s.deletedFiles = 2 ∧ s.fs.dirs = {[100]} ∧ Mirrored smallTree onlyK (fun _ => false) s := by
  have hwalk : (DirWalk.machine smallCall).Reach (fun _ e => e.notCancel)
      ((DirWalk.machine smallCall).run (.start smallCall) smallScan) := Machine.reach_run (by decide)
  have hexact := removeLocalExtras_exact smallTree onlyK (fun _ => false) (by decide) (fun _ h => absurd h Bool.false_ne_true) hwalk
    (by decide) rfl 2 ∅
  have hcall : afterScan smallTree ((DirWalk.machine smallCall).run (.start smallCall) smallScan) 2 ∅ =
      ⟨smallTree.fs, smallFound, 2, ∅⟩ := congrArg (Call.mk smallTree.fs · 2 ∅) scanResult_small
  rw [hcall] at hexact
  have hrun : (machine ⟨smallTree.fs, smallFound, 2, ∅⟩).Reach (fun _ e => e.granted = true)
      ((machine ⟨smallTree.fs, smallFound, 2, ∅⟩).run (.start ⟨smallTree.fs, smallFound, 2, ∅⟩) smallDelete) :=
    Machine.reach_run (by decide)
  exact ⟨_, by decide, by decide, by decide, (hexact.2 _ hrun).2 (by decide)⟩

end FastClone.MirrorDelete
