import FastClone.Proof.ExtraScan
import FastClone.Spec.MirrorDelete

/-!
# What the scan finds in a local tree

The names in a directory are different and have no slash in them, so no two entries have the same path
(`paths_nodup`). Where no listing fails the scan returns the files and the directories that are not in the
remote sets (`LocalTree.mem_extraFiles`, `LocalTree.mem_extraDirs`).
-/

namespace FastClone.MirrorDelete

open FastClone.Delta FastClone.Scan FastClone.ExtraScan FastClone.DirWalk

/-! ### Paths -/

theorem Below.trans {a b c : Bytes} (hab : Below a b) (hbc : Below b c) : Below a c := by
  have hb : b <+: c := (List.prefix_append b [slash]).trans hbc
  exact List.IsPrefix.trans hab hb

theorem Below.length_lt {a b : Bytes} (h : Below a b) : a.length < b.length := by
  have hlen := List.IsPrefix.length_le h
  rw [List.length_append, List.length_singleton] at hlen
  omega

theorem buildRelPath_ne_nil (relDir : Bytes) (name : Name) : buildRelPath relDir name ≠ [] := by
  unfold buildRelPath
  split
  · exact name.ne_nil
  · exact List.append_ne_nil_of_right_ne_nil _ (List.cons_ne_nil _ _)

/-- An entry of a directory is below it. -/
theorem below_buildRelPath {dir : Bytes} (hdir : dir ≠ []) (name : Name) : Below dir (buildRelPath dir name) := by
  unfold buildRelPath Below
  rw [if_neg hdir]
  exact ⟨name.bytes, List.append_assoc ..⟩

/-! ### Everything in a tree -/

theorem mem_everythingIn {relDir : Bytes} {ts : List Tree} {e : Bytes × Tree} :
    e ∈ everythingIn relDir ts ↔ ∃ t ∈ ts, e ∈ everythingAt relDir t := by
  induction ts with
  | nil => simp [everythingIn]
  | cons t ts ih => simp [everythingIn, ih]

/-- An entry, and what is in it if it is a directory. -/
theorem mem_everythingAt {relDir : Bytes} {t : Tree} {e : Bytes × Tree} : e ∈ everythingAt relDir t ↔
    e = (buildRelPath relDir t.attr.name, t) ∨ ∃ c, t.pending relDir = some c ∧ e ∈ everythingIn c.relDir c.entries := by
  cases t with
  | leaf a regular => simp [everythingAt, Tree.pending, Tree.attr]
  | link a => simp [everythingAt, Tree.pending, Tree.attr]
  | dir a opens reads entries => simp [everythingAt, Tree.pending, Tree.attr]

mutual

/-- What is at and under an entry has its path, or a path below it. -/
theorem pathAt {relDir : Bytes} (t : Tree) {e : Bytes × Tree} (h : e ∈ everythingAt relDir t) :
    e.1 = buildRelPath relDir t.attr.name ∨ Below (buildRelPath relDir t.attr.name) e.1 := by
  match t with
  | .leaf a regular =>
    rw [everythingAt, List.mem_singleton] at h
    exact Or.inl (congrArg Prod.fst h)
  | .link a =>
    rw [everythingAt, List.mem_singleton] at h
    exact Or.inl (congrArg Prod.fst h)
  | .dir a opens reads entries =>
    rw [everythingAt] at h
    rcases List.mem_cons.1 h with rfl | hin
    · exact Or.inl rfl
    · exact Or.inr (pathIn (buildRelPath_ne_nil relDir a.name) entries hin)

theorem pathIn {dir : Bytes} (hdir : dir ≠ []) (ts : List Tree) {e : Bytes × Tree} (h : e ∈ everythingIn dir ts) :
    Below dir e.1 := by
  match ts with
  | [] =>
    rw [everythingIn] at h
    nomatch h
  | t :: ts =>
    rw [everythingIn] at h
    rcases List.mem_append.1 h with hat | hin
    · have hbelow := below_buildRelPath hdir t.attr.name
      rcases pathAt t hat with heq | hunder
      · exact heq ▸ hbelow
      · exact hbelow.trans hunder
    · exact pathIn hdir ts hin

end

/-- The first name of a path after the directory. -/
def component (relDir path : Bytes) : Bytes :=
  (if relDir = [] then path else path.drop (relDir.length + 1)).takeWhile (· ≠ slash)

theorem component_eq {relDir path : Bytes} {name : Name} (hname : slash ∉ name.bytes)
    (h : path = buildRelPath relDir name ∨ Below (buildRelPath relDir name) path) :
    component relDir path = name.bytes := by
  obtain ⟨rest, hrest, rfl⟩ : ∃ rest, rest.head?.all (· = slash) = true ∧ path = buildRelPath relDir name ++ rest := by
    rcases h with rfl | ⟨more, rfl⟩
    · exact ⟨[], rfl, (List.append_nil _).symm⟩
    · exact ⟨slash :: more, rfl, (List.append_cons ..).symm⟩
  have hstrip : (if relDir = [] then buildRelPath relDir name ++ rest
      else (buildRelPath relDir name ++ rest).drop (relDir.length + 1)) = name.bytes ++ rest := by
    unfold buildRelPath
    by_cases hroot : relDir = []
    · rw [if_pos hroot, if_pos hroot]
    · rw [if_neg hroot, if_neg hroot, List.append_assoc, List.drop_append, List.drop_eq_nil_of_le (by omega)]
      simp
  have hall : ∀ b ∈ name.bytes, decide (b ≠ slash) = true := by
    intro b hb
    refine decide_eq_true ?_
    rintro rfl
    exact hname hb
  unfold component
  rw [hstrip, List.takeWhile_append_of_pos hall]
  cases rest with
  | nil => rw [List.takeWhile_nil, List.append_nil]
  | cons b rest =>
    have hb : b = slash := of_decide_eq_true hrest
    rw [List.takeWhile_cons_of_neg (by simp [hb]), List.append_nil]

theorem slash_of_named {ts : List Tree} (h : namedIn ts = true) {u : Tree} (hu : u ∈ ts) :
    slash ∉ u.attr.name.bytes := by
  induction ts with
  | nil => nomatch hu
  | cons t ts ih =>
    obtain ⟨⟨hslash, -⟩, -, hin⟩ : (slash ∉ t.attr.name.bytes ∧
        ∀ u ∈ ts, u.attr.name.bytes ≠ t.attr.name.bytes) ∧ namedAt t = true ∧ namedIn ts = true := by
      simpa [namedIn] using h
    rcases List.mem_cons.1 hu with rfl | hrest
    · exact hslash
    · exact ih hin hrest

mutual

/-- **No two entries have the same path.** -/
theorem nodupAt (relDir : Bytes) (t : Tree) (h : namedAt t = true) : ((everythingAt relDir t).map Prod.fst).Nodup := by
  match t with
  | .leaf a regular => simp [everythingAt]
  | .link a => simp [everythingAt]
  | .dir a opens reads entries =>
    rw [namedAt] at h
    rw [everythingAt, List.map_cons]
    refine List.nodup_cons.2 ⟨fun hmem => ?_, nodupIn (buildRelPath relDir a.name) entries h⟩
    obtain ⟨e, he, heq⟩ := List.mem_map.1 hmem
    -- what is in a directory has a longer path
    have hlt := (pathIn (buildRelPath_ne_nil relDir a.name) entries he).length_lt
    rw [heq] at hlt
    exact Nat.lt_irrefl _ hlt

theorem nodupIn (relDir : Bytes) (ts : List Tree) (h : namedIn ts = true) :
    ((everythingIn relDir ts).map Prod.fst).Nodup := by
  match ts with
  | [] => simp [everythingIn]
  | t :: ts =>
    obtain ⟨⟨hslash, hother⟩, hat, hin⟩ : (slash ∉ t.attr.name.bytes ∧
        ∀ u ∈ ts, u.attr.name.bytes ≠ t.attr.name.bytes) ∧ namedAt t = true ∧ namedIn ts = true := by
      simpa [namedIn] using h
    rw [everythingIn, List.map_append]
    refine List.nodup_append.2 ⟨nodupAt relDir t hat, nodupIn relDir ts hin, ?_⟩
    rintro p hp q hq rfl
    obtain ⟨e, he, rfl⟩ := List.mem_map.1 hp
    obtain ⟨e', he', heq⟩ := List.mem_map.1 hq
    obtain ⟨u, hu, hat'⟩ := mem_everythingIn.1 he'
    have hfirst := component_eq hslash (pathAt t he)
    have hsecond := component_eq (slash_of_named hin hu) (pathAt u hat')
    rw [heq, hfirst] at hsecond
    exact hother u hu hsecond.symm

end

/-! ### Files -/

def kept (e : Bytes × Tree) : Bool := !e.2.isDirectory && !e.2.attr.excluded

mutual

theorem localFilesAt_eq (relDir : Bytes) (t : Tree) (h : ordinaryAt t = true) :
    localFilesAt relDir t = ((everythingAt relDir t).filter kept).map Prod.fst := by
  match t with
  | .leaf a regular =>
    have hregular : regular = true := h
    rw [localFilesAt, everythingAt, hregular]
    cases he : a.excluded <;> simp [kept, Tree.isDirectory, Tree.attr, he]
  | .link a => nomatch h
  | .dir a opens reads entries =>
    obtain ⟨hexcluded, hentries⟩ : a.excluded = false ∧ ordinaryIn entries = true := by simpa [ordinaryAt] using h
    have hskip : kept (buildRelPath relDir a.name, .dir a opens reads entries) = false := rfl
    rw [localFilesAt, if_neg (by rw [hexcluded]; nofun), everythingAt, List.filter_cons_of_neg (by rw [hskip]; nofun)]
    exact localFilesIn_eq (buildRelPath relDir a.name) entries hentries

theorem localFilesIn_eq (relDir : Bytes) (ts : List Tree) (h : ordinaryIn ts = true) :
    localFilesIn relDir ts = ((everythingIn relDir ts).filter kept).map Prod.fst := by
  match ts with
  | [] => rw [localFilesIn, everythingIn]; rfl
  | t :: ts =>
    obtain ⟨hat, hin⟩ : ordinaryAt t = true ∧ ordinaryIn ts = true := by simpa [ordinaryIn] using h
    rw [localFilesIn, everythingIn, List.filter_append, List.map_append, localFilesAt_eq relDir t hat,
      localFilesIn_eq relDir ts hin]

end

namespace LocalTree

variable {T : LocalTree}

theorem paths_nodup (T : LocalTree) : (T.everything.map Prod.fst).Nodup := nodupIn T.root.relDir T.root.entries T.named

/-- A path is the path of one entry. -/
theorem entry_unique {e e' : Bytes × Tree} (he : e ∈ T.everything) (he' : e' ∈ T.everything) (h : e.1 = e'.1) : e = e' :=
  List.inj_on_of_nodup_map T.paths_nodup he he' h

theorem mem_files {p : Bytes} : p ∈ T.files ↔ ∃ t, (p, t) ∈ T.everything ∧ t.isDirectory = false := by
  simp [files]

theorem mem_dirs {p : Bytes} : p ∈ T.dirs ↔ ∃ t, (p, t) ∈ T.everything ∧ t.isDirectory = true := by
  simp [dirs]

theorem mem_excluded {p : Bytes} : p ∈ T.excluded ↔ ∃ t, (p, t) ∈ T.everything ∧ t.attr.excluded = true := by
  simp [excluded]

theorem not_mem_files {p : Bytes} (h : p ∈ T.dirs) : p ∉ T.files := by
  intro hfile
  obtain ⟨t, ht, hdir⟩ := mem_dirs.1 h
  obtain ⟨u, hu, hnot⟩ := mem_files.1 hfile
  have heq : t = u := congrArg Prod.snd (entry_unique ht hu rfl)
  rw [heq, hnot] at hdir
  nomatch hdir

theorem localFiles_eq (T : LocalTree) : localFiles T.root = (T.everything.filter kept).map Prod.fst :=
  localFilesIn_eq T.root.relDir T.root.entries T.ordinary

theorem mem_localFiles {p : Bytes} : p ∈ localFiles T.root ↔ p ∈ T.files ∧ p ∉ T.excluded := by
  rw [localFiles_eq, mem_files, mem_excluded]
  constructor
  · intro h
    obtain ⟨e, he, rfl⟩ := List.mem_map.1 h
    obtain ⟨hmem, hkept⟩ := List.mem_filter.1 he
    obtain ⟨hdir, hexcluded⟩ : e.2.isDirectory = false ∧ e.2.attr.excluded = false := by simpa [kept] using hkept
    refine ⟨⟨e.2, hmem, hdir⟩, ?_⟩
    rintro ⟨u, hu, hyes⟩
    have heq : u = e.2 := congrArg Prod.snd (entry_unique hu hmem rfl)
    rw [heq, hexcluded] at hyes
    nomatch hyes
  · rintro ⟨⟨t, ht, hdir⟩, hnot⟩
    have hexcluded : t.attr.excluded = false := by
      cases he : t.attr.excluded with
      | false => rfl
      | true => exact absurd ⟨t, ht, he⟩ hnot
    exact List.mem_map.2 ⟨(p, t), List.mem_filter.2 ⟨ht, by simp [kept, hdir, hexcluded]⟩, rfl⟩

end LocalTree

/-! ### Directories -/

section Dirs

variable {fileInRemote : RemotePredicate} {fn : Bytes → Bool} {p : Bytes}

/-- A directory adds the directories in it that are not in the remote set. -/
theorem mem_extraDirs_processDir (d : PendingDir) (ctx : ScanCtx) :
    p ∈ (processDir fileInRemote (some fn) true d ctx).extraDirs ↔
      p ∈ ctx.extraDirs ∨ fn p = false ∧ ∃ t ∈ seen d, t.isDirectory = true ∧ p = buildRelPath d.relDir t.attr.name := by
  unfold processDir
  induction seen d generalizing ctx with
  | nil => simp
  | cons t ts ih =>
    have hadd : p ∈ (ctx.add fileInRemote (some fn) true d.relDir t).extraDirs ↔ p ∈ ctx.extraDirs ∨
        fn p = false ∧ t.isDirectory = true ∧ p = buildRelPath d.relDir t.attr.name := by
      unfold ScanCtx.add
      dsimp only
      cases hdir : t.isDirectory with
      | false =>
        rw [if_neg Bool.false_ne_true]
        split <;> simp
      | true =>
        rw [if_pos rfl, if_pos rfl, Option.any_some]
        cases hfn : fn (buildRelPath d.relDir t.attr.name) with
        | true =>
          have hnot : ¬ (fn p = false ∧ p = buildRelPath d.relDir t.attr.name) := by
            rintro ⟨hp, rfl⟩
            rw [hfn] at hp
            nomatch hp
          simpa using fun hp heq => absurd ⟨hp, heq⟩ hnot
        | false =>
          have hyes : p = buildRelPath d.relDir t.attr.name → fn p = false := by
            rintro rfl
            exact hfn
          simpa using or_congr_right ⟨fun heq => ⟨hyes heq, heq⟩, And.right⟩
    rw [List.foldl_cons, ih, hadd]
    simp only [List.mem_cons, exists_eq_or_imp]
    tauto

theorem mem_extraDirs_foldl (ds : List PendingDir) (ctx : ScanCtx) :
    p ∈ (ds.foldl (fun c d => processDir fileInRemote (some fn) true d c) ctx).extraDirs ↔
      p ∈ ctx.extraDirs ∨
        fn p = false ∧ ∃ d ∈ ds, ∃ t ∈ seen d, t.isDirectory = true ∧ p = buildRelPath d.relDir t.attr.name := by
  induction ds generalizing ctx with
  | nil => simp
  | cons d ds ih =>
    rw [List.foldl_cons, ih, mem_extraDirs_processDir, or_assoc, ← and_or_left]
    simp only [List.mem_cons, exists_eq_or_imp]

theorem mem_extraDirs_merge (merged : List ScanCtx) (result : ScanCtx) :
    p ∈ (merged.foldl (ScanCtx.finishWorker true) result).extraDirs ↔
      p ∈ result.extraDirs ∨ ∃ ctx ∈ merged, p ∈ ctx.extraDirs := by
  induction merged generalizing result with
  | nil => simp
  | cons ctx merged ih =>
    have hone : p ∈ (ScanCtx.finishWorker true result ctx).extraDirs ↔ p ∈ result.extraDirs ∨ p ∈ ctx.extraDirs :=
      List.mem_append
    rw [List.foldl_cons, ih, hone]
    simp only [List.mem_cons, exists_eq_or_imp]
    tauto

end Dirs

/-- A directory is listed and is not left out, so it is seen. -/
theorem mem_seen_of_dir {d : PendingDir} (hlisted : listed d = true) (hordinary : ordinaryIn d.entries = true) {t : Tree}
    (hdir : t.isDirectory = true) : t ∈ seen d ↔ t ∈ d.entries := by
  rw [seen_of_listed hlisted, List.mem_filter]
  refine ⟨And.left, fun ht => ⟨ht, ?_⟩⟩
  have hat : ∀ ts, ordinaryIn ts = true → listedIn ts = true → t ∈ ts → ordinaryAt t = true ∧ listedAt t = true := by
    intro ts hts hlist hmem
    induction ts with
    | nil => exact absurd hmem List.not_mem_nil
    | cons u us ih =>
      obtain ⟨hu, hus⟩ : ordinaryAt u = true ∧ ordinaryIn us = true := by simpa [ordinaryIn] using hts
      obtain ⟨hlu, hlus⟩ : listedAt u = true ∧ listedIn us = true := by simpa [listedIn] using hlist
      rcases List.mem_cons.1 hmem with rfl | hrest
      · exact ⟨hu, hlu⟩
      · exact ih hus hlus hrest
  have hentries : listedIn d.entries = true := (by simpa [listed] using hlisted : _ ∧ _).2
  obtain ⟨hok, hlist⟩ := hat d.entries hordinary hentries ht
  rw [passes_of_listedAt hlist]
  cases t with
  | leaf a regular => cases hdir
  | link a => cases hok
  | dir a opens reads entries =>
    obtain ⟨hexcluded, -⟩ : a.excluded = false ∧ ordinaryIn entries = true := by simpa [ordinaryAt] using hok
    simp [Tree.attr, hexcluded]

theorem ordinary_of_pending {relDir : Bytes} {t : Tree} {c : PendingDir} {ts : List Tree} (h : ordinaryIn ts = true)
    (ht : t ∈ ts) (hc : t.pending relDir = some c) : ordinaryIn c.entries = true := by
  induction ts with
  | nil => nomatch ht
  | cons u us ih =>
    obtain ⟨hu, hus⟩ : ordinaryAt u = true ∧ ordinaryIn us = true := by simpa [ordinaryIn] using h
    rcases List.mem_cons.1 ht with rfl | hrest
    · cases t with
      | leaf a regular => nomatch hc
      | link a => nomatch hc
      | dir a opens reads entries =>
        obtain ⟨-, hentries⟩ : a.excluded = false ∧ ordinaryIn entries = true := by simpa [ordinaryAt] using hu
        obtain rfl := Option.some.inj hc
        exact hentries
    · exact ih hus hrest

theorem isDirectory_of_pending {relDir : Bytes} {t : Tree} {c : PendingDir} (hc : t.pending relDir = some c) :
    t.isDirectory = true := by
  cases t with
  | leaf a regular => nomatch hc
  | link a => nomatch hc
  | dir a opens reads entries => rfl

/-- **Where no listing fails, the walk sees every directory.** -/
theorem dirsSeen_iff (d : PendingDir) (hlisted : listed d = true) (hordinary : ordinaryIn d.entries = true) {p : Bytes} :
    (∃ d' ∈ localTree.all d, ∃ t ∈ seen d', t.isDirectory = true ∧ p = buildRelPath d'.relDir t.attr.name) ↔
      ∃ t, (p, t) ∈ everythingIn d.relDir d.entries ∧ t.isDirectory = true := by
  induction d using localTree.finite.induction with
  | _ d ih =>
    have hsubdir : ∀ {c t}, t ∈ d.entries → t.pending d.relDir = some c → c ∈ subdirs d := by
      intro c t ht hc
      have hseen := (mem_seen_of_dir hlisted hordinary (isDirectory_of_pending hc)).2 ht
      exact List.mem_filterMap.2 ⟨t, hseen, hc⟩
    have hbelow : ∀ c ∈ subdirs d,
        ((∃ d' ∈ localTree.all c, ∃ t ∈ seen d', t.isDirectory = true ∧ p = buildRelPath d'.relDir t.attr.name) ↔
          ∃ t, (p, t) ∈ everythingIn c.relDir c.entries ∧ t.isDirectory = true) := by
      intro c hc
      obtain ⟨t, ht, hpending⟩ := List.mem_filterMap.1 hc
      have hmem := (mem_seen_of_dir hlisted hordinary (isDirectory_of_pending hpending)).1 ht
      exact ih c hc (listed_of_mem_subdirs hlisted hc) (ordinary_of_pending hordinary hmem hpending)
    rw [localTree.all_eq]
    constructor
    · rintro ⟨d', hd', t, ht, hdir, rfl⟩
      rcases List.mem_cons.1 hd' with rfl | hrest
      · have hmem := (mem_seen_of_dir hlisted hordinary hdir).1 ht
        exact ⟨t, mem_everythingIn.2 ⟨t, hmem, mem_everythingAt.2 (Or.inl rfl)⟩, hdir⟩
      · obtain ⟨c, hc, hin⟩ := List.mem_flatMap.1 hrest
        obtain ⟨u, hu, hudir⟩ := (hbelow c hc).1 ⟨d', hin, t, ht, hdir, rfl⟩
        obtain ⟨v, hv, hpending⟩ := List.mem_filterMap.1 hc
        have hmem := (mem_seen_of_dir hlisted hordinary (isDirectory_of_pending hpending)).1 hv
        exact ⟨u, mem_everythingIn.2 ⟨v, hmem, mem_everythingAt.2 (Or.inr ⟨c, hpending, hu⟩)⟩, hudir⟩
    · rintro ⟨t, ht, hdir⟩
      obtain ⟨v, hv, hat⟩ := mem_everythingIn.1 ht
      rcases mem_everythingAt.1 hat with heq | ⟨c, hpending, hin⟩
      · obtain ⟨rfl, rfl⟩ := Prod.mk.inj heq
        have hseen := (mem_seen_of_dir hlisted hordinary hdir).2 hv
        exact ⟨d, List.mem_cons_self, t, hseen, hdir, rfl⟩
      · have hc := hsubdir hv hpending
        obtain ⟨d', hd', hrest⟩ := (hbelow c hc).2 ⟨t, hin, hdir⟩
        exact ⟨d', List.mem_cons_of_mem d (List.mem_flatMap.2 ⟨c, hc, hd'⟩), hrest⟩

/-! ### The result of the scan -/

namespace LocalTree

section Scan

variable {T : LocalTree} {E : Type} {remoteFiles remoteDirs : Bytes → Bool} {numWorkers : ℕ} {hpos : 0 < numWorkers}
  {walk : DirWalk.State PendingDir ScanCtx E} (hlisted : listed T.root = true)
  (hinv : walk.Inv (scanCall T.root (some remoteFiles) (some remoteDirs) true numWorkers hpos))
  (hfin : walk.finished (scanCall T.root (some remoteFiles) (some remoteDirs) true numWorkers hpos))
  (hok : walk.thrown = [])

include hlisted hinv hfin hok

theorem extraFiles_nodup : (scanResult true (walk.merged.map Prod.snd)).extraFiles.Nodup := by
  refine (extraFiles_perm hinv hfin hok hlisted).nodup_iff.2 (List.Nodup.filter _ ?_)
  rw [T.localFiles_eq]
  exact T.paths_nodup.sublist (List.filter_sublist.map Prod.fst)

theorem mem_extraFiles {p : Bytes} : p ∈ (scanResult true (walk.merged.map Prod.snd)).extraFiles ↔
    p ∈ T.files ∧ remoteFiles p = false ∧ p ∉ T.excluded := by
  rw [(extraFiles_perm hinv hfin hok hlisted).mem_iff, List.mem_filter, mem_localFiles, Bool.not_eq_true']
  tauto

theorem mem_extraDirs {p : Bytes} : p ∈ (scanResult true (walk.merged.map Prod.snd)).extraDirs ↔
    p ∈ T.dirs ∧ remoteDirs p = false := by
  have hctx : ∀ m ∈ walk.merged, (p ∈ m.2.extraDirs ↔ remoteDirs p = false ∧ ∃ d ∈ walk.processed m.1,
      ∃ t ∈ seen d, t.isDirectory = true ∧ p = buildRelPath d.relDir t.attr.name) := by
    intro m hm
    rw [hinv.merged.ctx m hm, hinv.merged.folded hok m.1]
    refine (mem_extraDirs_foldl (walk.processed m.1) {}).trans ?_
    simp
  have hall := processed_perm hinv hfin hok
  change p ∈ sortPaths _ ↔ _
  rw [(sortPaths_perm _).mem_iff, mem_extraDirs_merge, mem_dirs]
  have hseen := dirsSeen_iff T.root hlisted T.ordinary (p := p)
  constructor
  · rintro (hnone | ⟨ctx, hmem, hp⟩)
    · nomatch hnone
    obtain ⟨m, hm, rfl⟩ := List.mem_map.1 hmem
    obtain ⟨hremote, d, hd, hrest⟩ := (hctx m hm).1 hp
    have hin : d ∈ localTree.all T.root := hall.mem_iff.1 (List.mem_flatMap.2 ⟨m, hm, hd⟩)
    exact ⟨hseen.1 ⟨d, hin, hrest⟩, hremote⟩
  · rintro ⟨hdir, hremote⟩
    obtain ⟨d, hd, hrest⟩ := hseen.2 hdir
    obtain ⟨m, hm, hin⟩ := List.mem_flatMap.1 (hall.mem_iff.2 hd)
    exact Or.inr ⟨m.2, List.mem_map.2 ⟨m, hm, rfl⟩, (hctx m hm).2 ⟨hremote, d, hin, hrest⟩⟩

end Scan

end LocalTree

end FastClone.MirrorDelete
