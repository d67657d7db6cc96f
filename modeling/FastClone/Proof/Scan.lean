import FastClone.Spec.Scan
import FastClone.Proof.Ingest
import FastClone.Proof.Wire

/-!
# What the mirror delete may delete

`mirror_delete_iff`: whenever the client removes local files, what it has as the server's files are
the files that the walk saw. So no file of the server is removed from any local tree exactly if no
file was hidden from the walk (`ServerTree.shown`). The server tells nobody about a directory that
does not open or an entry that cannot be examined, and ends the manifest all the same.
-/

namespace FastClone.Scan

open FastClone.Delta FastClone.Wire FastClone.Frames Runs

/-! ### Walks and trees -/

theorem scan_leaf (sized : Bool) (relDir : Bytes) (a : Attr) (regular : Bool) :
    (Tree.leaf a regular).scan sized relDir =
      if (Tree.leaf a regular).passes sized then [(Tree.leaf a regular).entry relDir] else [] := by
  rw [Tree.scan]

theorem scan_link (sized : Bool) (relDir : Bytes) (a : Attr) :
    (Tree.link a).scan sized relDir =
      if (Tree.link a).passes sized then [(Tree.link a).entry relDir] else [] := by
  rw [Tree.scan]

theorem scan_dir (sized : Bool) (relDir : Bytes) (a : Attr) (opens : Bool) (reads : ℕ) (entries : List Tree) :
    (Tree.dir a opens reads entries).scan sized relDir =
      if (Tree.dir a opens reads entries).passes sized then
        (Tree.dir a opens reads entries).entry relDir ::
          (PendingDir.mk (buildRelPath relDir a.name) opens reads entries).scan sized
      else [] := by
  rw [Tree.scan, PendingDir.scan]

/-- What a walk sees at an entry is the entry, and what it sees in the directory. -/
theorem scan_entry (sized : Bool) (relDir : Bytes) (t : Tree) : t.scan sized relDir =
    if t.passes sized then
      t.entry relDir :: ((t.pending relDir).toList.flatMap (PendingDir.scan sized)) else [] := by
  cases t with
  | leaf a regular => simp [scan_leaf, Tree.pending]
  | link a => simp [scan_link, Tree.pending]
  | dir a opens reads entries => simp [scan_dir, Tree.pending]

theorem scanTake_perm (sized : Bool) (relDir : Bytes) (n : ℕ) (ts : List Tree) :
    (scanTake sized relDir n ts).Perm
      (((ts.take n).filter (Tree.passes sized)).map (Tree.entry relDir) ++
        (((ts.take n).filter (Tree.passes sized)).filterMap (Tree.pending relDir)).flatMap
          (PendingDir.scan sized)) := by
  induction ts generalizing n with
  | nil => cases n <;> simp [scanTake]
  | cons t ts ih =>
    cases n with
    | zero => simp [scanTake]
    | succ n =>
      rw [scanTake, scan_entry, List.take_succ_cons]
      cases hp : t.passes sized with
      | false => simpa [hp] using ih n
      | true =>
        cases hd : t.pending relDir with
        | none => simpa [hp, hd] using ih n
        | some d =>
          simp only [hp, if_true, Option.toList_some, List.flatMap_cons, List.flatMap_nil, List.append_nil,
            List.filter_cons, List.map_cons, List.filterMap_cons_some hd, List.cons_append]
          refine List.Perm.cons _ (((ih n).append_left _).trans ?_)
          exact List.perm_append_comm_assoc _ _ _

/-- **A directory's part of the walk** is its own listing and the parts of the directories in it. -/
theorem scan_perm (sized : Bool) (d : PendingDir) :
    (d.scan sized).Perm ((d.listing sized).1 ++ (d.listing sized).2.flatMap (PendingDir.scan sized)) := by
  have hscan : d.scan sized = if d.opens then scanTake sized d.relDir d.reads d.entries else [] := rfl
  rw [hscan, PendingDir.listing]
  cases d.opens with
  | false => simp
  | true => simpa using scanTake_perm sized d.relDir d.reads d.entries

theorem scan_multiset (sized : Bool) (d : PendingDir) : (d.scan sized : Multiset FileEntry) =
    ((d.listing sized).1 : Multiset FileEntry) +
      Worklist.under (fun d' => (d'.scan sized : Multiset FileEntry)) (d.listing sized).2 := by
  rw [Multiset.coe_eq_coe.2 (scan_perm sized d), ← Multiset.coe_add, Worklist.under_coe]

/-! ### Frames -/

theorem decode_entryFrame {e : FileEntry} {f : Frame} (h : entryFrame e = some f) :
    f.type = MsgType.manifestEntry.toByte ∧ decodeManifestEntry f.payload = .ok (e, []) := by
  obtain ⟨bs, hcodes⟩ := codes_manifestEntry e
  unfold entryFrame at h
  by_cases hok : (Message.manifestEntry e).Encodable
  · rw [hcodes.writes.done hok] at h
    cases h
    refine ⟨rfl, ?_⟩
    simpa using hcodes.reads hok []
  · obtain ⟨err, herr⟩ := hcodes.writes.fails hok []
    rw [herr] at h
    cases h

/-- The entry a frame carries. -/
def carries (f : Frame) : Multiset FileEntry :=
  if f.type = MsgType.manifestEntry.toByte then
    match decodeManifestEntry f.payload with
    | .ok (e, _) => {e}
    | .error _ => 0
  else 0

theorem carries_entryFrame {e : FileEntry} {f : Frame} (h : entryFrame e = some f) : carries f = {e} := by
  obtain ⟨htype, hdec⟩ := decode_entryFrame h
  simp [carries, htype, hdec]

theorem mem_carries {e : FileEntry} {f : Frame} (h : e ∈ carries f) :
    f.type = MsgType.manifestEntry.toByte ∧ ∃ rest, decodeManifestEntry f.payload = .ok (e, rest) := by
  unfold carries at h
  split at h
  · rename_i htype
    split at h
    · rename_i e' rest hdec
      rw [Multiset.mem_singleton.1 h]
      exact ⟨htype, rest, hdec⟩
    · simp at h
  · simp at h

theorem mapM_entryFrame {es : List FileEntry} {frames : List Frame} (h : es.mapM entryFrame = some frames) :
    Worklist.meant carries frames = (es : Multiset FileEntry) ∧
      ∀ f ∈ frames, f.type = MsgType.manifestEntry.toByte := by
  induction es generalizing frames with
  | nil =>
    cases h
    exact ⟨rfl, by simp⟩
  | cons e es ih =>
    rw [List.mapM_cons] at h
    cases hf : entryFrame e with
    | none => simp [hf] at h
    | some f =>
      cases hes : es.mapM entryFrame with
      | none => simp [hf, hes] at h
      | some fs =>
        simp only [hf, hes, Option.bind_eq_bind, Option.bind_some, Option.pure_def, Option.some.injEq] at h
        subst h
        obtain ⟨hmeant, htypes⟩ := ih hes
        refine ⟨?_, ?_⟩
        · have hcons : Worklist.meant carries (f :: fs) = carries f + Worklist.meant carries fs := by
            simp [Worklist.meant]
          rw [hcons, carries_entryFrame hf, hmeant]
          rfl
        · intro g hg
          rcases List.mem_cons.1 hg with rfl | hg
          · exact (decode_entryFrame hf).1
          · exact htypes g hg

theorem listOneDir_eq {d : PendingDir} {frames : List Frame} {ds : List PendingDir}
    (h : listOneDir d = some (frames, ds)) :
    (d.listing true).1.mapM entryFrame = some frames ∧ ds = (d.listing true).2 := by
  unfold listOneDir at h
  obtain ⟨frames', hm, heq⟩ := Option.map_eq_some_iff.1 h
  cases heq
  exact ⟨hm, rfl⟩

/-- The server's walk collects what the walk sees. -/
theorem collects_server (cfg : Config) : Worklist.Collects cfg.walk isProgress
    (fun d => (d.scan true : Multiset FileEntry)) carries where
  list d frames ds h := by
    obtain ⟨hm, rfl⟩ := listOneDir_eq h
    rw [(mapM_entryFrame hm).1]
    exact scan_multiset true d
  quiet f h := by
    have htype : f.type = MsgType.manifestProgress.toByte := of_decide_eq_true h
    have hne : f.type ≠ MsgType.manifestEntry.toByte := by
      rw [htype]
      decide
    simp [carries, hne]

theorem extrasOf_append (remoteFiles : AList fun _ : Bytes => FileEntry) (es es' : List FileEntry) :
    extrasOf remoteFiles (es ++ es') = extrasOf remoteFiles es ++ extrasOf remoteFiles es' := by
  simp [extrasOf]

theorem collects_extras (L : PendingDir) (remoteFiles : AList fun _ : Bytes => FileEntry) (n : ℕ) (hn : 0 < n) :
    Worklist.Collects (extraWalk L remoteFiles n hn) (fun _ => false)
      (fun d => (removeLocalExtras d remoteFiles : Multiset Bytes)) (fun p => {p}) where
  list d ps ds h := by
    cases h
    have hperm : (removeLocalExtras d remoteFiles).Perm (extrasOf remoteFiles (d.listing false).1 ++
        (d.listing false).2.flatMap fun d' => removeLocalExtras d' remoteFiles) := by
      refine List.Perm.trans (((scan_perm false d).filter _).map _) ?_
      show (extrasOf remoteFiles _).Perm _
      rw [extrasOf_append]
      refine List.Perm.of_eq (congrArg _ ?_)
      induction (d.listing false).2 with
      | nil => rfl
      | cons d' ds ih =>
        rw [List.flatMap_cons, extrasOf_append, ih, List.flatMap_cons]
        rfl
    rw [Multiset.coe_eq_coe.2 hperm, ← Multiset.coe_add, Worklist.meant_singleton, Worklist.under_coe]
  quiet _ h := nomatch h

/-- **The client's walk, in any order**: what a finished walk has collected are the files that
`removeLocalExtras` says. -/
theorem extraWalk_finished {L : PendingDir} {remoteFiles : AList fun _ : Bytes => FileEntry} {n : ℕ} {hn : 0 < n}
    {s : Worklist.State PendingDir Bytes}
    (hr : (Worklist.machine (extraWalk L remoteFiles n hn) fun _ => false).Reach (fun _ _ => True) s)
    (hfin : s.finished (extraWalk L remoteFiles n hn)) (hf : s.failed = false) (hs : s.stopped = false) :
    s.out.Perm (removeLocalExtras L remoteFiles) := by
  have hk := Worklist.kept_of_reach (collects_extras L remoteFiles n hn) hr
  have hall := hk.collected_of_finished hfin hf hs
  rw [Worklist.meant_singleton] at hall
  exact Multiset.coe_eq_coe.1 hall

/-! ### What is hidden -/

/-- The paths of the files among entries. -/
def filePaths (es : List FileEntry) : List Bytes :=
  (es.filter fun e => !e.isDirectory).map FileEntry.relativePath

@[simp]
theorem filePaths_nil : filePaths [] = [] := rfl

@[simp]
theorem filePaths_append (es es' : List FileEntry) : filePaths (es ++ es') = filePaths es ++ filePaths es' := by
  simp [filePaths]

theorem filePaths_dir (relDir : Bytes) (a : Attr) (opens : Bool) (reads : ℕ) (entries : List Tree)
    (es : List FileEntry) :
    filePaths ((Tree.dir a opens reads entries).entry relDir :: es) = filePaths es := by
  simp [filePaths, Tree.entry, Tree.isDirectory]

theorem filePaths_leaf (relDir : Bytes) (a : Attr) (regular : Bool) :
    filePaths [(Tree.leaf a regular).entry relDir] = [buildRelPath relDir a.name] := rfl

theorem filePaths_link (relDir : Bytes) (a : Attr) : filePaths [(Tree.link a).entry relDir] = [] := rfl

/-- A directory whose listing a walk does not get to see. -/
theorem filePaths_scan_dir (sized : Bool) (relDir : Bytes) (a : Attr) (opens : Bool) (reads : ℕ)
    (entries : List Tree) : filePaths ((Tree.dir a opens reads entries).scan sized relDir) =
      if (!a.excluded && !a.statusFails && opens) = true then
        filePaths (scanTake sized (buildRelPath relDir a.name) reads entries) else [] := by
  rw [scan_dir]
  simp only [Tree.passes, Tree.attr, Bool.and_true]
  cases a.excluded <;> cases a.statusFails <;> cases opens <;> simp [filePaths_dir, PendingDir.scan]

mutual

/-- A walk sees no file that is not there. -/
theorem scan_sublist (sized : Bool) (relDir : Bytes) (t : Tree) :
    (filePaths (t.scan sized relDir)).Sublist (t.files relDir) := by
  match t with
  | .leaf a regular =>
    rw [scan_leaf, Tree.files]
    cases regular with
    | false => simp [Tree.passes]
    | true =>
      split
      · exact List.Sublist.refl _
      · exact List.nil_sublist _
  | .link a =>
    rw [scan_link, Tree.files]
    split
    · exact List.Sublist.refl _
    · exact List.Sublist.refl _
  | .dir a opens reads entries =>
    rw [filePaths_scan_dir, Tree.files]
    split
    · exact scanTake_sublist sized (buildRelPath relDir a.name) reads entries
    · exact List.nil_sublist _

theorem scanTake_sublist (sized : Bool) (relDir : Bytes) (n : ℕ) (ts : List Tree) :
    (filePaths (scanTake sized relDir n ts)).Sublist (filesAll relDir ts) := by
  match n, ts with
  | 0, ts => simp [scanTake]
  | n + 1, [] => simp [scanTake]
  | n + 1, t :: ts =>
    rw [scanTake, filePaths_append, filesAll]
    exact (scan_sublist sized relDir t).append (scanTake_sublist sized relDir n ts)

end

mutual

theorem holdsFile_iff (relDir : Bytes) (t : Tree) : t.holdsFile = false ↔ t.files relDir = [] := by
  match t with
  | .leaf a regular => cases regular <;> simp [Tree.holdsFile, Tree.files]
  | .link a => simp [Tree.holdsFile, Tree.files]
  | .dir a opens reads entries =>
    rw [Tree.holdsFile, Tree.files]
    exact holdsFileAny_iff (buildRelPath relDir a.name) entries

theorem holdsFileAny_iff (relDir : Bytes) (ts : List Tree) : holdsFileAny ts = false ↔ filesAll relDir ts = [] := by
  match ts with
  | [] => simp [holdsFileAny, filesAll]
  | t :: ts =>
    rw [holdsFileAny, filesAll, Bool.or_eq_false_iff, List.append_eq_nil_iff, holdsFile_iff relDir t,
      holdsFileAny_iff relDir ts]

end

/-- Two parts that each may lack something lack nothing together only if neither does. -/
theorem append_eq_of_sublist {α : Type} {xs xs' ys ys' : List α} (hx : xs.Sublist xs') (hy : ys.Sublist ys') :
    xs ++ ys = xs' ++ ys' ↔ xs = xs' ∧ ys = ys' := by
  constructor
  · intro h
    have hlen := congrArg List.length h
    simp only [List.length_append] at hlen
    have hxlen := hx.length_le
    have hylen := hy.length_le
    exact ⟨hx.eq_of_length (by omega), hy.eq_of_length (by omega)⟩
  · rintro ⟨rfl, rfl⟩
    rfl

/-- A directory that hides its files or shows them: `shows` where the listing is seen. -/
theorem hidden_iff (relDir : Bytes) (ts : List Tree) {shows : Bool} {seen : List Bytes}
    (hsub : seen.Sublist (filesAll relDir ts)) {passes : Bool}
    (hshows : shows = true ↔ seen = filesAll relDir ts) :
    (!holdsFileAny ts || (passes && shows)) = true ↔ (if passes = true then seen else []) = filesAll relDir ts := by
  cases hany : holdsFileAny ts with
  | false =>
    -- nothing to hide
    rw [(holdsFileAny_iff relDir ts).1 hany] at hsub ⊢
    obtain rfl : seen = [] := by simpa using hsub
    simp
  | true =>
    have hne : filesAll relDir ts ≠ [] := by
      intro hnil
      rw [(holdsFileAny_iff relDir ts).2 hnil] at hany
      cases hany
    cases passes with
    | true => simpa using hshows
    | false => simpa using Ne.symm hne

mutual

/-- **Exactly what is shown is seen whole.** -/
theorem shown_iff (relDir : Bytes) (t : Tree) :
    t.shown = true ↔ filePaths (t.scan true relDir) = t.files relDir := by
  match t with
  | .leaf a regular =>
    rw [scan_leaf, Tree.files, Tree.shown]
    cases regular with
    | false => simp [Tree.passes]
    | true =>
      have hpass : (Tree.leaf a true).passes true = (!a.excluded && !a.statusFails && !a.sizeFails) := by
        simp [Tree.passes, Tree.attr]
      rw [hpass]
      cases !a.excluded && !a.statusFails && !a.sizeFails with
      | false => simp
      | true => simp [filePaths_leaf]
  | .link a =>
    rw [scan_link, Tree.files, Tree.shown]
    split <;> simp [filePaths_link]
  | .dir a opens reads entries =>
    rw [filePaths_scan_dir, Tree.files, Tree.shown]
    exact hidden_iff (buildRelPath relDir a.name) entries
      (scanTake_sublist true (buildRelPath relDir a.name) reads entries)
      (shownTake_iff (buildRelPath relDir a.name) reads entries)

theorem shownTake_iff (relDir : Bytes) (n : ℕ) (ts : List Tree) :
    shownTake n ts = true ↔ filePaths (scanTake true relDir n ts) = filesAll relDir ts := by
  match n, ts with
  | 0, ts =>
    rw [shownTake, scanTake, Bool.not_eq_true', holdsFileAny_iff relDir ts]
    exact eq_comm
  | n + 1, [] => simp [shownTake, scanTake, filesAll]
  | n + 1, t :: ts =>
    rw [shownTake, scanTake, filesAll, filePaths_append, Bool.and_eq_true,
      append_eq_of_sublist (scan_sublist true relDir t) (scanTake_sublist true relDir n ts),
      shown_iff relDir t, shownTake_iff relDir n ts]

end

theorem root_sublist (sized : Bool) (d : PendingDir) : (filePaths (d.scan sized)).Sublist d.files := by
  unfold PendingDir.scan PendingDir.files
  split
  · exact scanTake_sublist sized d.relDir d.reads d.entries
  · exact List.nil_sublist _

/-- A walk of the server's tree misses no file exactly if none is hidden. -/
theorem ServerTree.shown_iff (T : ServerTree) : T.shown = true ↔ ∀ p ∈ T.files, p ∈ filePaths (T.root.scan true) := by
  have hsub := scanTake_sublist true T.root.relDir T.root.reads T.root.entries
  have hscan : filePaths (T.root.scan true) = if T.root.opens = true then
      filePaths (scanTake true T.root.relDir T.root.reads T.root.entries) else [] := by
    unfold PendingDir.scan
    split <;> rfl
  have hiff : T.shown = true ↔ filePaths (T.root.scan true) = T.root.files := by
    rw [hscan]
    exact hidden_iff T.root.relDir T.root.entries hsub
      (shownTake_iff T.root.relDir T.root.reads T.root.entries)
  rw [hiff]
  constructor
  · intro h p hp
    rw [h]
    exact hp
  · intro h
    -- as many as there are, because no two have the same path
    refine (root_sublist true T.root).eq_of_length_le ?_
    exact (T.distinct.subperm h).length_le

/-! ### A tree that hides nothing -/

def Attr.clear (a : Attr) : Attr :=
  { a with
    excluded := false
    statusFails := false
    sizeFails := false }

mutual

/-- The same files, in a tree where every question is answered. -/
def Tree.clear : Tree → Tree
  | .leaf a regular => .leaf a.clear regular
  | .link a => .link a.clear
  | .dir a _ _ entries => .dir a.clear true entries.length (clearAll entries)

def clearAll : List Tree → List Tree
  | [] => []
  | t :: ts => t.clear :: clearAll ts

end

def PendingDir.clear (d : PendingDir) : PendingDir := ⟨d.relDir, true, d.entries.length, clearAll d.entries⟩

mutual

theorem scan_clear (relDir : Bytes) (t : Tree) : filePaths (t.clear.scan false relDir) = t.files relDir := by
  match t with
  | .leaf a regular =>
    rw [Tree.clear, scan_leaf, Tree.files]
    cases regular with
    | false => simp [Tree.passes]
    | true => rfl
  | .link a =>
    rw [Tree.clear, scan_link, Tree.files]
    rfl
  | .dir a opens reads entries =>
    rw [Tree.clear, filePaths_scan_dir, Tree.files]
    exact scanTake_clear (buildRelPath relDir a.name) entries

theorem scanTake_clear (relDir : Bytes) (ts : List Tree) :
    filePaths (scanTake false relDir ts.length (clearAll ts)) = filesAll relDir ts := by
  match ts with
  | [] => rfl
  | t :: ts =>
    rw [clearAll, List.length_cons, scanTake, filePaths_append, filesAll, scan_clear relDir t,
      scanTake_clear relDir ts]

end

theorem PendingDir.scan_clear (d : PendingDir) : filePaths (d.clear.scan false) = d.files :=
  scanTake_clear d.relDir d.entries

/-- What is removed: the files the client sees and does not find in the manifest. -/
theorem mem_removeLocalExtras {L : PendingDir} {remoteFiles : AList fun _ : Bytes => FileEntry} {p : Bytes} :
    p ∈ removeLocalExtras L remoteFiles ↔ p ∈ filePaths (L.scan false) ∧ p ∉ remoteFiles := by
  simp only [removeLocalExtras, extrasOf, filePaths, List.mem_map, List.mem_filter, Bool.and_eq_true,
    decide_eq_true_eq]
  constructor
  · rintro ⟨e, ⟨he, hdir, hnot⟩, rfl⟩
    exact ⟨⟨e, ⟨he, hdir⟩, rfl⟩, hnot⟩
  · rintro ⟨⟨e, ⟨he, hdir⟩, rfl⟩, hnot⟩
    exact ⟨e, ⟨he, hdir, hnot⟩, rfl⟩

/-- If the client has the files that the server's walk saw, the removal spares the server's files in
every local tree exactly if none is hidden. -/
theorem spares_iff (T : ServerTree) {remoteFiles : AList fun _ : Bytes => FileEntry}
    (h : ∀ p, p ∈ remoteFiles ↔ p ∈ filePaths (T.root.scan true)) :
    (∀ L : PendingDir, L.relDir = [] → ∀ p ∈ removeLocalExtras L remoteFiles, p ∉ T.files) ↔
      T.shown = true := by
  rw [T.shown_iff]
  constructor
  · intro hall p hp
    by_contra hnot
    refine hall T.root.clear T.top p (mem_removeLocalExtras.2 ⟨?_, fun hmem => hnot ((h p).1 hmem)⟩) hp
    rw [PendingDir.scan_clear]
    exact hp
  · intro hall L _ p hp hfile
    exact (mem_removeLocalExtras.1 hp).2 ((h p).2 (hall p hfile))

/-! ### Runs of both -/

variable {cfg : Config} {s s' : State}

/-- What the walk hands over: entries, and numbers in between. -/
def IsBody (f : Frame) : Prop :=
  f.type = MsgType.manifestEntry.toByte ∨ f.type = MsgType.manifestProgress.toByte

theorem IsBody.manifest {f : Frame} (h : IsBody f) : Ingest.isManifestFrame f = true := by
  rcases h with h | h <;> simp [Ingest.isManifestFrame, h]

theorem IsBody.not_end {f : Frame} (h : IsBody f) : f.type ≠ MsgType.manifestEnd.toByte := by
  rcases h with h | h <;> rw [h] <;> decide

/-- The walk is over, and neither failed nor was told to stop. -/
structure Complete (cfg : Config) (s : State) : Prop where
  finished : s.walk.finished cfg.walk
  failed : s.walk.failed = false
  stopped : s.walk.stopped = false

/-- The invariant: the first connection carries what was handed over, in order, and the end is handed over
last, when the walk is complete. -/
structure Linked (cfg : Config) (s : State) : Prop where
  walk : Worklist.Kept cfg.walk (fun d => (d.scan true : Multiset FileEntry)) carries s.walk
  body : (∀ f ∈ s.walk.out, IsBody f) ∧ ∀ w, ∀ f ∈ s.walk.buffer w, IsBody f
  tail : s.tail = [] ∨ ∃ count, s.tail = [progressFrame count, endFrame] ∧ Complete cfg s
  sent : (s.ingest.lanes 0).sent.filter Ingest.isManifestFrame = s.outbound.take s.sent
  bound : s.sent ≤ s.outbound.length
  ingest : (Ingest.machine cfg.ingest).Reach (Ingest.Orderly 0) s.ingest

theorem Linked.start : Linked cfg (.start cfg) where
  walk := Worklist.Kept.start
  body := ⟨by simp [State.start, Worklist.State.start], by simp [State.start, Worklist.State.start]⟩
  tail := .inl rfl
  sent := rfl
  bound := Nat.le_refl 0
  ingest := .init

/-- All but the end. -/
theorem Linked.front (h : Linked cfg s) : ∃ front, (∀ f ∈ front, IsBody f) ∧
    (s.outbound = front ∨ (s.outbound = front ++ [endFrame] ∧ Complete cfg s)) := by
  unfold State.outbound
  rcases h.tail with htail | ⟨count, htail, hcomplete⟩
  · exact ⟨s.walk.out, h.body.1, .inl (by rw [htail, List.append_nil])⟩
  · refine ⟨s.walk.out ++ [progressFrame count], fun f hf => ?_, .inr ⟨by simp [htail], hcomplete⟩⟩
    rcases List.mem_append.1 hf with hf | hf
    · exact h.body.1 f hf
    · rw [List.mem_singleton.1 hf]
      exact .inr rfl

/-- As long as something is left to send, the end has not gone out. -/
theorem Linked.end_last (h : Linked cfg s) (hlt : s.sent < s.outbound.length) :
    ∀ g ∈ s.outbound.take s.sent, g.type ≠ MsgType.manifestEnd.toByte := by
  intro g hg
  obtain ⟨front, hfront, heq | ⟨heq, -⟩⟩ := h.front
  · rw [heq] at hg
    exact (hfront g (List.mem_of_mem_take hg)).not_end
  · rw [heq, List.length_append, List.length_singleton] at hlt
    rw [heq, List.take_append_of_le_length (by omega)] at hg
    exact (hfront g (List.mem_of_mem_take hg)).not_end

theorem Linked.outbound_manifest (h : Linked cfg s) {f : Frame} (hf : f ∈ s.outbound) :
    Ingest.isManifestFrame f = true := by
  obtain ⟨front, hfront, heq | ⟨heq, -⟩⟩ := h.front
  · exact (hfront f (heq ▸ hf)).manifest
  · rw [heq] at hf
    rcases List.mem_append.1 hf with hf | hf
    · exact (hfront f hf).manifest
    · rw [List.mem_singleton.1 hf]
      rfl

theorem Linked.walkStep (h : Linked cfg s) {e : Worklist.Event Frame} {walk : Worklist.State PendingDir Frame}
    (htail : s.tail = []) (hw : s.walk.step cfg.walk isProgress e = some walk) :
    Linked cfg { s with walk } := by
  obtain ⟨more, hmore⟩ := Worklist.out_step hw
  have hout : s.outbound = s.walk.out := by rw [State.outbound, htail, List.append_nil]
  have hout' : State.outbound { s with walk } = s.outbound ++ more := by
    rw [hout, ← hmore]
    simp [State.outbound, htail]
  refine ⟨h.walk.step (collects_server cfg) hw, ?_, .inl htail, ?_, ?_, h.ingest⟩
  · refine Worklist.emitted_step (fun d frames ds hl f hf => ?_) (fun f hf => ?_) hw h.body
    · exact .inl ((mapM_entryFrame (listOneDir_eq hl).1).2 f hf)
    · exact .inr (of_decide_eq_true hf)
  · rw [hout', List.take_append_of_le_length h.bound]
    exact h.sent
  · rw [hout', List.length_append]
    exact Nat.le_add_right_of_le h.bound

theorem Linked.endManifest (h : Linked cfg s) (count : Bytes) (htail : s.tail = []) (hc : Complete cfg s) :
    Linked cfg { s with tail := [progressFrame count, endFrame] } := by
  obtain ⟨hw, hbody, -, hsent, hbound, hingest⟩ := h
  have hout : s.outbound = s.walk.out := by rw [State.outbound, htail, List.append_nil]
  rw [hout] at hsent hbound
  refine ⟨hw, hbody, .inr ⟨count, rfl, hc.finished, hc.failed, hc.stopped⟩, ?_, ?_, hingest⟩
  · rw [State.outbound, List.take_append_of_le_length hbound]
    exact hsent
  · rw [State.outbound, List.length_append]
    exact Nat.le_add_right_of_le hbound

/-- A step of the client keeps its run orderly. -/
theorem reach_step {e : Ingest.Event} {ingest ingest' : Ingest.State}
    (h : (Ingest.machine cfg.ingest).Reach (Ingest.Orderly 0) ingest)
    (hs : ingest.step cfg.ingest e = some ingest') (hok : Ingest.Orderly 0 ingest e) :
    (Ingest.machine cfg.ingest).Reach (Ingest.Orderly 0) ingest' := by
  have hcan : (Ingest.machine cfg.ingest).can ingest e := by simp [Ingest.machine, hs]
  have hnext : (Ingest.machine cfg.ingest).next ingest e = ingest' := by simp [Ingest.machine, hs]
  rw [← hnext]
  exact .step h hcan hok

theorem Linked.send (h : Linked cfg s) {f : Frame} {ingest : Ingest.State} (hf : s.outbound[s.sent]? = some f)
    (hs : s.ingest.step cfg.ingest (.serverSends 0 f) = some ingest) :
    Linked cfg
      { s with
        sent := s.sent + 1
        ingest } := by
  obtain ⟨hlt, hget⟩ := List.getElem?_eq_some_iff.1 hf
  have hman := h.outbound_manifest (hget ▸ List.getElem_mem hlt)
  have hsent : (ingest.lanes 0).sent = (s.ingest.lanes 0).sent ++ [f] := by
    simpa [Ingest.Event.sends] using Ingest.step_sent hs 0
  -- nothing was sent after the end
  have horderly : Ingest.Orderly 0 s.ingest (.serverSends 0 f) := by
    refine ⟨fun _ => ⟨rfl, fun g hg hend => ?_⟩, fun _ => rfl⟩
    refine h.end_last hlt g ?_ hend
    rw [← h.sent]
    exact List.mem_filter.2 ⟨hg, by simp [Ingest.isManifestFrame, hend]⟩
  refine ⟨h.walk, h.body, ?_, ?_, hlt, reach_step h.ingest hs horderly⟩
  · rcases h.tail with htail | ⟨count, htail, hc⟩
    · exact .inl htail
    · exact .inr ⟨count, htail, hc.finished, hc.failed, hc.stopped⟩
  · show (ingest.lanes 0).sent.filter Ingest.isManifestFrame = s.outbound.take (s.sent + 1)
    rw [hsent, List.filter_append, h.sent, List.take_add_one, hf]
    simp [hman]

theorem Linked.client (h : Linked cfg s) {e : Ingest.Event} {ingest : Ingest.State} (hb : besides e = true)
    (hs : s.ingest.step cfg.ingest e = some ingest) : Linked cfg { s with ingest } := by
  have hnone : (e.sends 0).filter Ingest.isManifestFrame = [] := by
    cases e with
    | serverSends l f =>
      have hf : Ingest.isManifestFrame f = false := by simpa [besides] using hb
      simp only [Ingest.Event.sends]
      split <;> simp [hf]
    | _ => rfl
  have horderly : Ingest.Orderly 0 s.ingest e := by
    cases e with
    | serverSends l f =>
      have hf : Ingest.isManifestFrame f = false := by simpa [besides] using hb
      simp only [Ingest.isManifestFrame, Bool.or_eq_false_iff, decide_eq_false_iff_not] at hf
      exact ⟨fun ht => absurd ht hf.1.1, fun ht => absurd ht hf.2⟩
    | _ => trivial
  refine ⟨h.walk, h.body, ?_, ?_, h.bound, reach_step h.ingest hs horderly⟩
  · rcases h.tail with htail | ⟨count, htail, hc⟩
    · exact .inl htail
    · exact .inr ⟨count, htail, hc.finished, hc.failed, hc.stopped⟩
  · show (ingest.lanes 0).sent.filter Ingest.isManifestFrame = s.outbound.take s.sent
    rw [Ingest.step_sent hs 0, List.filter_append, hnone, List.append_nil]
    exact h.sent

theorem Linked.step (h : Linked cfg s) {e : Event} (hs : s.step cfg e = some s') : Linked cfg s' := by
  cases e with
  | walk e =>
    simp only [State.step] at hs
    split at hs
    · rename_i htail
      obtain ⟨walk, hw, rfl⟩ := Option.map_eq_some_iff.1 hs
      exact h.walkStep htail hw
    · cases hs
  | endManifest count =>
    simp only [State.step] at hs
    split at hs
    · rename_i hcan
      cases hs
      exact h.endManifest count hcan.1 ⟨hcan.2.1, hcan.2.2.1, hcan.2.2.2⟩
    · cases hs
  | send =>
    simp only [State.step] at hs
    split at hs
    · cases hs
    · rename_i f hf
      obtain ⟨ingest, hi, rfl⟩ := Option.map_eq_some_iff.1 hs
      exact h.send hf hi
  | client e =>
    simp only [State.step] at hs
    split at hs
    · rename_i hb
      obtain ⟨ingest, hi, rfl⟩ := Option.map_eq_some_iff.1 hs
      exact h.client hb hi
    · cases hs

theorem linked_of_reach {ok : State → Event → Prop} (h : (machine cfg).Reach ok s) : Linked cfg s := by
  refine h.invariant Linked.start fun s e hl hc _ => ?_
  obtain ⟨s', heq⟩ := Option.isSome_iff_exists.1 hc
  have hnext : (machine cfg).next s e = s' := by simp [machine, heq]
  rw [hnext]
  exact hl.step heq

/-! ### The mirror delete -/

/-- Once the end has gone out, everything has, and the walk was complete: an entry was seen exactly if
a frame with it was sent. -/
theorem Linked.seen_iff (h : Linked cfg s) {fe : Frame} (hfe : fe ∈ (s.ingest.lanes 0).sent)
    (hend : fe.type = MsgType.manifestEnd.toByte) (e : FileEntry) :
    e ∈ cfg.tree.root.scan true ↔ ∃ f ∈ (s.ingest.lanes 0).sent, e ∈ carries f := by
  have hfeOut : fe ∈ s.outbound.take s.sent := by
    rw [← h.sent]
    exact List.mem_filter.2 ⟨hfe, by simp [Ingest.isManifestFrame, hend]⟩
  have hall : s.sent = s.outbound.length := by
    by_contra hne
    exact h.end_last (lt_of_le_of_ne h.bound hne) fe hfeOut hend
  have hsent := h.sent
  rw [hall, List.take_length] at hsent hfeOut
  obtain ⟨count, htail, hcomplete⟩ : ∃ count, s.tail = [progressFrame count, endFrame] ∧ Complete cfg s := by
    refine h.tail.resolve_left fun hnil => ?_
    rw [State.outbound, hnil, List.append_nil] at hfeOut
    exact (h.body.1 fe hfeOut).not_end hend
  have hwalked := h.walk.collected_of_finished hcomplete.finished hcomplete.failed hcomplete.stopped
  rw [← Multiset.mem_coe]
  change e ∈ (cfg.walk.root.scan true : Multiset FileEntry) ↔ _
  rw [← hwalked, Worklist.mem_meant]
  constructor
  · rintro ⟨f, hf, he⟩
    have hmem : f ∈ (s.ingest.lanes 0).sent.filter Ingest.isManifestFrame := by
      rw [hsent, State.outbound]
      exact List.mem_append_left _ hf
    exact ⟨f, (List.mem_filter.1 hmem).1, he⟩
  · rintro ⟨f, hf, he⟩
    have hentry := (mem_carries he).1
    have hmem : f ∈ s.outbound := by
      rw [← hsent]
      exact List.mem_filter.2 ⟨hf, by simp [Ingest.isManifestFrame, hentry]⟩
    rw [State.outbound, htail] at hmem
    rcases List.mem_append.1 hmem with hmem | hmem
    · exact ⟨f, hmem, he⟩
    · -- the last two frames are no entries
      simp only [List.mem_cons, List.not_mem_nil, or_false] at hmem
      rcases hmem with rfl | rfl
      · exact absurd hentry (by simp only [progressFrame]; decide)
      · exact absurd hentry (by decide)

/-- **What the client has as the server's files.** When it removes local files, these are the files
that the walk saw. -/
theorem Linked.remoteFiles_iff (h : Linked cfg s) (hmain : s.ingest.main = .removing) (p : Bytes) :
    p ∈ s.ingest.remoteFiles ↔ p ∈ filePaths (cfg.tree.root.scan true) := by
  have hannounced := Ingest.announced_of_reach h.ingest
  rcases Ingest.kept_of_reach h.ingest with hthrown | ⟨done, hc⟩
  · rw [hmain] at hthrown
    cases hthrown
  have hgated : s.ingest.main.gated = true := by
    rw [hmain]
    rfl
  obtain ⟨fe, hfe, hfeSent, hend⟩ := hc.end_processed hannounced hgated
  have hseen := h.seen_iff hfeSent hend
  simp only [filePaths, List.mem_map, List.mem_filter, Bool.not_eq_true']
  constructor
  · intro hp
    obtain ⟨l, f, hf, hentry, e, rest, hdec, hdir, rfl⟩ := Ingest.told_of_reach h.ingest p hp
    obtain rfl : l = 0 := hannounced.alone l f hf (.inl hentry)
    exact ⟨e, ⟨(hseen e).2 ⟨f, hf, by simp [carries, hentry, hdec]⟩, hdir⟩, rfl⟩
  · rintro ⟨e, ⟨he, hdir⟩, rfl⟩
    obtain ⟨f, hf, hcarry⟩ := (hseen e).1 he
    obtain ⟨hentry, rest, hdec⟩ := mem_carries hcarry
    obtain ⟨e', rest', hdec', hrecorded⟩ := hc.entry_processed hannounced hfe hend hf hentry
    rw [hdec] at hdec'
    cases hdec'
    simpa [Ingest.State.Recorded, hdir] using hrecorded

/-- **Mirror delete.** Take any server tree with any pattern of listing failures, any number of walkers
in any order, connections that fail, and any schedule of the client's threads. Whenever the client comes
to remove local files, the files it removes from a local tree are no files of the server, whatever the
local tree, exactly if the walk had no file hidden from it. -/
theorem mirror_delete_iff (h : (machine cfg).Reach (fun _ _ => True) s) (hmain : s.ingest.main = .removing) :
    (∀ L : PendingDir, L.relDir = [] → ∀ p ∈ removeLocalExtras L s.ingest.remoteFiles, p ∉ cfg.tree.files) ↔
      cfg.tree.shown = true :=
  spares_iff cfg.tree ((linked_of_reach h).remoteFiles_iff hmain)

def plain (c : UInt8) : Attr where
  name := ⟨[c], by simp⟩
  excluded := false
  statusFails := false
  sizeFails := false
  fileSize := 5
  mtimeNs := 7

/-- A directory `d` with a file `f` in it. -/
def oneFile (opens : Bool) : PendingDir := ⟨[], true, 1, [.dir (plain 100) opens 1 [.leaf (plain 102) true]]⟩

def oneFileServer (opens : Bool) : Config where
  ingest := ⟨0, 1⟩
  tree := ⟨oneFile opens, rfl, by simp [PendingDir.files, oneFile, filesAll, Tree.files]⟩
  numWorkers := 1
  numWorkers_pos := Nat.one_pos

/-- One walker lists both directories; then the manifest goes out and is processed. -/
def oneFileRun (entries : ℕ) : List Event :=
  [.walk (.pop 0), .walk (.list 0 0), .walk (.push 0), .walk (.pop 0), .walk (.list 0 0), .walk (.push 0),
    .walk (.leave 0), .endManifest [1, 0, 0, 0, 0, 0, 0, 0]] ++
  (List.replicate (entries + 2) [Event.send, .client (.receive 0)]).flatten ++
  [.client (.flush 0), .client .failoverScan, .client (.drain 0)] ++
  List.replicate (entries + 2) (.client (.process false)) ++
  [.client .failoverScan, .client .leave, .client .gate]

theorem mirror_delete_spares :
    ((machine (oneFileServer true)).run (.start (oneFileServer true)) (oneFileRun 2)).ingest.main = .removing ∧
      ∀ L : PendingDir, L.relDir = [] → ∀ p ∈ removeLocalExtras L
        ((machine (oneFileServer true)).run (.start (oneFileServer true)) (oneFileRun 2)).ingest.remoteFiles,
        p ∉ (oneFileServer true).tree.files := by
  have hrun : (machine (oneFileServer true)).Allows (fun _ _ => True) (.start (oneFileServer true))
      (oneFileRun 2) := by decide
  have hmain : ((machine (oneFileServer true)).run (.start (oneFileServer true))
      (oneFileRun 2)).ingest.main = .removing := by decide
  exact ⟨hmain, (mirror_delete_iff (Machine.reach_run hrun) hmain).2 (by decide)⟩

/-- The directory `d` does not open for the server. The client has it too, with the same file, and
deletes the file. -/
theorem mirror_delete_loses : ¬ ∀ (cfg : Config) (s : State),
    (machine cfg).Reach (fun _ _ => True) s → s.ingest.main = .removing →
      ∀ L : PendingDir, L.relDir = [] → ∀ p ∈ removeLocalExtras L s.ingest.remoteFiles, p ∉ cfg.tree.files := by
  intro h
  have hrun : (machine (oneFileServer false)).Allows (fun _ _ => True) (.start (oneFileServer false))
      (oneFileRun 1) := by decide
  have hgone := h (oneFileServer false) _ (Machine.reach_run hrun) (by decide) (oneFile true) rfl
    [100, 47, 102] (by decide)
  exact hgone (by decide)

end FastClone.Scan
