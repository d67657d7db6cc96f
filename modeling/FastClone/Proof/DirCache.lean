import FastClone.Proof.Paths
import FastClone.Spec.DirCache

/-!
# What the directory cache knows

`mem_run`: the keys of a cache are exactly the cuts of the directories that the worker has made sure of. On POSIX a cut
is a directory or what repeated `parent_path` makes of it, on Windows what stands before a backslash behind the volume
root. In every spelling that gives such a key, a cut names a directory on the way (`Lawful.above`), so
`known_was_ensured`: **what the cache knows was made sure of, or lies above what was.** `known_exists` says what that is
good for, and `ancestors_hit` and `ancestors_hit_windows` that the ancestors are known.
-/

namespace FastClone.DirCache

open FastClone.Delta FastClone.Paths FileTree

/-! ### Names and separators -/

section Components

variable {α : Type} {sep : α → Bool}

/-- Separators at the end bring no name. -/
theorem components_rdropWhile (s : List α) : components sep (s.rdropWhile sep) = components sep s := by
  induction s using List.reverseRecOn with
  | nil => rfl
  | append_singleton s c ih =>
    by_cases hc : sep c = true
    · have hnil : components sep ([] : List α) = [] := rfl
      rw [List.rdropWhile_concat_pos _ _ _ hc, ih, components_append hc, hnil, List.append_nil]
    · rw [List.rdropWhile_concat_neg _ _ _ hc]

theorem components_of_all {s : List α} (h : ∀ c ∈ s, sep c = true) : components sep s = [] := by
  have hnil : s.rdropWhile sep = [] := List.rdropWhile_eq_nil_iff.2 h
  rw [← components_rdropWhile, hnil]
  rfl

/-- Up to a separator the names are the first ones. -/
theorem components_prefix_of_sep {c : α} (hc : sep c = true) (a b : List α) :
    components sep a <+: components sep (a ++ c :: b) := by
  rw [components_append hc]
  exact List.prefix_append _ _

/-- So they are up to the last separator. -/
theorem components_prefix_of_last (s : List α) :
    components sep (s.rdropWhile fun c => !sep c) <+: components sep s := by
  rcases List.eq_nil_or_concat (s.rdropWhile fun c => !sep c) with hnil | ⟨dir, c, hdir⟩
  · rw [hnil]
    exact List.nil_prefix
  · -- what is left ends with a separator, which brings no name
    have hne : (s.rdropWhile fun c => !sep c) ≠ [] := by simp [hdir]
    have hlast := List.rdropWhile_last_not _ _ hne
    have hc : sep c = true := by simpa [hdir] using hlast
    obtain ⟨name, hname⟩ := List.rdropWhile_prefix (fun c => !sep c) s
    have hs : s = dir ++ c :: name := by
      rw [← hname, hdir]
      simp
    have hnil : components sep ([] : List α) = [] := rfl
    rw [hdir, List.concat_eq_append, components_append hc, hnil, List.append_nil, hs]
    exact components_prefix_of_sep hc dir name

end Components

/-! ### POSIX -/

theorem isAbsolute_of_isPrefix {a b : Bytes} (h : a <+: b) (hne : a ≠ []) : isAbsolute a = isAbsolute b := by
  obtain ⟨rest, rfl⟩ := h
  exact (isAbsolute_append hne rest).symm

/-- The parent is on the way. -/
theorem above_parentPath {s : Bytes} (hne : parentPath s ≠ []) :
    (directoryPosix (parentPath s)).Above (directoryPosix s) := by
  refine ⟨isAbsolute_of_isPrefix (parentPath_isPrefix s) hne, ?_⟩
  show components isSepPosix (parentPath s) <+: components isSepPosix s
  unfold parentPath
  dsimp only
  split
  · exact components_prefix_of_last s
  · rw [components_rdropWhile]
    exact components_prefix_of_last s

/-- A key names the directory that it is made of. -/
theorem directoryPosix_keyOf (dir : Bytes) : directoryPosix (keyOfPosix dir) = directoryPosix dir := by
  unfold keyOfPosix
  dsimp only
  split
  · rename_i hnil
    have hall : ∀ c ∈ dir, isSepPosix c = true := List.rdropWhile_eq_nil_iff.1 hnil
    unfold directoryPosix
    rw [components_of_all hall, components_of_all fun c hc => hall c (List.mem_of_mem_take hc)]
    cases dir <;> rfl
  · rename_i hne
    unfold directoryPosix
    rw [components_rdropWhile, isAbsolute_of_isPrefix (List.rdropWhile_prefix _ dir) hne]

theorem above_iterate {s : Bytes} {n : ℕ} (hne : parentPath^[n] s ≠ []) :
    (directoryPosix (parentPath^[n] s)).Above (directoryPosix s) := by
  induction n with
  | zero => exact .refl _
  | succ n ih =>
    rw [Function.iterate_succ_apply'] at hne ⊢
    have hbefore : parentPath^[n] s ≠ [] := by
      intro hnil
      rw [hnil] at hne
      exact hne rfl
    exact (above_parentPath hne).trans (ih hbefore)

/-- A key of `dir`, or of one of its parents. -/
def CutPosix (dir key : Bytes) : Prop := ∃ n, parentPath^[n] dir ≠ [] ∧ key = keyOfPosix (parentPath^[n] dir)

/-- The cuts of a directory: its own key, and the cuts of its parent. -/
theorem cutPosix_iff {cur key : Bytes} (hcur : cur ≠ []) :
    CutPosix cur key ↔ key = keyOfPosix cur ∨ CutPosix (parentPath cur) key := by
  constructor
  · rintro ⟨n, hne, rfl⟩
    cases n with
    | zero => exact .inl rfl
    | succ n => exact .inr ⟨n, hne, rfl⟩
  · rintro (rfl | ⟨n, hne, rfl⟩)
    · exact ⟨0, hcur, rfl⟩
    · exact ⟨n + 1, hne, rfl⟩

theorem not_cutPosix_nil (key : Bytes) : ¬ CutPosix [] key := by
  rintro ⟨n, hne, -⟩
  exact hne (Function.iterate_fixed rfl n)

theorem keyOfPosix_ne_nil {dir : Bytes} (h : dir ≠ []) : keyOfPosix dir ≠ [] := by
  unfold keyOfPosix
  dsimp only
  split
  · obtain ⟨c, rest, rfl⟩ := List.exists_cons_of_ne_nil h
    exact List.cons_ne_nil _ _
  · assumption

/-- **What the loop adds.** -/
theorem mem_addWithAncestorsPosix {cur key : Bytes} {known : Finset Bytes} :
    key ∈ addWithAncestorsPosix cur known ↔ key ∈ known ∨ CutPosix cur key := by
  fun_induction addWithAncestorsPosix cur known with
  | case1 known => exact (or_iff_left (not_cutPosix_nil key)).symm
  | case2 cur known hcur key' hkey => exact absurd hkey (keyOfPosix_ne_nil hcur)
  | case3 cur known hcur key' hkey known' hroot =>
    -- above the root directory there is only itself
    have hcut : CutPosix cur key ↔ key = keyOfPosix cur := by
      constructor
      · rintro ⟨n, -, rfl⟩
        rw [Function.iterate_fixed hroot]
      · rintro rfl
        exact ⟨0, hcur, rfl⟩
    rw [Finset.mem_insert, hcut, or_comm]
  | case4 cur known hcur key' hkey known' hroot ih =>
    rw [ih, cutPosix_iff hcur, Finset.mem_insert, or_comm (a := key = key'), or_assoc]

/-! ### Windows -/

/-- A text is what is left of it without the separators at its end, and these. -/
theorem eq_stripSeparators_append (w : Wide) :
    ∃ seps, (∀ c ∈ seps, isSepWindows c = true) ∧ w = stripSeparators w ++ seps :=
  ⟨w.rtakeWhile isSepWindows, fun _ hc => List.mem_rtakeWhile_imp hc, List.rdropWhile_append_rtakeWhile.symm⟩

theorem stripSeparators_idem (w : Wide) : stripSeparators (stripSeparators w) = stripSeparators w :=
  List.rdropWhile_idempotent _ w

theorem windowsRoot_of_take_ne {w : Wide} (h : w.take 2 ≠ [wBackslash, wBackslash]) :
    windowsRoot w = if w.head?.any isSepWindows = true then .rooted else .relative :=
  if_neg fun hdouble => h hdouble.1

/-- Where a text starts is seen in what stands before its last separators, if there is anything. -/
theorem windowsRoot_append {key : Wide} (hne : key ≠ []) (hkey : stripSeparators key = key) (rest : Wide) :
    windowsRoot (key ++ rest) = windowsRoot key := by
  have hlast := List.rdropWhile_eq_self_iff.1 hkey
  have hbackslash : ∀ {c : UInt16}, isSepWindows c = false → c ≠ wBackslash := by
    rintro c hc rfl
    nomatch hc
  -- the key ends with no separator, so a short one does not begin with two backslashes whatever follows
  match key, hne, hlast with
  | [c₀], _, hlast =>
    have hc₀ : isSepWindows c₀ = false := by simpa using hlast
    simp [windowsRoot, hbackslash hc₀, hc₀]
  | [c₀, c₁], _, hlast =>
    have hc₁ : isSepWindows c₁ = false := by simpa using hlast
    have hlonger : ([c₀, c₁] ++ rest).take 2 ≠ [wBackslash, wBackslash] := by simp [hbackslash hc₁]
    have hself : [c₀, c₁].take 2 ≠ [wBackslash, wBackslash] := by simp [hbackslash hc₁]
    rw [windowsRoot_of_take_ne hlonger, windowsRoot_of_take_ne hself]
    rfl
  | c₀ :: c₁ :: c₂ :: key, _, _ => rfl

/-- Separators alone are the root directory. -/
theorem windowsRoot_of_all {dir : Wide} (hne : dir ≠ []) (hall : ∀ c ∈ dir, isSepWindows c = true) :
    windowsRoot dir = .rooted := by
  obtain ⟨c, rest, rfl⟩ := List.exists_cons_of_ne_nil hne
  have hthird : ((c :: rest)[2]?).any (fun c => !isSepWindows c) = false := by
    cases hget : (c :: rest)[2]? with
    | none => rfl
    | some c₂ =>
      have hc₂ := hall c₂ (List.mem_of_getElem? hget)
      simp [hc₂]
  have hc := hall c List.mem_cons_self
  unfold windowsRoot
  rw [hthird, if_neg fun h => nomatch h.2]
  exact if_pos hc

theorem afterShare_pos {w : Wide} (hne : w ≠ []) (pos : ℕ) : 0 < afterShare w pos := by
  have hlen : 0 < w.length := List.length_pos_iff.2 hne
  unfold afterShare
  split
  · exact hlen
  · split
    · exact hlen
    · exact Nat.succ_pos _

/-- Where two backslashes begin the text, no key ends before the first. -/
theorem volumeRootEnd_pos {w : Wide} (h : w.take 2 = [wBackslash, wBackslash]) : 0 < volumeRootEnd w := by
  have hne : w ≠ [] := by
    rintro rfl
    nomatch h
  have hlen : 0 < w.length := List.length_pos_iff.2 hne
  unfold volumeRootEnd
  split_ifs
  · exact afterShare_pos hne 8
  · omega
  · exact hlen
  · omega
  · exact afterShare_pos hne 2

theorem mem_foldl_insert {β : Type} {f : β → Wide} {key : Wide} {cuts : List β} {known : Finset Wide} :
    key ∈ cuts.foldl (fun known i => insert (f i) known) known ↔ key ∈ known ∨ ∃ i ∈ cuts, key = f i := by
  induction cuts generalizing known with
  | nil => simp
  | cons i cuts ih =>
    rw [List.foldl_cons, ih, Finset.mem_insert]
    constructor
    · rintro ((rfl | hknown) | ⟨j, hj, hkey⟩)
      · exact .inr ⟨i, List.mem_cons_self, rfl⟩
      · exact .inl hknown
      · exact .inr ⟨j, List.mem_cons_of_mem _ hj, hkey⟩
    · rintro (hknown | ⟨j, hj, hkey⟩)
      · exact .inl (.inr hknown)
      · rcases List.mem_cons.1 hj with rfl | hj
        · exact .inl (.inl hkey)
        · exact .inr ⟨j, hj, hkey⟩

/-- `key` is the text `w`, or what stands before one of its backslashes behind the volume root. -/
def CutOf (w key : Wide) : Prop :=
  key = w ∨ ∃ rest, w = key ++ wBackslash :: rest ∧ volumeRootEnd w ≤ key.length

theorem cutOf_iff {w key : Wide} : CutOf w key ↔ key = w ∨
    ∃ i ∈ (List.range' (volumeRootEnd w) (w.length - volumeRootEnd w)).filter fun i => w[i]? = some wBackslash,
      key = w.take i := by
  refine or_congr_right ⟨?_, ?_⟩
  · -- the backslash stands where the key ends
    rintro ⟨rest, hw, hend⟩
    have hlen : w.length = key.length + (rest.length + 1) := by rw [hw, List.length_append, List.length_cons]
    refine ⟨key.length, List.mem_filter.2 ⟨List.mem_range'_1.2 ⟨hend, by omega⟩, ?_⟩, ?_⟩
    · rw [hw]
      simp
    · rw [hw, List.take_left]
  · rintro ⟨i, hi, rfl⟩
    obtain ⟨hrange, hcut⟩ := List.mem_filter.1 hi
    have hi := List.mem_range'_1.1 hrange
    have hget : w[i]? = some wBackslash := by simpa using hcut
    have hlt : i < w.length := by omega
    refine ⟨w.drop (i + 1), ?_, ?_⟩
    · rw [List.getElem?_eq_getElem hlt] at hget
      rw [← Option.some.inj hget, List.getElem_cons_drop, List.take_append_drop]
    · rw [List.length_take]
      omega

/-- A cut of the text without the separators at its end. -/
def CutWindows (dir key : Wide) : Prop := stripSeparators dir ≠ [] ∧ CutOf (stripSeparators dir) key

/-- **What is added**: the directory's text and its cuts. -/
theorem mem_addWithAncestorsWindows {dir key : Wide} {known : Finset Wide} :
    key ∈ addWithAncestorsWindows dir known ↔ key ∈ known ∨ CutWindows dir key := by
  unfold addWithAncestorsWindows CutWindows
  dsimp only
  generalize stripSeparators dir = w
  by_cases hw : w = []
  · rw [if_pos hw]
    exact (or_iff_left fun h => h.1 hw).symm
  · rw [if_neg hw, Finset.mem_insert, mem_foldl_insert, cutOf_iff, and_iff_right hw, or_left_comm]

theorem CutOf.names {w key : Wide} (h : CutOf w key) : components isSepWindows key <+: components isSepWindows w := by
  rcases h with rfl | ⟨rest, rfl, -⟩
  · exact List.prefix_rfl
  · exact components_prefix_of_sep rfl key rest

/-- A cut starts where the text does, also in a longer spelling. -/
theorem CutOf.root {w dir : Wide} (h : CutOf w (stripSeparators dir)) (hw : w ≠ []) (hdir : dir ≠ []) :
    windowsRoot dir = windowsRoot w := by
  obtain ⟨seps, hseps, heq⟩ := eq_stripSeparators_append dir
  have hkey := stripSeparators_idem dir
  by_cases hnone : stripSeparators dir = []
  · -- before the first backslash: one of several would be a volume root
    rw [hnone] at h heq
    obtain ⟨rest, hrest, hend⟩ := h.resolve_left (Ne.symm hw)
    have hone : w.take 2 ≠ [wBackslash, wBackslash] := fun htwo =>
      absurd (volumeRootEnd_pos htwo) (Nat.not_lt.2 hend)
    rw [windowsRoot_of_all hdir (by rw [heq]; exact hseps), windowsRoot_of_take_ne hone, hrest]
    rfl
  · -- otherwise the key shows where both start
    rw [heq, windowsRoot_append hnone hkey]
    rcases h with rfl | ⟨rest, rfl, -⟩
    · rfl
    · exact (windowsRoot_append hnone hkey _).symm

/-- A cut names a directory on the way, in every spelling. -/
theorem CutWindows.above {d dir : Wide} (h : CutWindows d (stripSeparators dir)) (hdir : dir ≠ []) :
    (directoryWindows dir).Above (directoryWindows d) := by
  obtain ⟨hw, hcut⟩ := h
  obtain ⟨seps, -, heq⟩ := eq_stripSeparators_append d
  have hroot : windowsRoot d = windowsRoot (stripSeparators d) := by
    conv_lhs => rw [heq]
    exact windowsRoot_append hw (stripSeparators_idem d) seps
  refine ⟨(hcut.root hw hdir).trans hroot.symm, ?_⟩
  have hnames := hcut.names
  unfold stripSeparators at hnames
  rwa [components_rdropWhile, components_rdropWhile] at hnames

/-! ### Runs -/

/-- What the keys of a platform are like: which ones a directory adds, and what a text with such a key names. -/
structure Lawful {κ ρ : Type} (p : Platform κ) (named : List κ → Directory ρ (List κ))
    (Cut : List κ → List κ → Prop) : Prop where
  parent_ne_nil : ∀ filePath dir, p.parentDirOf filePath = some dir → dir ≠ []
  mem : ∀ d key known, key ∈ p.addWithAncestors d known ↔ key ∈ known ∨ Cut d key
  above : ∀ d dir, dir ≠ [] → Cut d (p.keyOf dir) → (named dir).Above (named d)

theorem posix_lawful : Lawful posix directoryPosix CutPosix where
  parent_ne_nil := by
    intro filePath dir h
    change parentDirOfPosix filePath = some dir at h
    unfold parentDirOfPosix at h
    dsimp only at h
    split at h
    · nomatch h
    · cases h
      assumption
  mem := fun _ _ _ => mem_addWithAncestorsPosix
  above := by
    rintro d dir - ⟨n, hne, hkey⟩
    have hdir : directoryPosix dir = directoryPosix (parentPath^[n] d) := by
      rw [← directoryPosix_keyOf dir, ← directoryPosix_keyOf (parentPath^[n] d)]
      exact congrArg directoryPosix hkey
    rw [hdir]
    exact above_iterate hne

theorem windows_lawful : Lawful windows directoryWindows CutWindows where
  parent_ne_nil := by
    intro filePath dir h
    change parentDirOfWindows filePath = some dir at h
    unfold parentDirOfWindows at h
    dsimp only at h
    split at h
    · nomatch h
    · cases h
      intro hnil
      have hlen := congrArg List.length hnil
      rw [List.length_dropLast, List.length_nil] at hlen
      omega
  mem := fun _ _ _ => mem_addWithAncestorsWindows
  above := fun _ _ hdir hcut => CutWindows.above hcut hdir

section Run

variable {κ ρ : Type} [DecidableEq κ] {p : Platform κ} {named : List κ → Directory ρ (List κ)}
  {Cut : List κ → List κ → Prop}

/-- **One call**: it adds the directory that it makes sure of, with its ancestors, or nothing. -/
theorem ensureParentDirCached_eq (known : Finset (List κ)) (call : Call κ) :
    p.ensureParentDirCached call.filePath known call.ensure =
      match p.ensuredBy known call with
      | none => known
      | some parent => p.addWithAncestors parent known := by
  unfold Platform.ensureParentDirCached Platform.ensuredBy
  cases p.parentDirOf call.filePath with
  | none => rfl
  | some parent =>
    rw [Option.filter_some]
    dsimp only
    cases hknown : p.contains known parent with
    | true => rfl
    | false => cases hensure : call.ensure parent <;> rfl

theorem run_snoc (calls : List (Call κ)) (call : Call κ) : p.run (calls ++ [call]) = p.step (p.run calls) call :=
  List.foldl_append ..

theorem mem_step (hp : Lawful p named Cut) (st : Worker κ) (call : Call κ) (key : List κ) :
    key ∈ (p.step st call).known ↔ key ∈ st.known ∨ ∃ d ∈ p.ensuredBy st.known call, Cut d key := by
  unfold Platform.step
  rw [ensureParentDirCached_eq]
  cases p.ensuredBy st.known call with
  | none => simp
  | some parent => simp [hp.mem]

/-- **The keys**: the cuts of the directories that the worker has made sure of, and no others. -/
theorem mem_run (hp : Lawful p named Cut) (calls : List (Call κ)) (key : List κ) :
    key ∈ (p.run calls).known ↔ ∃ d ∈ (p.run calls).ensured, Cut d key := by
  induction calls using List.reverseRecOn with
  | nil => simp [Platform.run]
  | append_singleton calls call ih =>
    -- the last call brings the cuts of what it made sure of, so the two logs grow together
    rw [run_snoc, mem_step hp, ih]
    simp [Platform.step, or_and_right, exists_or]

/-- A directory that was made sure of comes from a call that succeeded. -/
theorem ensured_by_call {calls : List (Call κ)} {d : List κ} (h : d ∈ (p.run calls).ensured) :
    ∃ call ∈ calls, p.parentDirOf call.filePath = some d ∧ call.ensure d = true := by
  induction calls using List.reverseRecOn with
  | nil => exact absurd h List.not_mem_nil
  | append_singleton calls call ih =>
    rw [run_snoc] at h
    rcases List.mem_append.1 h with hbefore | hnow
    · obtain ⟨before, hmem, hby⟩ := ih hbefore
      exact ⟨before, List.mem_append_left _ hmem, hby⟩
    · obtain ⟨hparent, hensure⟩ := Option.filter_eq_some_iff.1 (Option.mem_toList.1 hnow)
      rw [Bool.and_eq_true] at hensure
      exact ⟨call, List.mem_append_right _ List.mem_cons_self, hparent, hensure.2⟩

/-- **Soundness.** -/
theorem Lawful.sound (hp : Lawful p named Cut) (calls : List (Call κ)) {filePath dir : List κ}
    (hparent : p.parentDirOf filePath = some dir) (hknown : p.contains (p.run calls).known dir = true) :
    ∃ d ∈ (p.run calls).ensured, (named dir).Above (named d) := by
  obtain ⟨d, hd, hcut⟩ := (mem_run hp calls _).1 (of_decide_eq_true hknown)
  exact ⟨d, hd, hp.above d dir (hp.parent_ne_nil filePath dir hparent) hcut⟩

/-- A cut of a directory that was made sure of is a hit. -/
theorem Lawful.hit (hp : Lawful p named Cut) (calls : List (Call κ)) {d dir : List κ}
    (hd : d ∈ (p.run calls).ensured) (hcut : Cut d (p.keyOf dir)) : p.contains (p.run calls).known dir = true :=
  decide_eq_true ((mem_run hp calls _).2 ⟨d, hd, hcut⟩)

/-- **What it is good for**: in a file system in which the directories that the calls made are still there, a directory
that the cache knows is there too. -/
theorem known_exists (hp : Lawful p named Cut) {Node : Type} (t : Tree Node ρ (List κ)) (calls : List (Call κ))
    (hmade : ∀ call ∈ calls, ∀ d, call.ensure d = true → t.Has (named d)) {filePath dir : List κ}
    (hparent : p.parentDirOf filePath = some dir) (hknown : p.contains (p.run calls).known dir = true) :
    t.Has (named dir) := by
  obtain ⟨d, hd, habove⟩ := hp.sound calls hparent hknown
  obtain ⟨call, hcall, -, hensure⟩ := ensured_by_call hd
  exact (hmade call hcall d hensure).above habove

/-- A failed creation adds nothing. -/
theorem known_of_failed (st : Worker κ) {call : Call κ}
    (h : ∀ parent, p.parentDirOf call.filePath = some parent → call.ensure parent = false) :
    (p.step st call).known = st.known := by
  unfold Platform.step Platform.ensureParentDirCached
  dsimp only
  cases hparent : p.parentDirOf call.filePath with
  | none => rfl
  | some parent =>
    dsimp only
    rw [h parent hparent]
    split <;> rfl

end Run

/-- The ancestors of a directory that was made sure of are known. -/
theorem ancestors_hit (calls : List (Call UInt8)) {d : Bytes} (hd : d ∈ (posix.run calls).ensured) {n : ℕ}
    (hne : parentPath^[n] d ≠ []) : posix.contains (posix.run calls).known (parentPath^[n] d) = true :=
  posix_lawful.hit calls hd ⟨n, hne, rfl⟩

/-- On Windows these are the ones behind the volume root, as far as backslashes separate them. -/
theorem ancestors_hit_windows (calls : List (Call UInt16)) {d dir rest : Wide} (hd : d ∈ (windows.run calls).ensured)
    (hcut : stripSeparators d = stripSeparators dir ++ wBackslash :: rest)
    (hend : volumeRootEnd (stripSeparators d) ≤ (stripSeparators dir).length) :
    windows.contains (windows.run calls).known dir = true := by
  have hne : stripSeparators d ≠ [] := by simp [hcut]
  exact windows_lawful.hit calls hd ⟨hne, .inr ⟨rest, hcut, hend⟩⟩

/-- **What the cache knows was made sure of, or lies above what was**, after any calls and for every text that
`ParentDirOf` gives; a failed creation leaves the cache as it was. -/
theorem known_was_ensured :
    (∀ (calls : List (Call UInt8)) (filePath dir : Bytes), posix.parentDirOf filePath = some dir →
      posix.contains (posix.run calls).known dir = true →
      ∃ d ∈ (posix.run calls).ensured, (directoryPosix dir).Above (directoryPosix d)) ∧
    (∀ (calls : List (Call UInt16)) (filePath dir : Wide), windows.parentDirOf filePath = some dir →
      windows.contains (windows.run calls).known dir = true →
      ∃ d ∈ (windows.run calls).ensured, (directoryWindows dir).Above (directoryWindows d)) ∧
    (∀ (calls : List (Call UInt8)) (call : Call UInt8),
      (∀ parent, posix.parentDirOf call.filePath = some parent → call.ensure parent = false) →
      (posix.step (posix.run calls) call).known = (posix.run calls).known) ∧
    ∀ (calls : List (Call UInt16)) (call : Call UInt16),
      (∀ parent, windows.parentDirOf call.filePath = some parent → call.ensure parent = false) →
      (windows.step (windows.run calls) call).known = (windows.run calls).known := by
  refine ⟨?_, ?_, ?_, ?_⟩
  · intro calls filePath dir hparent hknown
    exact posix_lawful.sound calls hparent hknown
  · intro calls filePath dir hparent hknown
    exact windows_lawful.sound calls hparent hknown
  · intro calls call hfailed
    exact known_of_failed (posix.run calls) hfailed
  · intro calls call hfailed
    exact known_of_failed (windows.run calls) hfailed

/-- `/a/b/f` and then `/a/x`, `C:\a\b\f` and then `C:\a/x`, and a call that fails on each platform. -/
theorem known_was_ensured_nested :
    let calls : List (Call UInt8) := [⟨[47, 97, 47, 98, 47, 102], fun _ => true⟩]
    let callsWindows : List (Call UInt16) := [⟨[67, 58, 92, 97, 92, 98, 92, 102], fun _ => true⟩]
    (∃ d ∈ (posix.run calls).ensured, (directoryPosix [47, 97]).Above (directoryPosix d)) ∧
      (∃ d ∈ (windows.run callsWindows).ensured, (directoryWindows [67, 58, 92, 97]).Above (directoryWindows d)) ∧
      (posix.step (posix.run calls) ⟨[47, 99, 47, 102], fun _ => false⟩).known = (posix.run calls).known ∧
      (windows.step (windows.run callsWindows) ⟨[67, 58, 92, 99, 92, 102], fun _ => false⟩).known =
        (windows.run callsWindows).known := by
  intro calls callsWindows
  have hknown : posix.contains (posix.run calls).known [47, 97] = true :=
    ancestors_hit calls (d := [47, 97, 47, 98]) (by decide) (n := 1) (by decide)
  have hparent : posix.parentDirOf [47, 97, 47, 120] = some [47, 97] := by decide
  have hcut : stripSeparators [67, 58, 92, 97, 92, 98] = stripSeparators [67, 58, 92, 97] ++ wBackslash :: [98] := by
    decide
  have hknownWindows : windows.contains (windows.run callsWindows).known [67, 58, 92, 97] = true :=
    ancestors_hit_windows callsWindows (by decide) hcut (by decide)
  have hparentWindows : windows.parentDirOf [67, 58, 92, 97, 47, 120] = some [67, 58, 92, 97] := by decide
  exact ⟨known_was_ensured.1 calls _ _ hparent hknown,
    known_was_ensured.2.1 callsWindows _ _ hparentWindows hknownWindows,
    known_was_ensured.2.2.1 calls _ fun _ _ => rfl,
    known_was_ensured.2.2.2 callsWindows _ fun _ _ => rfl⟩

end FastClone.DirCache
