import FastClone.Lib.Chains
import FastClone.Spec.EmptyDirs

/-!
# The empty directories: none missed, none unneeded

The loop over the slashes of a file path is a climb from its parent directory that stops at the first
directory already there (`insertAncestors_eq`), so the set holds exactly the named directories above the
files (`mem_dirsWithFiles`). The loop over the sorted list drops a directory only when the next one lies
below it (`pushTasks_covers`), whatever stands between two relatives in the order.

* `dirTasks_covers`: every remote directory is there, or is made with a file or with a task.
* `dirTasks_covers_root`: a directory without a name is made even when files lie below it.
-/

namespace FastClone.EmptyDirs

open FastClone.Delta FastClone.Paths FastClone.ExtraScan

/-! ### Slashes -/

theorem rfind_eq_some {s : Bytes} {c : UInt8} {pos i : ℕ} (h : rfind s c pos = some i) :
    s[i]? = some c ∧ ∀ j, i < j → j ≤ pos → s[j]? ≠ some c := by
  induction pos with
  | zero =>
    unfold rfind at h
    split at h
    · rename_i hc
      cases h
      exact ⟨hc, fun j hj hpos => by omega⟩
    · cases h
  | succ pos ih =>
    unfold rfind at h
    split at h
    · rename_i hc
      cases h
      exact ⟨hc, fun j hj hpos => by omega⟩
    · rename_i hc
      obtain ⟨h1, h2⟩ := ih h
      refine ⟨h1, fun j hj hpos => ?_⟩
      rcases Nat.lt_or_eq_of_le hpos with hlt | rfl
      · exact h2 j hj (Nat.le_of_lt_succ hlt)
      · exact hc

theorem rfind_eq_none {s : Bytes} {c : UInt8} {pos : ℕ} (h : rfind s c pos = none) :
    ∀ j, j ≤ pos → s[j]? ≠ some c := by
  induction pos with
  | zero =>
    unfold rfind at h
    split at h
    · cases h
    · rename_i hc
      intro j hj
      rw [Nat.le_zero.1 hj]
      exact hc
  | succ pos ih =>
    unfold rfind at h
    split at h
    · cases h
    · rename_i hc
      intro j hj
      rcases Nat.lt_or_eq_of_le hj with hlt | rfl
      · exact ih h j (Nat.le_of_lt_succ hlt)
      · exact hc

/-- Two searches over the same occurrences find the same one. -/
theorem rfind_congr {s s' : Bytes} {c : UInt8} {pos pos' : ℕ}
    (h : ∀ j, (j ≤ pos ∧ s[j]? = some c) ↔ (j ≤ pos' ∧ s'[j]? = some c)) : rfind s c pos = rfind s' c pos' := by
  cases hs : rfind s c pos with
  | none =>
    cases hs' : rfind s' c pos' with
    | none => rfl
    | some i =>
      exfalso
      obtain ⟨hi, hc⟩ := (h i).2 ⟨rfind_le hs', (rfind_eq_some hs').1⟩
      exact rfind_eq_none hs i hi hc
  | some i =>
    obtain ⟨hi, hlast⟩ := rfind_eq_some hs
    obtain ⟨hpos, hc⟩ := (h i).1 ⟨rfind_le hs, hi⟩
    cases hs' : rfind s' c pos' with
    | none => exact absurd hc (rfind_eq_none hs' i hpos)
    | some k =>
      obtain ⟨hk, hlast'⟩ := rfind_eq_some hs'
      obtain ⟨hkpos, hkc⟩ := (h k).2 ⟨rfind_le hs', hk⟩
      -- neither of the two last occurrences is before the other
      rcases Nat.lt_trichotomy i k with hik | rfl | hik
      · exact absurd hkc (hlast k hik hkpos)
      · rfl
      · exact absurd hc (hlast' i hik hpos)

/-! ### Directories above a path -/

/-- `p` lies below the directory `d`. -/
def Below (d p : Bytes) : Prop := d ++ [kSlash] <+: p

theorem Below.length_lt {d p : Bytes} (h : Below d p) : d.length < p.length := by
  have hlen := h.length_le
  rw [List.length_append, List.length_singleton] at hlen
  omega

theorem Below.trans {a b c : Bytes} (h : Below a b) (h' : Below b c) : Below a c :=
  List.IsPrefix.trans h (List.IsPrefix.trans (List.prefix_append b [kSlash]) h')

/-- Everything before a slash is a directory above. -/
theorem below_take {p : Bytes} {i : ℕ} (h : p[i]? = some kSlash) : Below (p.take i) p := by
  have hi : i < p.length := by
    rw [List.getElem?_eq_some_iff] at h
    exact h.1
  have hget : p[i] = kSlash := by
    rw [List.getElem?_eq_getElem hi] at h
    exact Option.some.inj h
  refine ⟨p.drop (i + 1), ?_⟩
  rw [← hget, List.append_assoc, List.singleton_append, List.getElem_cons_drop, List.take_append_drop]

theorem Below.slash {d p : Bytes} (h : Below d p) : p[d.length]? = some kSlash ∧ p.take d.length = d := by
  obtain ⟨rest, rfl⟩ := h
  rw [List.append_assoc]
  constructor
  · rw [List.getElem?_append_right le_rfl, Nat.sub_self]
    rfl
  · rw [List.take_left]

/-- The directory a path names its entry in; the empty name does not count. -/
def parentDir (p : Bytes) : Option Bytes :=
  match rfind p kSlash p.length with
  | none => none
  | some i => if p.take i = [] then none else some (p.take i)

theorem parentDir_eq_some {p d : Bytes} (h : parentDir p = some d) : d ≠ [] ∧ Below d p := by
  unfold parentDir at h
  split at h
  · cases h
  · rename_i i hi
    split at h
    · cases h
    · rename_i hne
      cases h
      exact ⟨hne, below_take (rfind_eq_some hi).1⟩

/-- What lies below a named directory has a parent, which is that directory or lies below it. -/
theorem Below.parentDir {d p : Bytes} (hne : d ≠ []) (h : Below d p) :
    ∃ q, parentDir p = some q ∧ (q = d ∨ Below d q) := by
  obtain ⟨hslash, htake⟩ := h.slash
  have hlt := h.length_lt
  unfold EmptyDirs.parentDir
  cases hi : rfind p kSlash p.length with
  | none => exact absurd hslash (rfind_eq_none hi _ (Nat.le_of_lt hlt))
  | some i =>
    obtain ⟨hc, hlast⟩ := rfind_eq_some hi
    -- the last slash is not before the one behind `d`
    have hge : d.length ≤ i := by
      by_contra hlt'
      exact hlast d.length (by omega) (Nat.le_of_lt hlt) hslash
    have hnonempty : p.take i ≠ [] := by
      intro hnil
      have hpre : d <+: p.take i := by
        rw [← htake]
        exact List.take_prefix_take_left hge
      rw [hnil] at hpre
      exact hne (List.prefix_nil.1 hpre)
    dsimp only
    rw [if_neg hnonempty]
    refine ⟨_, rfl, ?_⟩
    rcases Nat.lt_or_eq_of_le hge with hgt | heq
    · right
      -- the last slash lies behind the one that ends `d`
      have hstep : (d ++ [kSlash]).length ≤ i := by
        rw [List.length_append, List.length_singleton]
        omega
      exact List.prefix_take_iff.2 ⟨h, hstep⟩
    · left
      rw [← heq, htake]

/-- The named directories, each under its parent. -/
def directories : Chains.Forest Bytes where
  parent := parentDir
  rank := List.length
  descends _ _ h := (parentDir_eq_some h).2.length_lt

theorem above_iff {p d : Bytes} : directories.Above p d ↔ d = p ∨ (d ≠ [] ∧ Below d p) := by
  constructor
  · intro h
    induction h with
    | refl => exact .inl rfl
    | tail _ hstep ih =>
      obtain ⟨hne, hbelow⟩ := parentDir_eq_some hstep
      rcases ih with rfl | ⟨-, ih⟩
      · exact .inr ⟨hne, hbelow⟩
      · exact .inr ⟨hne, hbelow.trans ih⟩
  · rintro (rfl | ⟨hne, hbelow⟩)
    · exact .refl
    · -- by induction on the length: the parent is `d` or still below it
      induction hn : p.length using Nat.strong_induction_on generalizing p with
      | _ n ih =>
        obtain ⟨q, hq, hd⟩ := hbelow.parentDir hne
        have hlt := (parentDir_eq_some hq).2.length_lt
        rcases hd with rfl | hd
        · exact .single hq
        · exact .head hq (ih q.length (by omega) hd rfl)

/-! ### The directories with files -/

/-- The search from a slash on is the search for the parent's parent. -/
theorem rfind_take {p : Bytes} {slash : ℕ} (hpos : 0 < slash) (hle : slash ≤ p.length) :
    rfind (p.take slash) kSlash (p.take slash).length = rfind p kSlash (slash - 1) := by
  apply rfind_congr
  intro j
  rw [List.length_take, Nat.min_eq_left hle, List.getElem?_take]
  by_cases hj : j < slash
  · rw [if_pos hj]
    constructor
    · rintro ⟨-, hc⟩
      exact ⟨by omega, hc⟩
    · rintro ⟨-, hc⟩
      exact ⟨by omega, hc⟩
  · rw [if_neg hj]
    constructor
    · rintro ⟨-, hc⟩
      cases hc
    · rintro ⟨hle', -⟩
      omega

/-- The loop over the slashes climbs from the directory before the slash. -/
theorem insertAncestors_eq (filePath : Bytes) (slash : ℕ) (dirs : List Bytes) (hle : slash ≤ filePath.length)
    (hne : filePath.take slash ≠ []) :
    insertAncestors filePath slash dirs = directories.mark (filePath.take slash) dirs := by
  -- `mark` climbs to the parent directory, the loop to the next slash on the left: both go on at one place
  fun_induction insertAncestors filePath slash dirs with
  | case1 slash dirs hnil => exact absurd hnil hne
  | case2 slash dirs hnil hmem => rw [Chains.Forest.mark, if_pos hmem]
  | case3 slash dirs hnil hmem hnone =>
    have hpos : 0 < slash := by
      rw [Nat.pos_iff_ne_zero]
      rintro rfl
      exact hne List.take_zero
    have hparent : directories.parent (filePath.take slash) = none := by
      show parentDir (filePath.take slash) = none
      unfold parentDir
      rw [rfind_take hpos hle, hnone]
    rw [Chains.Forest.mark, if_neg hmem]
    split
    · rfl
    · rename_i y hy
      rw [hparent] at hy
      cases hy
  | case4 slash dirs hnil hmem next hnext ih =>
    have hpos : 0 < slash := by
      rw [Nat.pos_iff_ne_zero]
      rintro rfl
      exact hne List.take_zero
    have hlt := rfind_le hnext
    have htake : (filePath.take slash).take next = filePath.take next := by
      rw [List.take_take, Nat.min_eq_left (by omega)]
    rw [Chains.Forest.mark, if_neg hmem]
    by_cases hroot : filePath.take next = []
    · -- the next slash is the first byte: the loop stops, and there is no named parent
      have hparent : directories.parent (filePath.take slash) = none := by
        show parentDir (filePath.take slash) = none
        unfold parentDir
        rw [rfind_take hpos hle, hnext]
        dsimp only
        rw [htake, if_pos hroot]
      rw [insertAncestors, if_pos hroot]
      split
      · rfl
      · rename_i y hy
        rw [hparent] at hy
        cases hy
    · have hparent : directories.parent (filePath.take slash) = some (filePath.take next) := by
        show parentDir (filePath.take slash) = _
        unfold parentDir
        rw [rfind_take hpos hle, hnext]
        dsimp only
        rw [htake, if_neg hroot]
      split
      · rename_i hy
        rw [hparent] at hy
        cases hy
      · rename_i y hy
        rw [hparent, Option.some.injEq] at hy
        rw [← hy]
        exact ih (by omega) hroot

/-- **The set of directories with files**: the named directories above a remote file. -/
theorem mem_dirsWithFiles {remoteFiles : List Bytes} {d : Bytes} :
    d ∈ dirsWithFiles remoteFiles ↔ d ≠ [] ∧ ∃ f ∈ remoteFiles, Below d f := by
  have hfold : dirsWithFiles remoteFiles =
      remoteFiles.foldl (fun dirs filePath => directories.markFrom (parentDir filePath) dirs) [] := by
    unfold dirsWithFiles
    congr 1
    funext dirs filePath
    unfold parentDir
    cases hslash : rfind filePath kSlash filePath.length with
    | none => rfl
    | some slash =>
      dsimp only
      by_cases hroot : filePath.take slash = []
      · rw [if_pos hroot, insertAncestors, if_pos hroot]
        rfl
      · rw [if_neg hroot]
        exact insertAncestors_eq filePath slash dirs (rfind_le hslash) hroot
  -- marked is what lies on the chain of a parent
  rw [hfold, Chains.Forest.mem_markAll parentDir remoteFiles [] (fun z hz => by cases hz)]
  constructor
  · rintro (hd | ⟨f, hf, q, hq, hd⟩)
    · cases hd
    · obtain ⟨hne, hbelow⟩ := parentDir_eq_some hq
      rcases above_iff.1 hd with rfl | ⟨hne', hd⟩
      · exact ⟨hne, f, hf, hbelow⟩
      · exact ⟨hne', f, hf, hd.trans hbelow⟩
  · rintro ⟨hne, f, hf, hd⟩
    obtain ⟨q, hq, hrest⟩ := hd.parentDir hne
    refine .inr ⟨f, hf, q, hq, above_iff.2 ?_⟩
    rcases hrest with rfl | hrest
    · exact .inl rfl
    · exact .inr ⟨hne, hrest⟩

/-! ### The tasks -/

theorem isPathPrefix_iff {d next : Bytes} : isPathPrefix d next = true ↔ Below d next := by
  unfold isPathPrefix
  rw [Bool.and_eq_true, Bool.and_eq_true, decide_eq_true_iff, beq_iff_eq, beq_iff_eq]
  constructor
  · rintro ⟨⟨hlt, htake⟩, hslash⟩
    have hget : next[d.length]? = some kSlash := by
      rw [List.getD_eq_getElem?_getD, List.getElem?_eq_getElem hlt] at hslash
      rw [List.getElem?_eq_getElem hlt]
      exact congrArg some hslash
    have hbelow := below_take hget
    rw [htake] at hbelow
    exact hbelow
  · intro h
    obtain ⟨hslash, htake⟩ := h.slash
    refine ⟨⟨h.length_lt, htake⟩, ?_⟩
    rw [List.getD_eq_getElem?_getD, hslash]
    rfl

/-- Only directories of the list become tasks. -/
theorem pushTasks_subset (l : List Bytes) : pushTasks l ⊆ l := by
  fun_induction pushTasks l with
  | case1 => exact List.Subset.refl _
  | case2 d => exact List.Subset.refl _
  | case3 d next rest hpre ih => exact List.Subset.trans ih (List.subset_cons_self d _)
  | case4 d next rest hpre ih =>
    intro t ht
    rcases List.mem_cons.1 ht with rfl | ht
    · exact List.mem_cons_self ..
    · exact List.mem_cons_of_mem d (ih ht)

/-- **No directory is lost to its neighbour**: what is skipped lies above a task. -/
theorem pushTasks_covers (l : List Bytes) : ∀ d ∈ l, ∃ t ∈ pushTasks l, d = t ∨ Below d t := by
  fun_induction pushTasks l with
  | case1 =>
    intro d hd
    cases hd
  | case2 d =>
    intro d' hd'
    exact ⟨d', hd', .inl rfl⟩
  | case3 d next rest hpre ih =>
    intro d' hd'
    rcases List.mem_cons.1 hd' with rfl | hd'
    · -- the next directory lies below `d`, and is a task or above one
      have hbelow := isPathPrefix_iff.1 hpre
      obtain ⟨t, ht, hnext⟩ := ih next (List.mem_cons_self ..)
      refine ⟨t, ht, .inr ?_⟩
      rcases hnext with rfl | hnext
      · exact hbelow
      · exact hbelow.trans hnext
    · exact ih d' hd'
  | case4 d next rest hpre ih =>
    intro d' hd'
    rcases List.mem_cons.1 hd' with rfl | hd'
    · exact ⟨d', List.mem_cons_self .., .inl rfl⟩
    · obtain ⟨t, ht, hd⟩ := ih d' hd'
      exact ⟨t, List.mem_cons_of_mem d ht, hd⟩

section Tasks

variable {remoteDirs remoteFiles existingLocalDirs : List Bytes} {d : Bytes}

theorem mem_emptyDirs : d ∈ emptyDirs remoteDirs remoteFiles existingLocalDirs ↔
    d ∈ remoteDirs ∧ d ∉ dirsWithFiles remoteFiles ∧ d ∉ existingLocalDirs := by
  unfold emptyDirs
  rw [List.mem_filter, Bool.and_eq_true, Bool.not_eq_true', Bool.not_eq_true', ← Bool.not_eq_true, ← Bool.not_eq_true,
    List.contains_iff_mem, List.contains_iff_mem]

theorem mem_sortPaths {l : List Bytes} : d ∈ sortPaths l ↔ d ∈ l := (List.mergeSort_perm l _).mem_iff

/-- The parent directory of a file and what is above it. -/
theorem parentDir_above_iff (hne : d ≠ []) {f : Bytes} :
    (∃ q, parentDir f = some q ∧ (d = q ∨ Below d q)) ↔ Below d f := by
  constructor
  · rintro ⟨q, hq, rfl | hd⟩
    · exact (parentDir_eq_some hq).2
    · exact hd.trans (parentDir_eq_some hq).2
  · intro h
    obtain ⟨q, hq, hd⟩ := h.parentDir hne
    exact ⟨q, hq, hd.imp_left Eq.symm⟩

end Tasks

/-- **The empty directories**: every remote directory is the parent of a remote file or above it, is
there, or is a task or above one; every task is a remote directory that is missing and, if it has a name,
has no remote file below it. -/
theorem dirTasks_covers (remoteDirs remoteFiles existingLocalDirs : List Bytes) :
    (∀ d ∈ remoteDirs, (∃ f ∈ remoteFiles, ∃ q, parentDir f = some q ∧ (d = q ∨ Below d q)) ∨
      d ∈ existingLocalDirs ∨
      ∃ t ∈ dirTasks remoteDirs remoteFiles existingLocalDirs, d = t ∨ Below d t) ∧
    ∀ t ∈ dirTasks remoteDirs remoteFiles existingLocalDirs,
      t ∈ remoteDirs ∧ t ∉ existingLocalDirs ∧ (t ≠ [] → ∀ f ∈ remoteFiles, ¬ Below t f) := by
  constructor
  · intro d hd
    by_cases hfiles : d ∈ dirsWithFiles remoteFiles
    · obtain ⟨hne, f, hf, hbelow⟩ := mem_dirsWithFiles.1 hfiles
      exact .inl ⟨f, hf, (parentDir_above_iff hne).2 hbelow⟩
    by_cases hlocal : d ∈ existingLocalDirs
    · exact .inr (.inl hlocal)
    · exact .inr (.inr (pushTasks_covers _ d (mem_sortPaths.2 (mem_emptyDirs.2 ⟨hd, hfiles, hlocal⟩))))
  · intro t ht
    obtain ⟨hremote, hfiles, hlocal⟩ := mem_emptyDirs.1 (mem_sortPaths.1 (pushTasks_subset _ ht))
    refine ⟨hremote, hlocal, fun hne f hf hbelow => ?_⟩
    exact hfiles (mem_dirsWithFiles.2 ⟨hne, f, hf, hbelow⟩)

/-- The root itself as a remote directory, and a file in it that is named from the root on: the loop over
the slashes leaves the empty name out, and the root becomes a task. -/
theorem dirTasks_covers_root : ∃ t ∈ dirTasks [[]] [[kSlash, 120]] [],
    ∃ f ∈ ([[kSlash, 120]] : List Bytes), Below t f := by
  have hempty : emptyDirs [[]] [[kSlash, 120]] [] = [[]] := by
    have hno : ([] : Bytes) ∉ dirsWithFiles [[kSlash, 120]] := fun h => (mem_dirsWithFiles.1 h).1 rfl
    unfold emptyDirs
    rw [List.filter_cons_of_pos, List.filter_nil]
    rw [Bool.and_eq_true, Bool.not_eq_true', ← Bool.not_eq_true, List.contains_iff_mem]
    exact ⟨hno, rfl⟩
  refine ⟨[], ?_, [kSlash, 120], List.mem_singleton_self _, List.prefix_append [kSlash] [120]⟩
  unfold dirTasks sortPaths
  rw [hempty, List.mergeSort_singleton]
  exact List.mem_singleton_self _

end FastClone.EmptyDirs
