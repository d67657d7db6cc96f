import Mathlib.Data.List.Infix
import Mathlib.Data.Nat.Notation

/-!
# Directories of a file tree

A directory is written as where its path starts and the names on the way to it. A file tree says where a name
leads from a node; what a name such as `..` or a link does is the tree's own matter.

`Has.above`: a tree that has a directory has every one on the way to it.
-/

namespace FileTree

variable {ρ κ Node : Type}

/-- A start and the names from there. -/
structure Directory (ρ κ : Type) where
  root : ρ
  names : List κ
  deriving DecidableEq, Repr

/-- `p` is `d` or one of the directories that the path of `d` goes through. -/
def Directory.Above (p d : Directory ρ κ) : Prop := p.root = d.root ∧ p.names <+: d.names

theorem Directory.Above.refl (d : Directory ρ κ) : d.Above d := ⟨rfl, List.prefix_rfl⟩

theorem Directory.Above.trans {p q d : Directory ρ κ} (hpq : p.Above q) (hqd : q.Above d) : p.Above d :=
  ⟨hpq.1.trans hqd.1, hpq.2.trans hqd.2⟩

/-- The nodes of a file system at one time. Only directories have entries. -/
structure Tree (Node ρ κ : Type) where
  start : ρ → Option Node
  entry : Node → κ → Option Node
  isDirectory : Node → Bool
  entries : ∀ n name, (entry n name).isSome = true → isDirectory n = true

/-- Where the path leads. -/
def Tree.resolve (t : Tree Node ρ κ) (d : Directory ρ κ) : Option Node :=
  (t.start d.root).bind fun n => d.names.foldlM t.entry n

/-- The path leads to a directory. -/
def Tree.Has (t : Tree Node ρ κ) (d : Directory ρ κ) : Prop := ∃ n, t.resolve d = some n ∧ t.isDirectory n = true

/-- **What is on the way is there.** -/
theorem Tree.Has.above {t : Tree Node ρ κ} {p d : Directory ρ κ} (h : t.Has d) (hp : p.Above d) : t.Has p := by
  obtain ⟨n, hresolve, hdir⟩ := h
  obtain ⟨hroot, rest, hnames⟩ := hp
  unfold Tree.resolve at hresolve
  rw [← hnames, ← hroot] at hresolve
  obtain ⟨start, hstart, hwalk⟩ := Option.bind_eq_some_iff.1 hresolve
  rw [List.foldlM_append] at hwalk
  obtain ⟨m, hm, hrest⟩ := Option.bind_eq_some_iff.1 hwalk
  refine ⟨m, Option.bind_eq_some_iff.2 ⟨start, hstart, hm⟩, ?_⟩
  cases rest with
  | nil =>
    cases hrest
    exact hdir
  | cons name rest =>
    -- the path goes on from here, so this is a directory
    rw [List.foldlM_cons] at hrest
    obtain ⟨next, hnext, -⟩ := Option.bind_eq_some_iff.1 hrest
    exact t.entries m name (by rw [hnext]; rfl)

end FileTree
