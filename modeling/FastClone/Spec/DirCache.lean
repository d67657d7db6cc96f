import FastClone.Lib.FileTree
import FastClone.Spec.Paths
import Mathlib.Data.Finset.Insert
import Mathlib.Data.List.DropRight

/-!
# The directory cache of a worker (`sync_util.cpp`)

Before a worker opens a file it makes sure of its parent directory. A directory that it has made sure of is
remembered with its ancestors, so that for the next file there nothing is asked of the file system. The keys are
texts, and the two platforms cut them in different ways.
-/

namespace FastClone.DirCache

open FastClone.Delta FastClone.Paths FileTree

/-! ### POSIX -/

/-- `path::parent_path`: without the last name and the separators before it. A root directory stays. -/
def parentPath (s : Bytes) : Bytes :=
  let dir := s.rdropWhile fun c => !isSepPosix c
  if dir.all isSepPosix then dir else dir.rdropWhile isSepPosix

theorem parentPath_isPrefix (s : Bytes) : parentPath s <+: s := by
  unfold parentPath
  dsimp only
  split
  · exact List.rdropWhile_prefix _ s
  · exact (List.rdropWhile_prefix _ _).trans (List.rdropWhile_prefix _ s)

/-- `ParentDirOf`. -/
def parentDirOfPosix (filePath : Bytes) : Option Bytes :=
  let parent := parentPath filePath
  if parent = [] then none else some parent

/-- `KeyOf`: the trailing separators go, but never the last byte. -/
def keyOfPosix (dir : Bytes) : Bytes :=
  let s := dir.rdropWhile isSepPosix
  if s = [] then dir.take 1 else s

/-- `addWithAncestors`: the loop from the directory upwards. -/
def addWithAncestorsPosix (cur : Bytes) (known : Finset Bytes) : Finset Bytes :=
  if cur = [] then known
  else
    let key := keyOfPosix cur
    if key = [] then known
    else
      let known := insert key known
      -- `parent_path` takes an element away or none, so paths that are equal have one text
      if parentPath cur = cur then known else addWithAncestorsPosix (parentPath cur) known
termination_by cur.length
decreasing_by
  have hinit := parentPath_isPrefix cur
  rcases Nat.lt_or_ge (parentPath cur).length cur.length with hlt | hge
  · exact hlt
  · exact absurd (hinit.eq_of_length_le hge) ‹_›

/-! ### Windows -/

/-- Without the separators at the end. -/
def stripSeparators (w : Wide) : Wide := w.rdropWhile isSepWindows

/-- `find_last_of` for the two separators: the text up to the last one, with it. -/
def throughLastSeparator (w : Wide) : Wide := w.rdropWhile fun c => !isSepWindows c

/-- `ParentDirOf`: there is none if no separator is found or the last one is the first character. -/
def parentDirOfWindows (filePath : Wide) : Option Wide :=
  let dir := throughLastSeparator (stripSeparators filePath)
  if dir.length ≤ 1 then none else some dir.dropLast

/-- `wstring::find` for a backslash. -/
def findBackslash (w : Wide) (pos : ℕ) : Option ℕ := ((w.drop pos).idxOf? wBackslash).map (pos + ·)

/-- `afterShare`. -/
def afterShare (w : Wide) (pos : ℕ) : ℕ :=
  match findBackslash w pos with
  | none => w.length
  | some server =>
    match findBackslash w (server + 1) with
    | none => w.length
    | some share => share + 1

/-- Just past the volume root, where the first name begins that a key may end before. -/
def volumeRootEnd (w : Wide) : ℕ :=
  if w.take 8 = kExtendedPrefix ++ kUnc then afterShare w 8
  else if w.take 4 = kExtendedPrefix then (if w.length ≥ 7 then 7 else w.length)
  else if w.length ≥ 3 ∧ w[1]? = some wColon then 3
  else if w.take 2 = [wBackslash, wBackslash] then afterShare w 2
  else 0

/-- `addWithAncestors`: a key ends before each backslash behind the volume root, and the last at the end. -/
def addWithAncestorsWindows (dir : Wide) (known : Finset Wide) : Finset Wide :=
  let w := stripSeparators dir
  if w = [] then known
  else
    let start := volumeRootEnd w
    let cuts := (List.range' start (w.length - start)).filter fun i => w[i]? = some wBackslash
    insert w (cuts.foldl (fun known i => insert (w.take i) known) known)

/-! ### The cache -/

/-- What the cache has of a platform: `ParentDirOf`, `KeyOf` and `addWithAncestors`. -/
structure Platform (κ : Type) where
  parentDirOf : List κ → Option (List κ)
  keyOf : List κ → List κ
  addWithAncestors : List κ → Finset (List κ) → Finset (List κ)

def posix : Platform UInt8 := ⟨parentDirOfPosix, keyOfPosix, addWithAncestorsPosix⟩

def windows : Platform UInt16 := ⟨parentDirOfWindows, stripSeparators, addWithAncestorsWindows⟩

variable {κ : Type} [DecidableEq κ]

/-- `contains`. -/
def Platform.contains (p : Platform κ) (known : Finset (List κ)) (dir : List κ) : Bool :=
  decide (p.keyOf dir ∈ known)

/-- `EnsureParentDirCached`; `ensure` makes a directory and says whether it is there. -/
def Platform.ensureParentDirCached (p : Platform κ) (filePath : List κ) (known : Finset (List κ))
    (ensure : List κ → Bool) : Finset (List κ) :=
  match p.parentDirOf filePath with
  | none => known
  | some parent =>
    if p.contains known parent then known
    else if ensure parent then p.addWithAncestors parent known
    else known

/-- A call, with what the file system answers to it. -/
structure Call (κ : Type) where
  filePath : List κ
  ensure : List κ → Bool

/-- The directory that a call makes sure of, where it asks and succeeds. -/
def Platform.ensuredBy (p : Platform κ) (known : Finset (List κ)) (call : Call κ) : Option (List κ) :=
  (p.parentDirOf call.filePath).filter fun parent => !p.contains known parent && call.ensure parent

/-- The cache of a worker, and the directories that it has made sure of so far. -/
structure Worker (κ : Type) where
  known : Finset (List κ) := ∅
  ensured : List (List κ) := []

def Platform.step (p : Platform κ) (st : Worker κ) (call : Call κ) : Worker κ where
  known := p.ensureParentDirCached call.filePath st.known call.ensure
  ensured := st.ensured ++ (p.ensuredBy st.known call).toList

/-- A worker after its calls. -/
def Platform.run (p : Platform κ) (calls : List (Call κ)) : Worker κ := calls.foldl p.step {}

/-! ### What a text names -/

/-- A POSIX path: from the root directory or the current one. -/
def directoryPosix (s : Bytes) : Directory Bool Bytes := ⟨isAbsolute s, components isSepPosix s⟩

/-- Where a Windows path starts. A double backslash begins a share or an extended path (`LooksAbsoluteWindows`); a
drive is the first name of a path that begins with neither. -/
inductive WindowsRoot where
  | relative
  | rooted
  | doubleBackslash
  deriving DecidableEq, Repr

def windowsRoot (w : Wide) : WindowsRoot :=
  if w.take 2 = [wBackslash, wBackslash] ∧ (w[2]?).any (fun c => !isSepWindows c) = true then .doubleBackslash
  else if w.head?.any isSepWindows = true then .rooted
  else .relative

def directoryWindows (w : Wide) : Directory WindowsRoot Wide := ⟨windowsRoot w, components isSepWindows w⟩

end FastClone.DirCache
