import FastClone.Lib.Tickets
import FastClone.Spec.ExtraScan
import Mathlib.Data.Finset.Union

/-!
# The mirror delete (`sync_engine_client.cpp`)

`RemoveLocalExtras` first has the whole tree scanned. Then several threads remove the extra files, which they
draw from a shared counter, and when they are joined the extra directories are removed one after the other, the
longest path first. Paths are relative to the root, which `JoinRel` puts in front of all of them.
-/

namespace FastClone.MirrorDelete

open FastClone.Delta FastClone.Scan FastClone.ExtraScan

/-! ### The local tree -/

mutual

/-- What is at and under an entry, with the paths. -/
def everythingAt (relDir : Bytes) : Tree → List (Bytes × Tree)
  | .leaf a regular => [(buildRelPath relDir a.name, .leaf a regular)]
  | .link a => [(buildRelPath relDir a.name, .link a)]
  | .dir a opens reads entries =>
    (buildRelPath relDir a.name, .dir a opens reads entries) :: everythingIn (buildRelPath relDir a.name) entries

def everythingIn (relDir : Bytes) : List Tree → List (Bytes × Tree)
  | [] => []
  | t :: ts => everythingAt relDir t ++ everythingIn relDir ts

end

mutual

/-- Regular files and directories only, and no directory is left out. -/
def ordinaryAt : Tree → Bool
  | .leaf _ regular => regular
  | .link _ => false
  | .dir a _ _ entries => !a.excluded && ordinaryIn entries

def ordinaryIn : List Tree → Bool
  | [] => true
  | t :: ts => ordinaryAt t && ordinaryIn ts

end

mutual

/-- The names in a directory are different, and none has a slash in it. -/
def namedAt : Tree → Bool
  | .leaf _ _ | .link _ => true
  | .dir _ _ _ entries => namedIn entries

def namedIn : List Tree → Bool
  | [] => true
  | t :: ts =>
    !t.attr.name.bytes.contains slash && ts.all (fun u => u.attr.name.bytes != t.attr.name.bytes) &&
      (namedAt t && namedIn ts)

end

structure LocalTree where
  root : PendingDir
  top : root.relDir = []
  ordinary : ordinaryIn root.entries = true
  named : namedIn root.entries = true

namespace LocalTree

def everything (T : LocalTree) : List (Bytes × Tree) := everythingIn T.root.relDir T.root.entries

def files (T : LocalTree) : List Bytes := (T.everything.filter fun e => !e.2.isDirectory).map Prod.fst

def dirs (T : LocalTree) : List Bytes := (T.everything.filter fun e => e.2.isDirectory).map Prod.fst

/-- The excluded file, under all its names. -/
def excluded (T : LocalTree) : List Bytes := (T.everything.filter fun e => e.2.attr.excluded).map Prod.fst

end LocalTree

/-! ### The file system -/

/-- The path is under the directory. -/
def Below (dir path : Bytes) : Prop := (dir ++ [slash]) <+: path

instance (dir path : Bytes) : Decidable (Below dir path) := inferInstanceAs (Decidable ((dir ++ [slash]) <+: path))

/-- The files and directories below the root. -/
structure Fs where
  files : Finset Bytes
  dirs : Finset Bytes

def LocalTree.fs (T : LocalTree) : Fs := ⟨T.files.toFinset, T.dirs.toFinset⟩

/-- How `fs::remove` ends: it returns true, returns false, or sets the error code. -/
inductive Removal where
  | removed
  | absent
  | failed
  deriving DecidableEq

/-- `fs::remove`: only an empty directory can be removed. The system may refuse anything. -/
def Fs.remove (fs : Fs) (path : Bytes) (refused : Bool) : Fs × Removal :=
  if refused then (fs, .failed)
  else if path ∈ fs.files then ({ fs with files := fs.files.erase path }, .removed)
  else if path ∈ fs.dirs then
    if ∃ other ∈ fs.files ∪ fs.dirs, Below path other then (fs, .failed)
    else ({ fs with dirs := fs.dirs.erase path }, .removed)
  else (fs, .absent)

/-! ### `RemoveLocalExtras` after the scan -/

structure Call where
  fs : Fs
  scan : ScanCtx
  /-- `ResolveDirWalkWorkerCount()`. -/
  numWorkers : ℕ
  existingLocalDirs : Finset Bytes

def Call.fileCount (C : Call) : ℕ := C.scan.extraFiles.length

/-- With at most one worker the calling thread does the work; the number of files is cut to 32 bits. -/
def Call.deleteWorkers (C : Call) : ℕ :=
  if C.fileCount = 0 then 0 else max 1 (min C.numWorkers (C.fileCount % 2 ^ 32))

structure State where
  fs : Fs
  /-- `nextFile` and the workers. -/
  pool : Tickets.State
  deletedFiles : ℕ
  failedOps : ℕ
  existingLocalDirs : Finset Bytes
  /-- What is left of the sorted directories, once the workers are joined. -/
  extraDirs : Option (List Bytes)
  /-- The files for which `fs::remove` has returned true, in order. -/
  removed : List Bytes

inductive Event where
  | draw (w : ℕ)
  | remove (w : ℕ) (refused : Bool)
  /-- The workers are joined, and `extraDirs` is sorted, in whatever order paths of one length come. -/
  | join (sorted : List Bytes)
  | removeDir (refused : Bool)

def State.start (C : Call) : State where
  fs := C.fs
  pool := .start
  deletedFiles := 0
  failedOps := 0
  existingLocalDirs := C.existingLocalDirs
  extraDirs := none
  removed := []

/-- The loop body of a worker. -/
def State.removeFile (s : State) (path : Bytes) (refused : Bool) : State :=
  match s.fs.remove path refused with
  | (fs, .removed) => { s with fs, deletedFiles := s.deletedFiles + 1, removed := s.removed ++ [path] }
  | (fs, .absent) => { s with fs }
  | (fs, .failed) => { s with fs, failedOps := s.failedOps + 1 }

def State.removeDir (s : State) (dir : Bytes) (refused : Bool) : State :=
  match s.fs.remove dir refused with
  | (fs, .failed) => { s with fs, failedOps := s.failedOps + 1 }
  | (fs, _) => { s with fs }

def State.step (C : Call) (s : State) : Event → Option State
  | .draw w =>
    if w < C.deleteWorkers ∧ s.pool.hand w = .drawing then some { s with pool := s.pool.draw C.fileCount w } else none
  | .remove w refused =>
    match s.pool.hand w with
    | .working i => some { s.removeFile (C.scan.extraFiles.getD i []) refused with pool := s.pool.finish w i }
    | _ => none
  | .join sorted =>
    if s.extraDirs = none ∧ (∀ w < C.deleteWorkers, s.pool.hand w = .left) ∧ sorted.Perm C.scan.extraDirs ∧
        sorted.Pairwise fun a b => b.length ≤ a.length then
      some { s with
        existingLocalDirs := s.existingLocalDirs ∪ C.scan.localDirs.toFinset
        extraDirs := some sorted }
    else none
  | .removeDir refused =>
    match s.extraDirs with
    | some (dir :: rest) => some { s.removeDir dir refused with extraDirs := some rest }
    | _ => none

def machine (C : Call) : Runs.Machine State Event where
  init := .start C
  can s e := (s.step C e).isSome
  next s e := (s.step C e).getD s

instance (C : Call) (s : State) (e : Event) : Decidable ((machine C).can s e) :=
  inferInstanceAs (Decidable ((s.step C e).isSome = true))

/-- The system does what it is asked for. -/
def Event.granted : Event → Bool
  | .remove _ refused | .removeDir refused => !refused
  | _ => true

/-- `RemoveLocalExtras` returns. -/
def State.over (s : State) : Prop := s.extraDirs = some []

instance (s : State) : Decidable s.over := inferInstanceAs (Decidable (s.extraDirs = some []))

end FastClone.MirrorDelete
