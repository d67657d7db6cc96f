import FastClone.Spec.DirWalk
import FastClone.Spec.Scan

/-!
# The scan for extra local files (`extra_scan.cpp`)

`ScanExtrasImpl` walks the local tree with `ParallelDirWalk`. Every thread collects what is not in the
remote set in a context of its own; the contexts are joined when the threads leave, and sorted at the end.
-/

namespace FastClone.ExtraScan

open FastClone.Delta FastClone.Scan FastClone.DirWalk

/-- `nullptr` is `none`. -/
abbrev RemotePredicate := Option (Bytes → Bool)

structure ScanCtx where
  extraFiles : List Bytes := []
  extraDirs : List Bytes := []
  localDirs : List Bytes := []

/-- One turn of the loop over a directory, for an entry that is not skipped. -/
def ScanCtx.add (fileInRemote dirInRemote : RemotePredicate) (collectDirs : Bool) (relDir : Bytes)
    (ctx : ScanCtx) (t : Tree) : ScanCtx :=
  let relPath := buildRelPath relDir t.attr.name
  if t.isDirectory then
    if collectDirs then
      { ctx with
        extraDirs := if dirInRemote.any fun fn => fn relPath then ctx.extraDirs else ctx.extraDirs ++ [relPath]
        localDirs := ctx.localDirs ++ [relPath] }
    else ctx
  else if fileInRemote.any fun fn => !fn relPath then { ctx with extraFiles := ctx.extraFiles ++ [relPath] }
  else ctx

/-- The entries of a directory that are not skipped. -/
def seen (d : PendingDir) : List Tree :=
  if d.opens then (d.entries.take d.reads).filter (Tree.passes false) else []

def processDir (fileInRemote dirInRemote : RemotePredicate) (collectDirs : Bool) (d : PendingDir)
    (ctx : ScanCtx) : ScanCtx :=
  (seen d).foldl (ScanCtx.add fileInRemote dirInRemote collectDirs d.relDir) ctx

/-- `finishWorker`. -/
def ScanCtx.finishWorker (collectDirs : Bool) (result ctx : ScanCtx) : ScanCtx where
  extraFiles := result.extraFiles ++ ctx.extraFiles
  extraDirs := if collectDirs then result.extraDirs ++ ctx.extraDirs else result.extraDirs
  localDirs := if collectDirs then result.localDirs ++ ctx.localDirs else result.localDirs

/-- `std::sort` of strings. -/
def sortPaths (l : List Bytes) : List Bytes := l.mergeSort fun a b => decide (a ≤ b)

/-- What is returned, from the contexts in the order of the merges. -/
def scanResult (collectDirs : Bool) (merged : List ScanCtx) : ScanCtx :=
  let result := merged.foldl (ScanCtx.finishWorker collectDirs) {}
  { extraFiles := sortPaths result.extraFiles
    extraDirs := if collectDirs then sortPaths result.extraDirs else result.extraDirs
    localDirs := if collectDirs then sortPaths result.localDirs else result.localDirs }

def subdirs (d : PendingDir) : List PendingDir := (seen d).filterMap (Tree.pending d.relDir)

/-- A directory in a listing is smaller than the listing. -/
theorem sizeOf_of_mem_subdirs {c d : PendingDir} (h : c ∈ subdirs d) : sizeOf c.entries < sizeOf d.entries := by
  obtain ⟨t, ht, hc⟩ := List.mem_filterMap.1 h
  have hmem : t ∈ d.entries := by
    unfold seen at ht
    split at ht
    · exact List.mem_of_mem_take (List.mem_filter.1 ht).1
    · cases ht
  have hlt := List.sizeOf_lt_of_mem hmem
  cases t with
  | leaf a regular => cases hc
  | link a => cases hc
  | dir a opens reads entries =>
    cases hc
    have hsize := Tree.dir.sizeOf_spec a opens reads entries
    dsimp only
    omega

def localTree : Dirs PendingDir where
  children := subdirs
  finite := Subrelation.wf (fun h => sizeOf_of_mem_subdirs h) (measure fun d : PendingDir => sizeOf d.entries).wf

def kDeleteDirPopBatch : ℕ := 64

/-- The call of `ParallelDirWalk`. -/
def scanCall (root : PendingDir) (fileInRemote dirInRemote : RemotePredicate) (collectDirs : Bool) (numWorkers : ℕ)
    (h : 0 < numWorkers) : Call PendingDir ScanCtx where
  dirs := localTree
  rootDir := root
  numWorkers := numWorkers
  numWorkers_pos := h
  dirPopBatch := kDeleteDirPopBatch
  dirPopBatch_pos := by decide
  ctxPrototype := {}
  processDir := processDir fileInRemote dirInRemote collectDirs

/-! ### What is there -/

mutual

/-- The regular files at and under an entry that are not left out. -/
def localFilesAt (relDir : Bytes) : Tree → List Bytes
  | .leaf a regular => if regular && !a.excluded then [buildRelPath relDir a.name] else []
  | .link _ => []
  | .dir a _ _ entries => if a.excluded then [] else localFilesIn (buildRelPath relDir a.name) entries

def localFilesIn (relDir : Bytes) : List Tree → List Bytes
  | [] => []
  | t :: ts => localFilesAt relDir t ++ localFilesIn relDir ts

end

def localFiles (d : PendingDir) : List Bytes := localFilesIn d.relDir d.entries

mutual

/-- No listing fails: what is not left out can be examined, and directories open and are read to the end. -/
def listedAt : Tree → Bool
  | .leaf a _ | .link a => a.excluded || !a.statusFails
  | .dir a opens reads entries =>
    a.excluded || (!a.statusFails && opens && decide (entries.length ≤ reads) && listedIn entries)

def listedIn : List Tree → Bool
  | [] => true
  | t :: ts => listedAt t && listedIn ts

end

def listed (d : PendingDir) : Bool := d.opens && decide (d.entries.length ≤ d.reads) && listedIn d.entries

end FastClone.ExtraScan
