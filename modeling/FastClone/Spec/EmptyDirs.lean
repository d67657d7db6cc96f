import FastClone.Spec.ExtraScan
import FastClone.Spec.Paths

/-!
# The empty directories (`sync_engine_client.cpp`)

A directory that holds files is made when its first file arrives. After the transfers only the remote
directories without a file below them are left to be made, as far as they are missing locally. Making a
directory makes its ancestors, so of a chain in the sorted list only the last one becomes a task.
-/

namespace FastClone.EmptyDirs

open FastClone.Delta FastClone.Paths FastClone.ExtraScan

/-- `std::string::rfind(c, pos)`: the last `c` at or before `pos`. -/
def rfind (s : Bytes) (c : UInt8) : ℕ → Option ℕ
  | 0 => if s[0]? = some c then some 0 else none
  | pos + 1 => if s[pos + 1]? = some c then some (pos + 1) else rfind s c pos

theorem rfind_le {s : Bytes} {c : UInt8} {pos i : ℕ} (h : rfind s c pos = some i) : i ≤ pos := by
  induction pos with
  | zero =>
    unfold rfind at h
    split at h
    · cases h
      exact le_rfl
    · cases h
  | succ pos ih =>
    unfold rfind at h
    split at h
    · cases h
      exact le_rfl
    · exact Nat.le_succ_of_le (ih h)

/-- The loop over the slashes of a file path: it stops at a directory that is there already, whose
ancestors are there too. -/
def insertAncestors (filePath : Bytes) (slash : ℕ) (dirsWithFiles : List Bytes) : List Bytes :=
  if filePath.take slash = [] then dirsWithFiles
  else if filePath.take slash ∈ dirsWithFiles then dirsWithFiles
  else match _h : rfind filePath kSlash (slash - 1) with
    | none => filePath.take slash :: dirsWithFiles
    | some next => insertAncestors filePath next (filePath.take slash :: dirsWithFiles)
termination_by slash
decreasing_by
  rename_i hne _
  have hle := rfind_le _h
  have hpos : slash ≠ 0 := by
    rintro rfl
    exact hne List.take_zero
  omega

/-- The loop over the remote files, in the order of the map. -/
def dirsWithFiles (remoteFiles : List Bytes) : List Bytes :=
  remoteFiles.foldl (fun dirs filePath =>
    match rfind filePath kSlash filePath.length with
    | none => dirs
    | some slash => insertAncestors filePath slash dirs) []

/-- The remote directories, in the order of the set, that no file makes and that are missing. -/
def emptyDirs (remoteDirs remoteFiles existingLocalDirs : List Bytes) : List Bytes :=
  remoteDirs.filter fun d =>
    !(dirsWithFiles remoteFiles).contains d && !existingLocalDirs.contains d

/-- `d` is a path-prefix of `next`. -/
def isPathPrefix (d next : Bytes) : Bool :=
  next.length > d.length && next.take d.length == d && next.getD d.length 0 == kSlash

/-- The loop over the sorted list. -/
def pushTasks : List Bytes → List Bytes
  | [] => []
  | [d] => [d]
  | d :: next :: rest =>
    if isPathPrefix d next then pushTasks (next :: rest) else d :: pushTasks (next :: rest)

/-- `dirTasks` when the workers are notified; they take tasks from its front. -/
def dirTasks (remoteDirs remoteFiles existingLocalDirs : List Bytes) : List Bytes :=
  pushTasks (sortPaths (emptyDirs remoteDirs remoteFiles existingLocalDirs))

end FastClone.EmptyDirs
