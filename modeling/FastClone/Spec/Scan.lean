import FastClone.Lib.Worklist
import FastClone.Spec.Ingest

/-!
# The manifest scan and the mirror delete

The server walks its tree with several threads and sends an entry for every file and directory it
sees (`sync_engine_server.cpp`); the client, past the gate, walks its own tree and deletes the files
that are not among the entries (`sync_engine_client.cpp`, `extra_scan.cpp`).

A tree carries what the file system will answer on the way: which directories open, after how many
entries an iterator gives up, which entries cannot be examined. This is the listing of POSIX
systems; an iterator whose increment fails is at its end.
-/

namespace FastClone.Scan

open FastClone.Delta FastClone.Wire FastClone.Frames

/-! ### Trees -/

/-- A file name is not empty. -/
structure Name where
  bytes : Bytes
  ne_nil : bytes ≠ []

/-- What the listing asks about an entry. -/
structure Attr where
  name : Name
  /-- `equivalent` to the path that is left out: the program itself. -/
  excluded : Bool
  /-- `is_directory` or `is_regular_file` reports an error. -/
  statusFails : Bool
  /-- `file_size` reports an error. -/
  sizeFails : Bool
  fileSize : UInt64
  /-- 0 where `last_write_time` reports an error. -/
  mtimeNs : Int64

/-- An entry of a directory, with what is below it. Behind a symbolic link to a directory nothing
belongs to the tree. -/
inductive Tree where
  /-- Not a directory; a regular file or something else. -/
  | leaf (a : Attr) (regular : Bool)
  | link (a : Attr)
  /-- `opens` and `reads`: whether it can be opened, and how many entries the iterator delivers. -/
  | dir (a : Attr) (opens : Bool) (reads : ℕ) (entries : List Tree)

/-- A directory in the queue of a walk. -/
structure PendingDir where
  relDir : Bytes
  opens : Bool
  reads : ℕ
  entries : List Tree

def slash : UInt8 := 47

def buildRelPath (relDir : Bytes) (name : Name) : Bytes :=
  if relDir = [] then name.bytes else relDir ++ slash :: name.bytes

def Tree.attr : Tree → Attr
  | .leaf a _ | .link a | .dir a _ _ _ => a

def Tree.isDirectory : Tree → Bool
  | .leaf _ _ => false
  | .link _ | .dir _ _ _ _ => true

/-- The entry is neither left out nor skipped; `sized` where its size is asked for. -/
def Tree.passes (sized : Bool) (t : Tree) : Bool :=
  !t.attr.excluded && !t.attr.statusFails &&
    match t with
    | .leaf a regular => regular && !(sized && a.sizeFails)
    | _ => true

def Tree.entry (relDir : Bytes) (t : Tree) : FileEntry where
  relativePath := buildRelPath relDir t.attr.name
  isDirectory := t.isDirectory
  fileSize := if t.isDirectory then 0 else t.attr.fileSize
  mtimeNs := t.attr.mtimeNs

/-- A directory that is not a link is walked. -/
def Tree.pending (relDir : Bytes) : Tree → Option PendingDir
  | .dir a opens reads entries => some ⟨buildRelPath relDir a.name, opens, reads, entries⟩
  | _ => none

/-- The loop over a directory: the entries seen, and the directories among them. -/
def PendingDir.listing (sized : Bool) (d : PendingDir) : List FileEntry × List PendingDir :=
  let seen := if d.opens then (d.entries.take d.reads).filter (Tree.passes sized) else []
  (seen.map (Tree.entry d.relDir), seen.filterMap (Tree.pending d.relDir))

/-! ### What a walk sees -/

mutual

/-- The entries a walk sees at and under an entry. -/
def Tree.scan (sized : Bool) (relDir : Bytes) : Tree → List FileEntry
  | .leaf a regular =>
    if (Tree.leaf a regular).passes sized then [(Tree.leaf a regular).entry relDir] else []
  | .link a => if (Tree.link a).passes sized then [(Tree.link a).entry relDir] else []
  | .dir a opens reads entries =>
    if (Tree.dir a opens reads entries).passes sized then
      (Tree.dir a opens reads entries).entry relDir ::
        if opens then scanTake sized (buildRelPath relDir a.name) reads entries else []
    else []

/-- The first `n` entries of a directory. -/
def scanTake (sized : Bool) (relDir : Bytes) : ℕ → List Tree → List FileEntry
  | 0, _ => []
  | _ + 1, [] => []
  | n + 1, t :: ts => t.scan sized relDir ++ scanTake sized relDir n ts

end

def PendingDir.scan (sized : Bool) (d : PendingDir) : List FileEntry :=
  if d.opens then scanTake sized d.relDir d.reads d.entries else []

mutual

/-- The regular files at and under an entry, whatever a listing would say of them. -/
def Tree.files (relDir : Bytes) : Tree → List Bytes
  | .leaf a regular => if regular then [buildRelPath relDir a.name] else []
  | .link _ => []
  | .dir a _ _ entries => filesAll (buildRelPath relDir a.name) entries

def filesAll (relDir : Bytes) : List Tree → List Bytes
  | [] => []
  | t :: ts => t.files relDir ++ filesAll relDir ts

end

def PendingDir.files (d : PendingDir) : List Bytes := filesAll d.relDir d.entries

/-- The root of the server: no two files have the same path. -/
structure ServerTree where
  root : PendingDir
  top : root.relDir = []
  distinct : root.files.Nodup

def ServerTree.files (T : ServerTree) : List Bytes := T.root.files

/-! ### The server -/

/-- `Frame{MsgType::ManifestEntry, 0, EncodeManifestEntry(entry)}`; a path that does not fit is an
exception. -/
def entryFrame (e : FileEntry) : Option Frame :=
  match encodeManifestEntry e [] with
  | .ok ((), payload) => some ⟨MsgType.manifestEntry.toByte, 0, payload⟩
  | .error _ => none

def progressFrame (payload : Bytes) : Frame := ⟨MsgType.manifestProgress.toByte, 0, payload⟩

def endFrame : Frame := ⟨MsgType.manifestEnd.toByte, 0, []⟩

/-- `listOneDir`. -/
def listOneDir (d : PendingDir) : Option (List Frame × List PendingDir) :=
  let listed := d.listing true
  (listed.1.mapM entryFrame).map fun frames => (frames, listed.2)

def kDirPopBatch : ℕ := 8

/-- The number of files goes out now and then, among the entries. -/
def isProgress (f : Frame) : Bool := f.type = MsgType.manifestProgress.toByte

/-- `ParallelDirWalk` over the server's tree. -/
def serverWalk (T : ServerTree) (numWorkers : ℕ) (h : 0 < numWorkers) : Worklist.Walk PendingDir Frame where
  root := T.root
  list := listOneDir
  workers := numWorkers
  workers_pos := h
  popBatch := kDirPopBatch
  popBatch_pos := by decide

/-! ### The client -/

/-- The files of a directory that are not in the manifest. -/
def extrasOf (remoteFiles : AList fun _ : Bytes => FileEntry) (es : List FileEntry) : List Bytes :=
  (es.filter fun e => !e.isDirectory && decide (e.relativePath ∉ remoteFiles)).map FileEntry.relativePath

/-- `ScanExtrasImpl`, as far as it collects files. -/
def extraWalk (L : PendingDir) (remoteFiles : AList fun _ : Bytes => FileEntry) (numWorkers : ℕ)
    (h : 0 < numWorkers) : Worklist.Walk PendingDir Bytes where
  root := L
  list d := some (extrasOf remoteFiles (d.listing false).1, (d.listing false).2)
  workers := numWorkers
  workers_pos := h
  popBatch := 64
  popBatch_pos := by decide

/-- The files that `RemoveLocalExtras` removes from the tree `L`. -/
def removeLocalExtras (L : PendingDir) (remoteFiles : AList fun _ : Bytes => FileEntry) : List Bytes :=
  extrasOf remoteFiles (L.scan false)

/-! ### Both together -/

structure State where
  walk : Worklist.State PendingDir Frame
  /-- The last frames, once the walk is over. -/
  tail : List Frame
  /-- How many of the frames handed over have gone out. -/
  sent : ℕ
  ingest : Ingest.State

/-- What is handed over to the connection, in order. -/
def State.outbound (s : State) : List Frame := s.walk.out ++ s.tail

inductive Event where
  | walk (e : Worklist.Event Frame)
  /-- The walk has returned, and was neither cancelled nor ended by an exception. -/
  | endManifest (count : Bytes)
  | send
  /-- A step of the client, or another frame of the server. -/
  | client (e : Ingest.Event)

/-- The server has nothing but its manifest to say about the manifest. -/
def besides : Ingest.Event → Bool
  | .serverSends _ f => !Ingest.isManifestFrame f
  | _ => true

structure Config where
  ingest : Ingest.Config
  tree : ServerTree
  numWorkers : ℕ
  numWorkers_pos : 0 < numWorkers

def Config.walk (cfg : Config) : Worklist.Walk PendingDir Frame :=
  serverWalk cfg.tree cfg.numWorkers cfg.numWorkers_pos

def State.start (cfg : Config) : State where
  walk := .start cfg.walk
  tail := []
  sent := 0
  ingest := .start

/-- The manifest goes over the first connection. -/
def State.step (cfg : Config) (s : State) : Event → Option State
  | .walk e =>
    if s.tail = [] then (s.walk.step cfg.walk isProgress e).map fun walk => { s with walk } else none
  | .endManifest count =>
    if s.tail = [] ∧ s.walk.finished cfg.walk ∧ s.walk.failed = false ∧ s.walk.stopped = false then
      some { s with tail := [progressFrame count, endFrame] }
    else none
  | .send =>
    match s.outbound[s.sent]? with
    | none => none
    | some f =>
      (s.ingest.step cfg.ingest (.serverSends 0 f)).map fun ingest =>
        { s with
          sent := s.sent + 1
          ingest }
  | .client e =>
    if besides e then (s.ingest.step cfg.ingest e).map fun ingest => { s with ingest } else none

def machine (cfg : Config) : Runs.Machine State Event where
  init := .start cfg
  can s e := (s.step cfg e).isSome
  next s e := (s.step cfg e).getD s

instance (cfg : Config) (s : State) (e : Event) : Decidable ((machine cfg).can s e) :=
  inferInstanceAs (Decidable ((s.step cfg e).isSome = true))

/-! ### What may be hidden -/

mutual

/-- Some regular file is at or under the entry. -/
def Tree.holdsFile : Tree → Bool
  | .leaf _ regular => regular
  | .link _ => false
  | .dir _ _ _ entries => holdsFileAny entries

def holdsFileAny : List Tree → Bool
  | [] => false
  | t :: ts => t.holdsFile || holdsFileAny ts

end

mutual

/-- No file is hidden: files can be examined and are not left out, and directories with files in
them can be examined, opened, and read up to the last entry with a file. -/
def Tree.shown : Tree → Bool
  | .leaf a regular => !regular || (!a.excluded && !a.statusFails && !a.sizeFails)
  | .link _ => true
  | .dir a opens reads entries =>
    !holdsFileAny entries || (!a.excluded && !a.statusFails && opens && shownTake reads entries)

def shownTake : ℕ → List Tree → Bool
  | 0, ts => !holdsFileAny ts
  | _ + 1, [] => true
  | n + 1, t :: ts => t.shown && shownTake n ts

end

def ServerTree.shown (T : ServerTree) : Bool :=
  !holdsFileAny T.root.entries || (T.root.opens && shownTake T.root.reads T.root.entries)

end FastClone.Scan
