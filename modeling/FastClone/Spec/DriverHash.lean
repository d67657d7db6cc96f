import FastClone.Spec.DeltaSigner
import FastClone.Spec.SequentialReader

/-!
# The hash of a file through the driver (`file_index.cpp`)

`ComputeFileHashViaDriver`, after the file was opened: a small file is read by one request and hashed at
once, a larger one is streamed through a `SequentialReader` into the incremental hash. For the small file the
driver accepts the request or not, and has delivered it before the first drain, during the one wait of a
second, or later; the returns of `next` are those of a run of the reader.
-/

namespace FastClone.DriverHash

open FastClone.DiskIo FastClone.SequentialReader
open FastClone.Delta (Xxh3 Strong)

def kSmallFileDirectThreshold : ℕ := 256 * 1024

def kHashChunkBytes : ℕ := 2 ^ 20

def kHashReadAhead : ℕ := 4

def uint32Max : ℕ := 4294967295

/-! ### A small file -/

/-- `AlignDown`. -/
def alignDown (value alignment : ℕ) : ℕ := if alignment = 0 then value else value - value % alignment

/-- `AlignUp`. -/
def alignUp (value alignment : ℕ) : ℕ :=
  if alignment = 0 then value
  else
    let rem := value % alignment
    if rem = 0 then value else value + (alignment - rem)

/-- The one request for a small file. -/
def smallRequest (fileId fileSize ioGranularity : ℕ) : IoRequest where
  kind := .read
  fileId := fileId
  offset := alignDown 0 ioGranularity
  length := alignUp fileSize ioGranularity
  prio := .small
  userTag := 0

/-- The checks of the completion, and the hash. -/
def hashCompletion (X : Xxh3) (fileSize : ℕ) (comp : IoCompletion) : Except String Strong :=
  if comp.status = .error ∨ comp.status = .cancelled then .error "ComputeFileHashViaDriver: read failed"
  else if comp.status = .eof ∧ comp.transferred < fileSize then .error "ComputeFileHashViaDriver: early eof"
  else if comp.transferred < fileSize ∨ comp.data.length < fileSize then
    .error "ComputeFileHashViaDriver: short read"
  else .ok (X.computeBufferHash (comp.data.take fileSize))

/-- The branch for a small file: how many requests `submit` accepts, what the first drain returns, and what
the second one returns after the wait. -/
def smallFileHash (X : Xxh3) (fileSize ioGranularity accepted : ℕ) (first second : List IoCompletion) :
    Except String Strong :=
  if ioGranularity = 0 then .error "ComputeFileHashViaDriver: invalid io granularity"
  else
    let reqLength := alignUp fileSize ioGranularity
    if reqLength = 0 ∨ reqLength > uint32Max then .error "ComputeFileHashViaDriver: request too large"
    else if accepted ≠ 1 then .error "ComputeFileHashViaDriver: submit failed"
    else
      let comps := if first = [] then second else first
      match comps with
      | [comp] => hashCompletion X fileSize comp
      | _ => .error "ComputeFileHashViaDriver: completion count mismatch"

/-! ### A streamed file -/

/-- `ComputeHashFromSource`: the pieces that the hash is updated with, and whether there was a read error.
`none`: it waits for `next`. -/
def hashPieces (returns : List Return) (chunkBuf : Bytes) (pieces : List Bytes) (readErr : Bool) :
    Option (List Bytes × Bool) :=
  match _h : source kPullBytes returns [] chunkBuf with
  | none => none
  | some (got, buf, err, rest) =>
    if got = [] then some (pieces, readErr || err)
    else hashPieces rest buf (pieces ++ [got]) (readErr || err)
termination_by chunkBuf.length + (returns.map fun ret => ret.out.length).sum
decreasing_by
  rename_i hgot
  have htotal := source_total _h
  have hpos := List.length_pos_of_ne_nil hgot
  rw [List.length_nil] at htotal
  omega

/-- The branch for a larger file, on the returns of `next` so far. -/
def streamedHash (X : Xxh3) (returns : List Return) : Option (Except String Strong) :=
  (hashPieces returns [] [] false).map fun r =>
    let hash := X.raw (X.stream.digest (r.1.foldl X.stream.update X.stream.reset))
    if r.2 then .error "ComputeFileHashViaDriver: read failed" else .ok hash

/-! ### The function -/

/-- What the driver answers to one call. -/
structure Answers where
  ioGranularity : ℕ
  accepted : ℕ := 0
  first : List IoCompletion := []
  second : List IoCompletion := []
  /-- Of `next`, so far. -/
  returns : List Return := []

/-- `ComputeFileHashViaDriver`; `none` where it has not returned yet. -/
def computeFileHashViaDriver (X : Xxh3) (fileSize : ℕ) (a : Answers) : Option (Except String Strong) :=
  if fileSize = 0 then some (.ok (X.computeBufferHash []))
  else if fileSize ≤ kSmallFileDirectThreshold then
    some (smallFileHash X fileSize a.ioGranularity a.accepted a.first a.second)
  else streamedHash X a.returns

/-- The reader of a streamed file. -/
def readerConfig (fileId fileSize : ℕ) : Config := ⟨fileId, fileSize, kHashChunkBytes, kHashReadAhead⟩

end FastClone.DriverHash
