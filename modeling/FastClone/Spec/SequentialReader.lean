import FastClone.Lib.Runs
import FastClone.Spec.DriverAnswers

/-!
# The sequential reader (`disk_io_driver.cpp`)

`SequentialReader` keeps a window of reads in flight over one file and hands the chunks back in order;
what arrives early waits in a map. Here the driver is an environment: it accepts a part of every batch and
delivers the accepted reads in any order and with any result.

The callers feed the chunks to a hash, through a source that serves them piecewise, or to the block signer.
-/

namespace FastClone.SequentialReader

open FastClone.DiskIo Runs

abbrev Bytes := List UInt8

structure Reader where
  fileId : ℕ
  fileSize : ℕ
  chunk : ℕ
  readAhead : ℕ
  nextSubmitOffset : ℕ := 0
  nextYieldOffset : ℕ := 0
  inFlight : ℕ := 0
  error : Bool := false
  /-- Offset and completion. -/
  reordered : List (ℕ × IoCompletion) := []

/-- The constructor. -/
def Reader.create (fileId fileSize chunkBytes readAhead : ℕ) : Reader where
  fileId := fileId
  fileSize := fileSize
  chunk := if chunkBytes = 0 then 2 ^ 20 else chunkBytes
  readAhead := if readAhead = 0 then 1 else readAhead

def readRequest (fileId offset length : ℕ) : IoRequest where
  kind := .read
  fileId := fileId
  offset := offset
  length := length
  prio := .large
  userTag := offset

/-- The loop of `refill`, with so many places left in the window: the batch and where it ends. -/
def Reader.planLoop (r : Reader) : ℕ → ℕ → List IoRequest × ℕ
  | 0, off => ([], off)
  | slots + 1, off =>
    if off < r.fileSize then
      let len := min r.chunk (r.fileSize - off)
      let rest := r.planLoop slots (off + len)
      (readRequest r.fileId off len :: rest.1, rest.2)
    else ([], off)

def Reader.plan (r : Reader) : List IoRequest × ℕ := r.planLoop (r.readAhead - r.inFlight) r.nextSubmitOffset

/-- `refill`, where the driver accepts the first `took` requests of the batch. -/
def Reader.refill (r : Reader) (took : ℕ) : Reader :=
  if r.plan.1 = [] then r
  else
    { r with
      inFlight := r.inFlight + took
      nextSubmitOffset := (r.plan.1[took]?.map IoRequest.offset).getD r.plan.2 }

/-- A completion that is reaped; `emplace` keeps what is there. -/
def Reader.receive (r : Reader) (c : IoCompletion) : Reader :=
  { r with
    inFlight := if 0 < r.inFlight then r.inFlight - 1 else r.inFlight
    reordered := if r.reordered.any fun kc => kc.1 == c.offset then r.reordered
      else r.reordered ++ [(c.offset, c)] }

/-- What waits at the next offset. -/
def Reader.waiting (r : Reader) : Option IoCompletion :=
  (r.reordered.find? fun kc => kc.1 == r.nextYieldOffset).map Prod.snd

def Reader.takeWaiting (r : Reader) : Reader :=
  { r with reordered := r.reordered.eraseP fun kc => kc.1 == r.nextYieldOffset }

/-- One return of `next`: the count, `ok` and the bytes. -/
structure Return where
  n : ℕ
  ok : Bool
  out : Bytes
  deriving DecidableEq

/-! ### Runs -/

structure State where
  reader : Reader
  /-- Accepted by the driver and not delivered. -/
  outstanding : List IoRequest := []
  /-- A call of `next` is in its loop. -/
  inNext : Bool := false
  returns : List Return := []

def State.submit (s : State) (took : ℕ) : State :=
  { s with
    reader := s.reader.refill took
    outstanding := s.outstanding ++ s.reader.plan.1.take took }

def State.leave (s : State) (ret : Return) : State :=
  { s with
    inNext := false
    returns := s.returns ++ [ret] }

/-- A call of `next`, up to its loop. -/
def State.call (s : State) (took : ℕ) : State :=
  if s.reader.error then s.leave ⟨0, false, []⟩
  else if s.reader.nextYieldOffset ≥ s.reader.fileSize then s.leave ⟨0, true, []⟩
  else { s.submit took with inNext := true }

/-- A turn of the loop that finds the next chunk. -/
def State.yield (s : State) (c : IoCompletion) (took : ℕ) : State :=
  if c.status = .error ∨ c.status = .eof then
    { s with reader := { s.reader.takeWaiting with error := true } }.leave ⟨0, false, []⟩
  else
    ({ s with reader := { s.reader.takeWaiting with nextYieldOffset := s.reader.nextYieldOffset + c.data.length } }.submit
      took).leave ⟨c.data.length, true, c.data⟩

/-- The delivery of one accepted read. -/
def State.deliver (s : State) (d : IoRequest × IoResult) : State :=
  { s with
    reader := s.reader.receive (d.1.completion d.2)
    outstanding := s.outstanding.erase d.1 }

/-- A turn of the loop that does not find it: the two drains together deliver `done`. -/
def State.reap (s : State) (done : List (IoRequest × IoResult)) : State :=
  let s := done.foldl State.deliver s
  if done = [] ∧ s.reader.inFlight = 0 ∧ s.reader.nextSubmitOffset ≥ s.reader.fileSize then s.leave ⟨0, true, []⟩
  else s

inductive Event where
  | call (took : ℕ)
  | yield (took : ℕ)
  | reap (done : List (IoRequest × IoResult))

namespace Event

def Can (s : State) : Event → Prop
  | call took => s.inNext = false ∧ took ≤ s.reader.plan.1.length
  | yield took => s.inNext = true ∧ s.reader.waiting.isSome ∧ took ≤ s.reader.plan.1.length
  | reap done => s.inNext = true ∧ s.reader.waiting = none ∧ Deliverable s.outstanding done

instance (s : State) : (e : Event) → Decidable (Can s e)
  | call _ | yield _ | reap _ => inferInstanceAs (Decidable (_ ∧ _))

def exec (s : State) : Event → State
  | call took => s.call took
  | yield took =>
    match s.reader.waiting with
    | some c => s.yield c took
    | none => s
  | reap done => s.reap done

end Event

/-- What a reader is made for. -/
structure Config where
  fileId : ℕ
  fileSize : ℕ
  chunkBytes : ℕ
  readAhead : ℕ

def machine (cfg : Config) : Machine State Event where
  init := { reader := .create cfg.fileId cfg.fileSize cfg.chunkBytes cfg.readAhead }
  can := Event.Can
  next := Event.exec

instance (cfg : Config) (s : State) (e : Event) : Decidable ((machine cfg).can s e) :=
  inferInstanceAs (Decidable (Event.Can s e))

/-! ### `pull` -/

/-- `pull`, from the returns of `next` to come: the bytes written, the rest of the carried chunk, and the
returns that are left. `none`: it waits for `next`. -/
def pull (maxLen : ℕ) : List Return → Bytes → Bytes → Option (Bytes × Bytes × List Return)
  | returns, written, carry =>
    let take := min carry.length (maxLen - written.length)
    if (written ++ carry.take take).length ≥ maxLen then some (written ++ carry.take take, carry.drop take, returns)
    else match returns with
      | [] => none
      | ret :: rest =>
        if !ret.ok || ret.n = 0 then some (written ++ carry.take take, ret.out, rest)
        else pull maxLen rest (written ++ carry.take take) ret.out

/-- Successive calls of `pull`, of any sizes. -/
def pulls : List ℕ → List Return → Bytes → Option (List Bytes × Bytes × List Return)
  | [], returns, carry => some ([], carry, returns)
  | maxLen :: sizes, returns, carry => do
    let r ← pull maxLen returns [] carry
    let later ← pulls sizes r.2.2 r.2.1
    return (r.1 :: later.1, later.2)

/-! ### The callers -/

/-- The source of `ComputeFileHashViaDriver` and of the verification of a temporary file, from the returns
of `next` to come: the bytes written, the rest of the chunk, whether there was a read error, and the
returns that are left. `none`: it waits for `next`. -/
def source (maxLen : ℕ) : List Return → Bytes → Bytes → Option (Bytes × Bytes × Bool × List Return)
  | returns, written, chunkBuf =>
    let take := min chunkBuf.length (maxLen - written.length)
    if (written ++ chunkBuf.take take).length ≥ maxLen then
      some (written ++ chunkBuf.take take, chunkBuf.drop take, false, returns)
    else match returns with
      | [] => none
      | ret :: rest =>
        if !ret.ok then some (written ++ chunkBuf.take take, ret.out, true, rest)
        else if ret.n = 0 then some (written ++ chunkBuf.take take, ret.out, false, rest)
        else source maxLen rest (written ++ chunkBuf.take take) ret.out

/-- Nothing is lost between the chunks and what is written. -/
theorem source_total {maxLen : ℕ} {returns rest : List Return} {written chunkBuf got buf : Bytes} {err : Bool}
    (h : source maxLen returns written chunkBuf = some (got, buf, err, rest)) :
    got.length + buf.length + (rest.map fun ret => ret.out.length).sum =
      written.length + chunkBuf.length + (returns.map fun ret => ret.out.length).sum := by
  fun_induction source maxLen returns written chunkBuf with
  | case1 returns written chunkBuf take hfull =>
    cases h
    have htake : take ≤ chunkBuf.length := Nat.min_le_left ..
    rw [List.length_append, List.length_take, List.length_drop]
    omega
  | case2 written chunkBuf take hroom => cases h
  | case3 written chunkBuf take hroom ret rest' hok =>
    cases h
    have htake : take = chunkBuf.length := by
      rw [List.length_append, List.length_take] at hroom
      omega
    rw [List.length_append, List.length_take, List.map_cons, List.sum_cons]
    omega
  | case4 written chunkBuf take hroom ret rest' hok hn =>
    cases h
    have htake : take = chunkBuf.length := by
      rw [List.length_append, List.length_take] at hroom
      omega
    rw [List.length_append, List.length_take, List.map_cons, List.sum_cons]
    omega
  | case5 written chunkBuf take hroom ret rest' hok hn ih =>
    have htake : take = chunkBuf.length := by
      rw [List.length_append, List.length_take] at hroom
      omega
    rw [ih h, List.length_append, List.length_take, List.map_cons, List.sum_cons]
    omega

def kPullBytes : ℕ := 256 * 1024

/-- `ComputeHashFromSource`: the bytes the hash is updated with, and whether there was a read error. -/
def computeHashFromSource (returns : List Return) (chunkBuf fed : Bytes) (readErr : Bool) : Option (Bytes × Bool) :=
  match _h : source kPullBytes returns [] chunkBuf with
  | none => none
  | some (got, buf, err, rest) =>
    if got = [] then some (fed, readErr || err)
    else computeHashFromSource rest buf (fed ++ got) (readErr || err)
termination_by chunkBuf.length + (returns.map fun ret => ret.out.length).sum
decreasing_by
  rename_i hgot
  have htotal := source_total _h
  have hpos := List.length_pos_of_ne_nil hgot
  rw [List.length_nil] at htotal
  omega

/-- The bytes whose hash `ComputeFileHashViaDriver` returns, or the verification compares; `none` where it
throws, or fails. -/
def hashedBytes (returns : List Return) : Option Bytes :=
  (computeHashFromSource returns [] [] false).bind fun r => if r.2 then none else some r.1

/-- The block signer's loop: the bytes it is updated with, `none` on a read error. -/
def signerBytes : List Return → Option Bytes
  | [] => none
  | ret :: rest =>
    if !ret.ok then none
    else if ret.n = 0 then some []
    else (signerBytes rest).map (ret.out ++ ·)

end FastClone.SequentialReader
