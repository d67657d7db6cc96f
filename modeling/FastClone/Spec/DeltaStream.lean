import FastClone.Spec.Delta

/-!
# Binary delta: the streaming planner (`BuildPlanStreaming`, `SlidingWindow`)

The old file is read once, front to back, from a byte source. A sliding window
keeps the bytes the scan may still touch; the scan itself is a second, hand-written
copy of the loop of `buildPlan`. Emission and candidate layout are those of
`FastClone.Spec.Delta` (the source repeats them word for word).
-/

namespace FastClone.Delta

/-- `ByteSource`: from a source state and a maximal length to the delivered bytes and
the next state. A read never delivers more than was asked for. -/
structure ByteSource (σ : Type) where
  read : σ → ℕ → Bytes × σ
  read_le : ∀ s n, (read s n).1.length ≤ n

/-- `SlidingWindow`. `inBounds` and `peak` are observations of the run: whether every
access so far was inside the loaded bytes, and the largest size the buffer had. -/
structure SlidingWindow (σ : Type) where
  total : ℕ
  src : σ
  chunk : ℕ
  buf : Bytes := []
  physBase : ℕ := 0
  inBounds : Bool := true
  peak : ℕ := 0

/-- The constructor: a chunk of 0 counts as 1. -/
def SlidingWindow.init {σ : Type} (total : ℕ) (src : σ) (chunk : ℕ) : SlidingWindow σ :=
  { total := total, src := src, chunk := if chunk = 0 then 1 else chunk }

variable {σ : Type}

/-- `advance`: drop the bytes below `p` once they fill a chunk. -/
def SlidingWindow.advance (w : SlidingWindow σ) (p : ℕ) : SlidingWindow σ :=
  if p > w.physBase then
    let drop := p - w.physBase
    if drop ≥ w.chunk then { w with buf := w.buf.drop drop, physBase := p } else w
  else w

/-- One turn of the loop of `loadTo`. -/
def SlidingWindow.refill (source : ByteSource σ) (last : ℕ) (w : SlidingWindow σ) :
    Bytes × SlidingWindow σ :=
  let deficit := last - (w.physBase + w.buf.length)
  let want := if w.chunk > deficit then w.chunk else deficit
  let r := source.read w.src want
  (r.1, { w with
    buf := w.buf ++ r.1
    src := r.2
    peak := max w.peak (w.buf.length + want) })

theorem SlidingWindow.refill_end (source : ByteSource σ) (last : ℕ) (w : SlidingWindow σ) :
    (w.refill source last).2.physBase + (w.refill source last).2.buf.length =
      w.physBase + w.buf.length + (w.refill source last).1.length := by
  simp only [refill, List.length_append]
  omega

/-- The loop of `loadTo`; it ends when the source delivers nothing. -/
def SlidingWindow.loadLoop (source : ByteSource σ) (last : ℕ) (w : SlidingWindow σ) :
    SlidingWindow σ :=
  if w.physBase + w.buf.length < last then
    if (w.refill source last).1.length = 0 then (w.refill source last).2
    else loadLoop source last (w.refill source last).2
  else w
termination_by last - (w.physBase + w.buf.length)
decreasing_by
  have := w.refill_end source last
  omega

/-- `loadTo`. -/
def SlidingWindow.loadTo (source : ByteSource σ) (w : SlidingWindow σ) (last : ℕ) : SlidingWindow σ :=
  w.loadLoop source (if last > w.total then w.total else last)

/-- `window`: the view `[p, p + len)`. -/
def SlidingWindow.window (source : ByteSource σ) (w : SlidingWindow σ) (p len : ℕ) :
    Bytes × SlidingWindow σ :=
  let w := w.loadTo source (p + len)
  (slice w.buf (p - w.physBase) len,
    { w with inBounds := w.inBounds && w.physBase ≤ p && p + len ≤ w.physBase + w.buf.length })

/-- `byteAt`. -/
def SlidingWindow.byteAt (source : ByteSource σ) (w : SlidingWindow σ) (off : ℕ) :
    UInt8 × SlidingWindow σ :=
  let w := w.loadTo source (off + 1)
  (w.buf.getD (off - w.physBase) 0,
    { w with inBounds := w.inBounds && w.physBase ≤ off && off < w.physBase + w.buf.length })

/-- One call of `onCopy`. -/
structure Captured where
  srcOffsetOld : ℕ
  destOffsetNew : ℕ
  len : ℕ
  windowBytes : Bytes
  deriving DecidableEq, Repr

/-- `StreamingPlanOptions`. -/
structure StreamingPlanOptions where
  build : BuildOptions := {}
  readAheadChunkBytes : ℕ := 2 ^ 20
  deriving DecidableEq, Repr

/-- What the streaming scan carries besides its cursor: the log, the window and the
calls of `onCopy` so far. -/
structure StreamState (σ : Type) where
  log : ScanLog
  win : SlidingWindow σ
  captured : List Captured := []

/-- The lazy strong hash of the window at `p`: computed at the first live candidate. -/
def lazyStrong (strongHash : Bytes → Strong) (sig : SignatureSet) (source : ByteSource σ) (p : ℕ)
    (strong : Option Strong) (st : StreamState σ) : Strong × StreamState σ :=
  match strong with
  | some h => (h, st)
  | none =>
    let v := st.win.window source p sig.blockSize
    (strongHash v.1, { st with
      log := { st.log with strongComputations := st.log.strongComputations + 1 }
      win := v.2 })

/-- The candidate loop of `BuildPlanStreaming` at old offset `p`; `onCopy` says whether
a callback was given. -/
def tryCandidatesStreaming (strongHash : Bytes → Strong) (sig : SignatureSet) (source : ByteSource σ)
    (onCopy : Bool) (p : ℕ) (weak32 : UInt32) :
    List Entry → Option Strong → StreamState σ → StreamState σ × Bool
  | [], _, st => (st, false)
  | e :: es, strong, st =>
    if e.weak ≠ weak32 then tryCandidatesStreaming strongHash sig source onCopy p weak32 es strong st
    else
      let st := { st with log := { st.log with weakCandidateHits := st.log.weakCandidateHits + 1 } }
      if st.log.matched.getD e.blockIndex false then
        tryCandidatesStreaming strongHash sig source onCopy p weak32 es strong st
      else
        let computed := lazyStrong strongHash sig source p strong st
        let st := computed.2
        if strongEq sig.strongLen computed.1 (sig.blocks.getD e.blockIndex default).strong then
          let st := { st with log := { st.log with
            matched := st.log.matched.setIfInBounds e.blockIndex true
            matchedSrc := st.log.matchedSrc.setIfInBounds e.blockIndex p } }
          if onCopy then
            let v := st.win.window source p sig.blockSize
            ({ st with
                win := v.2
                captured := st.captured ++
                  [⟨p, e.blockIndex * sig.blockSize, sig.blockSize, v.1⟩] }, true)
          else (st, true)
        else tryCandidatesStreaming strongHash sig source onCopy p weak32 es (some computed.1) st

/-- The scan loop of `BuildPlanStreaming`. -/
def scanLoopStreaming (strongHash : Bytes → Strong) (sig : SignatureSet) (csr : Csr) (oldLen : ℕ)
    (source : ByteSource σ) (opt : BuildOptions) (onCopy : Bool) (hL : 0 < sig.blockSize)
    (c : Cursor) (st : StreamState σ) : StreamState σ × ℕ × Bool :=
  let st := { st with win := st.win.advance c.p }
  let weak32 := c.w.value
  let r := tryCandidatesStreaming strongHash sig source onCopy c.p weak32 (csr.candidates weak32) none st
  let st := r.1
  if r.2 then
    let st := { st with log := { st.log with matchedBytes := st.log.matchedBytes + sig.blockSize } }
    let p := c.p + sig.blockSize
    if p + sig.blockSize > oldLen then (st, p, false)
    else
      let v := (st.win.advance p).window source p sig.blockSize
      let st := { st with win := v.2 }
      if stopHere sig oldLen opt st.log.matchedBytes p c.nextEval then (st, p, true)
      else scanLoopStreaming strongHash sig csr oldLen source opt onCopy hL
        ⟨p, weakInit v.1, evalAfter opt p c.nextEval⟩ st
  else
    if c.p + sig.blockSize ≥ oldLen then (st, c.p, false)
    else
      let outByte := st.win.byteAt source c.p
      let inByte := outByte.2.byteAt source (c.p + sig.blockSize)
      let st := { st with win := inByte.2 }
      let w := weakRoll c.w outByte.1 inByte.1 sig.blockSize
      let p := c.p + 1
      if stopHere sig oldLen opt st.log.matchedBytes p c.nextEval then (st, p, true)
      else scanLoopStreaming strongHash sig csr oldLen source opt onCopy hL
        ⟨p, w, evalAfter opt p c.nextEval⟩ st
termination_by oldLen - c.p
decreasing_by all_goals omega

/-- The whole streaming scan. -/
def scanStreaming (strongHash : Bytes → Strong) (sig : SignatureSet) (oldLen : ℕ)
    (source : ByteSource σ) (s : σ) (opt : StreamingPlanOptions) (onCopy : Bool)
    (hL : 0 < sig.blockSize) : StreamState σ × ℕ × Bool :=
  let win := SlidingWindow.init oldLen s opt.readAheadChunkBytes
  if oldLen ≥ sig.blockSize then
    let v := win.window source 0 sig.blockSize
    scanLoopStreaming strongHash sig (buildCsr sig) oldLen source opt.build onCopy hL
      ⟨0, weakInit v.1, prefixBytes sig oldLen opt.build⟩
      { log := ScanLog.init sig.blockCount, win := v.2 }
  else ({ log := ScanLog.init sig.blockCount, win := win }, 0, false)

/-- `BuildPlanStreaming`: the plan and the calls of `onCopy`, in order. -/
def buildPlanStreaming (strongHash : Bytes → Strong) (sig : SignatureSet) (oldLen : ℕ)
    (source : ByteSource σ) (s : σ) (opt : StreamingPlanOptions) (onCopy : Bool) :
    DeltaPlan × List Captured :=
  if h : sig.blockCount = 0 ∨ sig.blockSize = 0 then ({ newFileBytes := sig.fileSize }, [])
  else
    let r := scanStreaming strongHash sig oldLen source s opt onCopy (SignatureSet.blockSize_pos h)
    (planOfScan sig (r.1.log, r.2), r.1.captured)

end FastClone.Delta
