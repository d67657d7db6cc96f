import FastClone.Lib.Spans
import FastClone.Spec.StreamDownload

/-!
# A download on a stream of its own: what is written, and what is counted

Whatever the driver takes or leaves, the accepted writes fill the stream from its start and the buffer holds
the rest of it (`Tiles`). The gate compares the two counters of writes; as long as they do not wrap around,
nothing is outstanding behind it (`Settled`).

* `pump_tiles`: the writes tile the stream in every run, and `FileEnd` completes a stream of fewer than
  `2 ^ 32` writes only when all of it was submitted and all writes are completed.
* `wrapped_gate_opens`: the gate of a stream of `2 ^ 32` writes.
* `transferred_content_iff`: **a file that is counted as transferred has the bytes of its stream exactly if
  the stream is as long as the manifest says.**
* `transferred_padded`: a file that became shorter.
-/

namespace FastClone.StreamDownload

open FastClone.DiskIo Runs Spans

variable {cfg : Config} {s : State}

/-! ### Statement -/

def spanOf (r : IoRequest) : Span := (r.offset, r.length)

/-- The accepted writes fill the stream from its start with its own bytes; the buffer is the rest. -/
structure Tiles (s : State) : Prop where
  tiles : Tiling 0 s.nextWriteOffset (s.accepted.map spanOf)
  own : ∀ r ∈ s.accepted, r.data = (s.received.drop r.offset).take r.length
  rest : s.writeBuffer = s.received.drop s.nextWriteOffset
  le : s.nextWriteOffset ≤ s.received.length
  split : s.accepted.Perm (s.outstanding ++ s.delivered.map Prod.fst)

/-- The file is behind its gate. -/
def Phase.behindGate : Phase → Bool
  | .closing | .finished _ => true
  | _ => false

/-- Behind the gate every received byte was submitted, and every submitted write was completed. -/
structure Completes (s : State) : Prop where
  submitted : s.phase.behindGate = true → Tiling 0 s.received.length (s.accepted.map spanOf)
  completed : s.phase.behindGate = true → s.accepted.Perm (s.delivered.map Prod.fst)

/-! ### The pump -/

theorem Config.chunk_pos (cfg : Config) : 0 < cfg.chunk := by
  unfold Config.chunk
  split <;> omega

theorem Tiles.accept (h : Tiles s) {len : ℕ} (hpos : 0 < len) (hlen : len ≤ s.writeBuffer.length) :
    Tiles (s.accept cfg len) := by
  have hrest := congrArg List.length h.rest
  rw [List.length_drop] at hrest
  have hle := h.le
  have hdata : (s.writeBuffer.take len).length = len := by
    rw [List.length_take]
    omega
  unfold State.accept
  refine ⟨?_, ?_, ?_, ?_, ?_⟩
  · dsimp only
    rw [List.map_append]
    refine h.tiles.append ⟨rfl, ?_, ?_⟩
    · show 0 < (s.writeBuffer.take len).length
      omega
    · show s.nextWriteOffset + (s.writeBuffer.take len).length = s.nextWriteOffset + len
      rw [hdata]
  · intro r hr
    rcases List.mem_append.1 hr with hr | hr
    · exact h.own r hr
    · rw [List.mem_singleton.1 hr]
      show s.writeBuffer.take len = (s.received.drop s.nextWriteOffset).take (s.writeBuffer.take len).length
      rw [hdata, h.rest]
  · dsimp only
    rw [h.rest, List.drop_drop]
  · dsimp only
    omega
  · exact split_accept h.split _

theorem Tiles.goto (h : Tiles s) (p : Phase) : Tiles (s.goto p) := ⟨h.tiles, h.own, h.rest, h.le, h.split⟩

theorem Tiles.pump (h : Tiles s) {flushTail taken : Bool} (hpiece : s.hasPiece cfg flushTail = true) :
    Tiles (s.pump cfg flushTail taken) := by
  unfold State.pump
  split
  · split
    · rename_i hfull
      exact (h.accept cfg.chunk_pos hfull).goto _
    · rename_i hshort
      -- not a whole piece, so the tail
      have htail : s.writeBuffer ≠ [] := by
        unfold State.hasPiece at hpiece
        rw [decide_eq_false hshort, Bool.false_or, Bool.and_eq_true, decide_eq_true_iff] at hpiece
        exact hpiece.2
      exact (h.accept (List.length_pos_of_ne_nil htail) le_rfl).goto _
  · exact h.goto _

/-- A new chunk of the stream goes behind what is there. -/
theorem Tiles.chunk (h : Tiles s) (payload : Bytes) (p : Phase) :
    Tiles { s with
      phase := p
      writeBuffer := s.writeBuffer ++ payload
      received := s.received ++ payload } := by
  refine ⟨h.tiles, fun r hr => ?_, ?_, ?_, h.split⟩
  · have hend := h.tiles.le_end _ (List.mem_map.2 ⟨r, hr, rfl⟩)
    have hle := h.le
    unfold spanOf at hend
    dsimp only at hend
    dsimp only
    -- an accepted write lies before the new chunk
    rw [h.own r hr, List.drop_append_of_le_length (by omega), List.take_append_of_le_length]
    rw [List.length_drop]
    omega
  · dsimp only
    rw [h.rest, List.drop_append_of_le_length h.le]
  · dsimp only
    have hle := h.le
    rw [List.length_append]
    omega

theorem Tiles.deliver (h : Tiles s) {d : IoRequest × IoResult} (hd : d.1 ∈ s.outstanding) : Tiles (s.deliver d) :=
  ⟨h.tiles, h.own, h.rest, h.le, split_deliver h.split hd⟩

theorem Tiles.reap {done : List (IoRequest × IoResult)} (h : Tiles s) (hd : Deliverable s.outstanding done) :
    Tiles (s.reap done) :=
  Deliverable.keeps (o := State.outstanding) (I := Tiles) (fun _ _ => rfl) (fun _ _ hi hd => hi.deliver hd) hd h

theorem Tiles.exec (h : Tiles s) {e : Event} (hcan : e.Can cfg s) : Tiles (e.exec cfg s) := by
  cases e with
  | fileChunk payload => exact h.chunk payload _
  | fileEnd => exact h.goto _
  | submit flushTail taken => exact h.pump hcan.2
  | pumped flushTail => exact h.goto _
  | reap done => exact (h.reap hcan.2).goto _
  | drained => exact h.goto _
  | closeFile truncated rest => exact ⟨h.tiles, h.own, h.rest, h.le, h.split⟩

theorem tiles_reach {ok : State → Event → Prop} (h : (machine cfg).Reach ok s) : Tiles s := by
  refine h.invariant (I := Tiles) ?_ fun s e hi hcan _ => hi.exec hcan
  exact ⟨rfl, fun r hr => (by cases hr), rfl, Nat.zero_le _, .refl _⟩

/-! ### The gate -/

/-- The counters have not wrapped around, and nothing is left behind the gate. -/
structure Settled (s : State) : Prop where
  submitted : s.submittedWrites.toNat = s.accepted.length
  completed : s.completedWrites.toNat = s.delivered.length
  few : s.accepted.length < 2 ^ 32
  drained : s.phase = .draining → s.writeBuffer = []
  gate : s.phase.behindGate = true → s.writeBuffer = [] ∧ s.outstanding = []

theorem toNat_succ {x : UInt32} (h : x.toNat + 1 < 2 ^ 32) : (x + 1).toNat = x.toNat + 1 := by
  rw [UInt32.toNat_add]
  exact Nat.mod_eq_of_lt h

theorem Tiles.length (h : Tiles s) : s.accepted.length = s.outstanding.length + s.delivered.length := by
  rw [h.split.length_eq, List.length_append, List.length_map]

/-- Three phases have nothing behind them. -/
theorem Settled.goto (h : Settled s) {p : Phase} (hp : p ≠ .draining) (hgate : p.behindGate = false) :
    Settled (s.goto p) := by
  refine ⟨h.submitted, h.completed, h.few, fun hd => absurd hd hp, fun hg => ?_⟩
  rw [show (s.goto p).phase = p from rfl, hgate] at hg
  cases hg

theorem Settled.accept (h : Settled s) {len : ℕ} {p : Phase} (hfits : s.accepted.length + 1 < 2 ^ 32)
    (hgate : p.behindGate = false) (htail : p = .draining → s.writeBuffer.drop len = []) :
    Settled ((s.accept cfg len).goto p) := by
  -- below `2 ^ 32` the counter does not wrap around
  have hsub := h.submitted
  refine ⟨?_, h.completed, ?_, htail, fun hg => ?_⟩
  · show (s.submittedWrites + 1).toNat = (s.accepted ++ [_]).length
    rw [toNat_succ (by omega), List.length_append, List.length_singleton, hsub]
  · show (s.accepted ++ [_]).length < 2 ^ 32
    rw [List.length_append, List.length_singleton]
    exact hfits
  · rw [show ((s.accept cfg len).goto p).phase = p from rfl, hgate] at hg
    cases hg

theorem Settled.deliver (h : Settled s) (ht : Tiles s) (hopen : s.phase.behindGate = false)
    {d : IoRequest × IoResult} (hd : d.1 ∈ s.outstanding) : Settled (s.deliver d) := by
  have hlen := ht.length
  have hpos := List.length_pos_of_mem hd
  have hdone := h.completed
  have hfew := h.few
  refine ⟨h.submitted, ?_, h.few, h.drained, fun hg => ?_⟩
  · show (s.completedWrites + 1).toNat = (s.delivered ++ [d]).length
    rw [toNat_succ (by omega), List.length_append, List.length_singleton, hdone]
  · rw [show (s.deliver d).phase = s.phase from rfl, hopen] at hg
    cases hg

theorem Settled.reap {done : List (IoRequest × IoResult)} (h : Settled s) (ht : Tiles s)
    (hopen : s.phase.behindGate = false) (hd : Deliverable s.outstanding done) : Settled (s.reap done) := by
  have hall : Settled (s.reap done) ∧ Tiles (s.reap done) ∧ (s.reap done).phase.behindGate = false :=
    Deliverable.keeps (o := State.outstanding) (I := fun s => Settled s ∧ Tiles s ∧ s.phase.behindGate = false)
      (fun _ _ => rfl) (fun _ _ hi hd => ⟨hi.1.deliver hi.2.1 hi.2.2 hd, hi.2.1.deliver hd, hi.2.2⟩) hd ⟨h, ht, hopen⟩
  exact hall.1

theorem reap_phase (done : List (IoRequest × IoResult)) (s : State) : (s.reap done).phase = s.phase := by
  unfold State.reap
  induction done generalizing s with
  | nil => rfl
  | cons d done ih => exact ih (s.deliver d)

theorem Settled.exec (h : Settled s) (ht : Tiles s) {e : Event} (hcan : e.Can cfg s) (hfits : Fits s e) :
    Settled (e.exec cfg s) := by
  cases e with
  | fileChunk payload =>
    exact ⟨h.submitted, h.completed, h.few, fun hd => (by cases hd), fun hg => (by cases hg)⟩
  | fileEnd => exact h.goto (by decide) rfl
  | submit flushTail taken =>
    show Settled (s.pump cfg flushTail taken)
    unfold State.pump
    cases taken with
    | false =>
      rw [if_neg (by decide)]
      cases flushTail with
      | false => exact h.goto (by decide) rfl
      | true => exact h.goto (by decide) rfl
    | true =>
      rw [if_pos rfl]
      split
      · exact h.accept hfits rfl (fun hp => by cases hp)
      · exact h.accept hfits rfl (fun _ => List.drop_length)
  | pumped flushTail =>
    cases flushTail with
    | false => exact h.goto (by decide) rfl
    | true =>
      refine ⟨h.submitted, h.completed, h.few, fun _ => ?_, fun hg => (by cases hg)⟩
      -- no piece is left for a flush, so the buffer is empty
      have hnone := hcan.2
      unfold State.hasPiece at hnone
      rw [Bool.or_eq_false_iff, Bool.true_and, decide_eq_false_iff_not, decide_eq_false_iff_not, not_not] at hnone
      exact hnone.2
  | reap done =>
    obtain ⟨hphase, hdone⟩ := hcan
    have hopen : s.phase.behindGate = false := by
      rcases hphase with hp | hp | hp | ⟨hp, -⟩
      · rw [hp]; rfl
      · rw [hp]; rfl
      · rw [hp]; rfl
      · rw [hp]; rfl
    have hnew := h.reap ht hopen hdone
    show Settled ((s.reap done).goto (Event.afterReap s.phase))
    rcases hphase with hp | hp | hp | ⟨hp, -⟩
    · rw [hp]; exact hnew.goto (by decide) rfl
    · rw [hp]; exact hnew.goto (by decide) rfl
    · rw [hp]; exact hnew.goto (by decide) rfl
    · rw [hp]
      refine ⟨hnew.submitted, hnew.completed, hnew.few, fun _ => hnew.drained ?_, fun hg => (by cases hg)⟩
      rw [reap_phase, hp]
  | drained =>
    obtain ⟨hp, hgate⟩ := hcan
    refine ⟨h.submitted, h.completed, h.few, fun hd => (by cases hd), fun _ => ⟨h.drained hp, ?_⟩⟩
    -- as many completions as submissions
    have hlen := ht.length
    have hsub := h.submitted
    have hdone := h.completed
    rw [UInt32.lt_iff_toNat_lt] at hgate
    exact List.eq_nil_of_length_eq_zero (show s.outstanding.length = 0 by omega)
  | closeFile truncated rest =>
    have hclosed := h.gate (by rw [show s.phase = .closing from hcan]; rfl)
    exact ⟨h.submitted, h.completed, h.few, fun hd => (by cases hd), fun _ => hclosed⟩

theorem settled_reach (h : (machine cfg).Reach Fits s) : Settled s ∧ Tiles s := by
  refine h.invariant (I := fun s => Settled s ∧ Tiles s) ⟨?_, ?_⟩ fun s e hi hcan hfits =>
    ⟨hi.1.exec hi.2 hcan hfits, hi.2.exec hcan⟩
  · exact ⟨rfl, rfl, Nat.two_pow_pos 32, fun hd => (by cases hd), fun hg => (by cases hg)⟩
  · have hinit : (machine cfg).Reach Fits (machine cfg).init := .init
    exact tiles_reach hinit

/-- Behind the gate of a stream with few writes all is written. -/
theorem Settled.completes (h : Settled s) (ht : Tiles s) : Completes s := by
  constructor
  · intro hg
    obtain ⟨hbuffer, -⟩ := h.gate hg
    have hrest := congrArg List.length ht.rest
    rw [hbuffer, List.length_nil, List.length_drop] at hrest
    have hle := ht.le
    have hall : s.nextWriteOffset = s.received.length := by omega
    exact hall ▸ ht.tiles
  · intro hg
    obtain ⟨-, hnone⟩ := h.gate hg
    have hsplit := ht.split
    rwa [hnone, List.nil_append] at hsplit

/-- **The write pump of a stream**: in every run the accepted writes tile the stream from its start and the
buffer is the rest; and `FileEnd` completes a stream of fewer than `2 ^ 32` writes only when every received
byte was submitted and every submitted write was completed. -/
theorem pump_tiles (cfg : Config) {s : State} (h : (machine cfg).Reach (fun _ _ => True) s) :
    Tiles s ∧ ((machine cfg).Reach Fits s → Completes s) :=
  ⟨tiles_reach h, fun hf => (settled_reach hf).1.completes (settled_reach hf).2⟩

/-- Five bytes over a target of seven, in pieces of two. -/
def fiveBytes : Config := ⟨1, 2, 5, [9, 9, 9, 9, 9, 9, 9]⟩

def pieceAt (offset : ℕ) (data : Bytes) : IoRequest × IoResult :=
  (WriteHandles.writeRequest 1 offset data, ⟨.ok, data.length, []⟩)

/-- Two chunks; the driver is full for a while, and the writes are completed late. -/
def twoChunks : List Event :=
  [.fileChunk [1, 2, 3], .submit false true, .reap [], .pumped false, .fileChunk [4, 5], .submit false false,
    .fileEnd, .submit true false, .reap [pieceAt 0 [1, 2]], .submit true true, .reap [], .submit true true,
    .reap [pieceAt 4 [5], pieceAt 2 [3, 4]], .drained, .closeFile true true]

theorem pump_tiles_two : Completes ((machine fiveBytes).run (machine fiveBytes).init twoChunks) :=
  (pump_tiles fiveBytes (Machine.reach_run (by decide))).2 (Machine.reach_run (by decide))

/-! ### The gate of a long stream -/

/-- The driver's own chunk size, 1 MiB, and a file of `2 ^ 32` chunks. -/
def manyPieces : Config := ⟨1, 2 ^ 20, 2 ^ 52, []⟩

def piece : Bytes := List.replicate (2 ^ 20) 0

theorem length_piece : piece.length = manyPieces.chunk := List.length_replicate

theorem hasPiece_nil (hs : s.writeBuffer = []) (flushTail : Bool) : s.hasPiece manyPieces flushTail = false := by
  unfold State.hasPiece
  rw [hs]
  cases flushTail <;> rfl

theorem manyPieces_step (e : Event) (h : (machine manyPieces).Reach (fun _ _ => True) s) (hcan : e.Can manyPieces s) :
    (machine manyPieces).Reach (fun _ _ => True) (e.exec manyPieces s) := .step h hcan trivial

/-- Between two frames, with `n` writes that are all completed. -/
structure Rested (s : State) (n : ℕ) : Prop where
  reach : (machine manyPieces).Reach (fun _ _ => True) s
  phase : s.phase = .idle
  buffer : s.writeBuffer = []
  submitted : s.submittedWrites = UInt32.ofNat n
  completed : s.completedWrites = UInt32.ofNat n
  outstanding : s.outstanding = []

/-- A chunk whose write is accepted. -/
def State.takePiece (s : State) : State :=
  Event.exec manyPieces (Event.exec manyPieces s (.fileChunk piece)) (.submit false true)

structure Taken (s : State) (n : ℕ) (r : IoRequest) : Prop where
  reach : (machine manyPieces).Reach (fun _ _ => True) s
  phase : s.phase = .reaping false
  buffer : s.writeBuffer = []
  submitted : s.submittedWrites = UInt32.ofNat (n + 1)
  completed : s.completedWrites = UInt32.ofNat n
  outstanding : s.outstanding = [r]

theorem Rested.takePiece {n : ℕ} (h : Rested s n) : ∃ r, Taken s.takePiece n r := by
  have hbuffer : (Event.exec manyPieces s (.fileChunk piece)).writeBuffer = piece := by
    show s.writeBuffer ++ piece = piece
    rw [h.buffer, List.nil_append]
  have hwhole : (Event.exec manyPieces s (.fileChunk piece)).writeBuffer.length ≥ manyPieces.chunk := by
    rw [hbuffer, length_piece]
  have hpiece : (Event.exec manyPieces s (.fileChunk piece)).hasPiece manyPieces false = true := by
    unfold State.hasPiece
    rw [decide_eq_true hwhole, Bool.true_or]
  have htake : s.takePiece =
      ((Event.exec manyPieces s (.fileChunk piece)).accept manyPieces manyPieces.chunk).goto (.reaping false) := by
    show State.pump manyPieces _ false true = _
    unfold State.pump
    rw [if_pos rfl, if_pos hwhole]
  refine ⟨WriteHandles.writeRequest 1 s.nextWriteOffset ((s.writeBuffer ++ piece).take manyPieces.chunk),
    manyPieces_step (.submit false true) (manyPieces_step (.fileChunk piece) h.reach h.phase) ⟨rfl, hpiece⟩,
    ?_, ?_, ?_, ?_, ?_⟩
  · exact congrArg State.phase htake
  · refine (congrArg State.writeBuffer htake).trans ?_
    show (Event.exec manyPieces s (.fileChunk piece)).writeBuffer.drop manyPieces.chunk = []
    rw [hbuffer, ← length_piece, List.drop_length]
  · refine (congrArg State.submittedWrites htake).trans ?_
    show s.submittedWrites + 1 = _
    rw [h.submitted]
    exact (UInt32.ofNat_add n 1).symm
  · exact (congrArg State.completedWrites htake).trans h.completed
  · refine (congrArg State.outstanding htake).trans ?_
    show s.outstanding ++ [_] = _
    rw [h.outstanding]
    rfl

/-- The write is completed before the frame is left. -/
theorem Rested.next {n : ℕ} (h : Rested s n) : ∃ t, Rested t (n + 1) := by
  obtain ⟨r, ht⟩ := h.takePiece
  generalize s.takePiece = t at ht
  have hdone : Deliverable t.outstanding [(r, ⟨.ok, 2 ^ 20, []⟩)] := by
    rw [ht.outstanding]
    exact ⟨List.mem_singleton_self r, trivial⟩
  have hreap := manyPieces_step (.reap [(r, ⟨.ok, 2 ^ 20, []⟩)]) ht.reach ⟨.inl ht.phase, hdone⟩
  have hphase : (Event.exec manyPieces t (.reap [(r, ⟨.ok, 2 ^ 20, []⟩)])).phase = .pumping false := by
    show Event.afterReap t.phase = _
    rw [ht.phase]
    rfl
  have hnone : (Event.exec manyPieces t (.reap [(r, ⟨.ok, 2 ^ 20, []⟩)])).hasPiece manyPieces false = false :=
    hasPiece_nil ht.buffer false
  refine ⟨_, manyPieces_step (.pumped false) hreap ⟨hphase, hnone⟩, rfl, ht.buffer, ht.submitted, ?_, ?_⟩
  · show t.completedWrites + 1 = _
    rw [ht.completed]
    exact (UInt32.ofNat_add n 1).symm
  · show t.outstanding.erase r = []
    rw [ht.outstanding, List.erase_cons_head]

theorem exists_rested (n : ℕ) : ∃ s, Rested s n := by
  induction n with
  | zero => exact ⟨{ disk := [] }, .init, rfl, rfl, rfl, rfl, rfl⟩
  | succ n ih =>
    obtain ⟨s, hs⟩ := ih
    exact hs.next

/-- After `2 ^ 32` writes the counter of the submissions is 0 again: the file is closed and counted with its
last write outstanding. -/
theorem wrapped_gate_opens :
    ¬ ∀ s, (machine manyPieces).Reach (fun _ _ => True) s → Completes s := by
  intro hall
  obtain ⟨s, hs⟩ := exists_rested (2 ^ 32 - 1)
  obtain ⟨r, ht⟩ := hs.takePiece
  generalize s.takePiece = t at ht
  -- the last write stays outstanding through all that follows
  have hreap := manyPieces_step (.reap []) ht.reach ⟨.inl ht.phase, trivial⟩
  have hphase : (Event.exec manyPieces t (.reap [])).phase = .pumping false := by
    show Event.afterReap t.phase = _
    rw [ht.phase]
    rfl
  have hpumped := manyPieces_step (.pumped false) hreap ⟨hphase, hasPiece_nil ht.buffer false⟩
  have hend := manyPieces_step .fileEnd hpumped rfl
  have hflushed := manyPieces_step (.pumped true) hend ⟨rfl, hasPiece_nil ht.buffer true⟩
  have hgate : ¬ t.completedWrites < t.submittedWrites := by
    rw [ht.completed, ht.submitted]
    decide
  have hdrained := manyPieces_step .drained hflushed ⟨rfl, hgate⟩
  -- behind the gate one write is still outstanding
  have hperm := (hall _ hdrained).completed rfl
  have hlen := (tiles_reach hdrained).length
  have hout : t.outstanding.length = 1 := by
    rw [ht.outstanding]
    rfl
  have hsame := hperm.length_eq
  rw [List.length_map] at hsame
  have hcount : t.accepted.length = t.outstanding.length + t.delivered.length := hlen
  have heq : t.accepted.length = t.delivered.length := hsame
  omega

/-! ### The content -/

/-- What the writes have left on the disk, as long as none has failed, and what a success closed. -/
structure Content (cfg : Config) (s : State) : Prop where
  written : (∀ ok, s.phase ≠ .finished ok) → s.writeError = false →
    ∀ d ∈ s.delivered, SparseFile.Holds s.received s.disk d.1.offset (d.1.offset + d.1.length)
  closed : s.phase = .finished true →
    ∃ disk, s.disk = SparseFile.ftruncate 0 disk cfg.expectedSize ∧ SparseFile.Holds s.received disk 0 s.received.length

theorem Content.goto (h : Content cfg s) {p : Phase} (hopen : ∀ ok, s.phase ≠ .finished ok)
    (hp : ∀ ok, p ≠ .finished ok) : Content cfg (s.goto p) :=
  ⟨fun _ => h.written hopen, fun hf => absurd hf (hp true)⟩

theorem Content.accept (h : Content cfg s) {len : ℕ} {p : Phase} (hopen : ∀ ok, s.phase ≠ .finished ok)
    (hp : ∀ ok, p ≠ .finished ok) : Content cfg ((s.accept cfg len).goto p) :=
  ⟨fun _ => h.written hopen, fun hf => absurd hf (hp true)⟩

theorem Content.deliver (h : Content cfg s) (ht : Tiles s) (hopen : ∀ ok, s.phase ≠ .finished ok)
    {d : IoRequest × IoResult} (hd : d.1 ∈ s.outstanding) : Content cfg (s.deliver d) := by
  refine ⟨fun _ herr => ?_, fun hf => absurd hf (hopen true)⟩
  have hsplit : ∀ r ∈ s.outstanding ++ s.delivered.map Prod.fst, r ∈ s.accepted := fun r hr => ht.split.mem_iff.2 hr
  have hmem : d.1 ∈ s.accepted := hsplit d.1 (List.mem_append_left _ hd)
  have hend : ∀ r ∈ s.accepted, r.offset + r.length ≤ s.received.length := by
    intro r hr
    exact le_trans (ht.tiles.le_end _ (List.mem_map.2 ⟨r, hr, rfl⟩)) ht.le
  -- a write that did not fail transferred all of its bytes
  have hboth : s.writeError = false ∧ WriteHandles.failed (d.1.completion d.2) = false := Bool.or_eq_false_iff.1 herr
  have hfull : d.2.transferred = d.1.length := by
    have hclean := hboth.2
    unfold WriteHandles.failed at hclean
    rw [Bool.or_eq_false_iff, bne_eq_false_iff_eq] at hclean
    exact hclean.2
  have hown := ht.own d.1 hmem
  have hlen : d.1.data.length = d.1.length := by
    have hbound := hend d.1 hmem
    rw [hown, List.length_take, List.length_drop]
    omega
  have htake : d.1.data.take d.2.transferred = d.1.data := by
    rw [hfull, ← hlen, List.take_length]
  have hstretch : d.1.data = (s.received.drop d.1.offset).take d.1.data.length := by
    rw [hlen]
    exact hown
  intro x hx
  show SparseFile.Holds s.received (SparseFile.pwrite 0 s.disk d.1.offset (d.1.data.take d.2.transferred)) _ _
  rw [htake]
  rcases List.mem_append.1 hx with hx | hx
  · have hx' : x.1 ∈ s.accepted := hsplit x.1 (List.mem_append_right _ (List.mem_map.2 ⟨x, hx, rfl⟩))
    exact (h.written hopen hboth.1 x hx).pwrite (hend x.1 hx') hstretch
  · rw [List.mem_singleton.1 hx, ← hlen]
    exact SparseFile.Holds.written hstretch

theorem Content.reap {done : List (IoRequest × IoResult)} (h : Content cfg s) (ht : Tiles s)
    (hopen : ∀ ok, s.phase ≠ .finished ok) (hd : Deliverable s.outstanding done) : Content cfg (s.reap done) := by
  unfold State.reap
  induction done generalizing s with
  | nil => exact h
  | cons d done ih => exact ih (h.deliver ht hopen hd.1) (ht.deliver hd.1) hopen hd.2

/-- Behind the gate of a clean stream the file begins with what was received. -/
theorem Content.whole (h : Content cfg s) (hc : Completes s) (hgate : s.phase = .closing) (herr : s.writeError = false) :
    SparseFile.Holds s.received s.disk 0 s.received.length := by
  have hbehind : s.phase.behindGate = true := by
    rw [hgate]
    rfl
  intro x hlo hhi
  obtain ⟨sp, hsp, hhas⟩ := ((hc.submitted hbehind).has x).1 ⟨hlo, hhi⟩
  obtain ⟨r, hr, rfl⟩ := List.mem_map.1 hsp
  obtain ⟨d, hd, rfl⟩ := List.mem_map.1 ((hc.completed hbehind).mem_iff.1 hr)
  exact h.written (fun ok hf => by rw [hgate] at hf; cases hf) herr d hd x hhas.1 hhas.2

theorem Content.exec (h : Content cfg s) (ht : Tiles s) (hs : Settled s) {e : Event} (hcan : e.Can cfg s) :
    Content cfg (e.exec cfg s) := by
  cases e with
  | fileChunk payload =>
    have hidle : s.phase = .idle := hcan
    refine ⟨fun _ herr d hd x hlo hhi => ?_, fun hf => (by cases hf)⟩
    have hold := h.written (fun ok hf => by rw [hidle] at hf; cases hf) herr d hd x hlo hhi
    have hacc : d.1 ∈ s.accepted :=
      ht.split.mem_iff.2 (List.mem_append_right _ (List.mem_map.2 ⟨d, hd, rfl⟩))
    have hend := ht.tiles.le_end _ (List.mem_map.2 ⟨d.1, hacc, rfl⟩)
    unfold spanOf at hend
    dsimp only at hend
    have hle := ht.le
    show s.disk[x]? = (s.received ++ payload)[x]?
    rw [List.getElem?_append_left (by omega)]
    exact hold
  | fileEnd => exact h.goto (fun ok hf => by rw [show s.phase = .idle from hcan] at hf; cases hf) (fun ok hf => by cases hf)
  | submit flushTail taken =>
    have hopen : ∀ ok, s.phase ≠ .finished ok := fun ok hf => by rw [hcan.1] at hf; cases hf
    show Content cfg (s.pump cfg flushTail taken)
    unfold State.pump
    split
    · split
      · exact h.accept hopen (fun ok hf => by cases hf)
      · exact h.accept hopen (fun ok hf => by cases hf)
    · cases flushTail with
      | false => exact h.goto hopen (fun ok hf => by cases hf)
      | true => exact h.goto hopen (fun ok hf => by cases hf)
  | pumped flushTail =>
    have hopen : ∀ ok, s.phase ≠ .finished ok := fun ok hf => by rw [hcan.1] at hf; cases hf
    cases flushTail with
    | false => exact h.goto hopen (fun ok hf => by cases hf)
    | true => exact h.goto hopen (fun ok hf => by cases hf)
  | reap done =>
    obtain ⟨hphase, hdone⟩ := hcan
    have hopen : ∀ ok, s.phase ≠ .finished ok ∧ Event.afterReap s.phase ≠ .finished ok := by
      intro ok
      rcases hphase with hp | hp | hp | ⟨hp, -⟩ <;> rw [hp] <;> exact ⟨nofun, nofun⟩
    exact (h.reap ht (fun ok => (hopen ok).1) hdone).goto (fun ok => by rw [reap_phase]; exact (hopen ok).1)
      (fun ok => (hopen ok).2)
  | drained => exact h.goto (fun ok hf => by rw [hcan.1] at hf; cases hf) (fun ok hf => by cases hf)
  | closeFile truncated rest =>
    have hclosing : s.phase = .closing := hcan
    refine ⟨fun hopen => absurd rfl (hopen _), fun hf => ?_⟩
    -- a success set the length, and no write had failed
    have hok : (!s.writeError && (truncated && rest)) = true := Phase.finished.inj hf
    rw [Bool.and_eq_true, Bool.and_eq_true, Bool.not_eq_true'] at hok
    obtain ⟨herr, htrunc, -⟩ := hok
    refine ⟨s.disk, ?_, h.whole (hs.completes ht) hclosing herr⟩
    show (if truncated = true then _ else _) = _
    rw [if_pos htrunc]

theorem content_reach (h : (machine cfg).Reach Fits s) : Content cfg s := by
  have hall : Content cfg s ∧ Settled s ∧ Tiles s := by
    refine h.invariant (I := fun s => Content cfg s ∧ Settled s ∧ Tiles s) ⟨?_, settled_reach .init⟩
      fun s e hi hcan hfits => ?_
    · exact ⟨fun _ _ d hd => (by cases hd), fun hf => (by cases hf)⟩
    · exact ⟨hi.1.exec hi.2.2 hi.2.1 hcan, hi.2.1.exec hi.2.2 hcan hfits, hi.2.2.exec hcan⟩
  exact hall.1

/-- **Transferred content**: in every run of a stream of fewer than `2 ^ 32` writes, a file that is counted
as transferred has exactly the bytes of its stream if and only if the stream is as long as the manifest said
when the file was opened. -/
theorem transferred_content_iff (cfg : Config) {s : State} (h : (machine cfg).Reach Fits s) :
    (s.phase = .finished true → s.disk = s.received) ↔ (s.phase = .finished true → s.received.length = cfg.expectedSize) := by
  constructor
  · intro hsame hf
    obtain ⟨disk, hdisk, -⟩ := (content_reach h).closed hf
    rw [← hsame hf, hdisk, SparseFile.ftruncate_length]
  · intro hlen hf
    obtain ⟨disk, hdisk, hholds⟩ := (content_reach h).closed hf
    rw [hdisk, ← hlen hf]
    exact SparseFile.ftruncate_eq hholds

theorem transferred_content_two :
    ((machine fiveBytes).run (machine fiveBytes).init twoChunks).disk = [1, 2, 3, 4, 5] :=
  (transferred_content_iff fiveBytes (Machine.reach_run (by decide))).2 (fun _ => by decide) (by decide)

/-- A manifest size of 5 MiB over an old target of 7 MiB. -/
def shrinking : Config := ⟨1, 2 ^ 20, 5 * 2 ^ 20, List.replicate (7 * 2 ^ 20) 9⟩

/-- The stream has two bytes. -/
def shrunk : List Event :=
  [.fileChunk [1, 2], .pumped false, .fileEnd, .submit true true, .reap [pieceAt 0 [1, 2]], .drained,
    .closeFile true true]

/-- A stream shorter than the manifest size leaves the old bytes behind its own. -/
theorem ftruncate_pwrite_short {bs : Bytes} {n len old : ℕ} (b : UInt8) (hbs : bs.length = n) (hn : n ≤ len)
    (hlen : len ≤ old) : SparseFile.ftruncate 0 (SparseFile.pwrite 0 (List.replicate old b) 0 bs) len =
      bs ++ List.replicate (len - n) b := by
  subst hbs
  have hwritten : SparseFile.pwrite 0 (List.replicate old b) 0 bs = bs ++ List.replicate (old - bs.length) b := by
    unfold SparseFile.pwrite
    rw [List.take_zero, List.nil_append, List.drop_replicate, Nat.zero_add]
  unfold SparseFile.ftruncate
  rw [hwritten, List.take_append, List.take_of_length_le hn, List.take_replicate, List.length_append, List.length_replicate,
    Nat.min_eq_left (by omega), show len - (bs.length + (old - bs.length)) = 0 by omega, List.replicate_zero,
    List.append_nil]

theorem disk_shrunk (len : ℕ) (target : Bytes) :
    ((machine ⟨1, 2 ^ 20, len, target⟩).run (machine ⟨1, 2 ^ 20, len, target⟩).init shrunk).disk =
      SparseFile.ftruncate 0 (SparseFile.pwrite 0 target 0 [1, 2]) len := rfl

/-- The file is counted as transferred with old bytes behind those of the stream. -/
theorem transferred_padded : ∃ s, (machine shrinking).Reach Fits s ∧ s.phase = .finished true ∧
    s.received = [1, 2] ∧ s.disk = [1, 2] ++ List.replicate (5 * 2 ^ 20 - 2) 9 := by
  refine ⟨(machine shrinking).run (machine shrinking).init shrunk, Machine.reach_run (by decide), by decide, by decide, ?_⟩
  exact (disk_shrunk _ _).trans (ftruncate_pwrite_short 9 rfl (by decide) (by decide))

end FastClone.StreamDownload
