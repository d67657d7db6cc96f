import FastClone.Proof.DeltaCsr
import FastClone.Proof.DeltaSize
import FastClone.Spec.DeltaSigner

/-!
# The streaming signer agrees with `generateSignatures`

* `StreamingSigner.Fed s B`: the block part of the signer's state after the bytes `B`.
  One iteration of the loop keeps it (`fed_absorb`), and so does a whole chunk
  (`fed_updateLoop`), however the chunk lies across the blocks.
* `streamingSigner_eq`: for every way of cutting a file into chunks, `finish` gives
  the signatures and the hash of the whole file, and it refuses exactly when the
  bytes fed do not add up to the declared size.
-/

namespace FastClone.Delta

namespace StreamingSigner

variable {X : Xxh3} {s s' : StreamingSigner X} {B rest : Bytes} {fileSize : ℕ}

/-- The length of block `i`. -/
def lenOf (s : StreamingSigner X) (i : ℕ) : ℕ := min s.blockSize (s.fileSize - i * s.blockSize)

/-- The signature of block `i` of the content `B`. -/
def sigOf (s : StreamingSigner X) (B : Bytes) (i : ℕ) : BlockSig :=
  ⟨(weakInit (slice B (i * s.blockSize) (s.lenOf i))).value,
    X.strongHash (slice B (i * s.blockSize) (s.lenOf i))⟩

/-- What the constructor fixes: every counted block starts inside the file. -/
structure Sized (s : StreamingSigner X) : Prop where
  fileSize_lt : s.fileSize < 2 ^ 64
  blockSize_le : s.blockSize ≤ kMaxBlock
  blockSize_pos : 0 < s.blockCount → 0 < s.blockSize
  count_lt : s.blockCount < 2 ^ 32
  starts : ∀ i < s.blockCount, i * s.blockSize < s.fileSize

/-- The current block has received the bytes of `B` from its start on, and is not full. -/
structure Current (s : StreamingSigner X) (B : Bytes) : Prop where
  len : s.curBlockLen = s.lenOf s.curBlockIndex
  room : s.curBlockFilled < s.curBlockLen
  size : B.length = s.curBlockIndex * s.blockSize + s.curBlockFilled
  weak : (s.weakS1, s.weakS2, s.weakJ) = weakFeed (0, 0, 0) (B.drop (s.curBlockIndex * s.blockSize))
  strong : X.stream.Holds s.blockState (B.drop (s.curBlockIndex * s.blockSize))

/-- The block part of the state after the bytes `B`. -/
structure Fed (s : StreamingSigner X) (B : Bytes) : Prop where
  index_le : s.curBlockIndex ≤ s.blockCount
  covered : ∀ i < s.curBlockIndex, i * s.blockSize + s.lenOf i ≤ B.length
  blocks : s.sig.blocks.toList = (List.range s.curBlockIndex).map (s.sigOf B)
  current : s.curBlockIndex < s.blockCount → s.Current B

/-- `s'` signs the same file as `s`, and has read as much of it for the whole-file hash. -/
structure Same (s s' : StreamingSigner X) : Prop where
  fileSize : s'.fileSize = s.fileSize
  blockSize : s'.blockSize = s.blockSize
  blockCount : s'.blockCount = s.blockCount
  consumed : s'.consumed = s.consumed
  fileState : s'.fileState = s.fileState
  sig : { s'.sig with blocks := #[] } = { s.sig with blocks := #[] }

theorem Same.refl (s : StreamingSigner X) : Same s s := ⟨rfl, rfl, rfl, rfl, rfl, rfl⟩

theorem Same.trans {s₁ s₂ s₃ : StreamingSigner X} (h : Same s₁ s₂) (h' : Same s₂ s₃) : Same s₁ s₃ :=
  ⟨h'.1.trans h.1, h'.2.trans h.2, h'.3.trans h.3, h'.4.trans h.4, h'.5.trans h.5, h'.6.trans h.6⟩

theorem Same.lenOf (h : Same s s') : s'.lenOf = s.lenOf := by
  funext i
  simp only [StreamingSigner.lenOf, h.fileSize, h.blockSize]

theorem Same.sigOf (h : Same s s') : s'.sigOf = s.sigOf := by
  funext B i
  simp only [StreamingSigner.sigOf, h.lenOf, h.blockSize]

theorem Same.sized (h : Same s s') (hs : s.Sized) : s'.Sized := by
  refine ⟨?_, ?_, ?_, ?_, ?_⟩
  · rw [h.fileSize]; exact hs.fileSize_lt
  · rw [h.blockSize]; exact hs.blockSize_le
  · rw [h.blockCount, h.blockSize]; exact hs.blockSize_pos
  · rw [h.blockCount]; exact hs.count_lt
  · rw [h.blockCount, h.blockSize, h.fileSize]; exact hs.starts

theorem Sized.lenOf_pos (hs : s.Sized) {i : ℕ} (hi : i < s.blockCount) : 0 < s.lenOf i := by
  have hpos := hs.blockSize_pos (by omega)
  have hstart := hs.starts i hi
  unfold StreamingSigner.lenOf
  omega

theorem Sized.lenOf_lt (hs : s.Sized) (i : ℕ) : s.lenOf i < 2 ^ 32 := by
  have hle := hs.blockSize_le
  unfold kMaxBlock at hle
  unfold StreamingSigner.lenOf
  omega

/-! ### One block -/

theorem slice_append_left {B Y : Bytes} {p len : ℕ} (h : p + len ≤ B.length) :
    slice (B ++ Y) p len = slice B p len := by
  unfold slice
  rw [List.drop_append_of_le_length (by omega), List.take_append_of_le_length]
  rw [List.length_drop]
  omega

/-- The signatures of the blocks inside `B` do not change as more bytes arrive. -/
theorem map_sigOf_append {n : ℕ} (h : ∀ i < n, i * s.blockSize + s.lenOf i ≤ B.length)
    (Y : Bytes) : (List.range n).map (s.sigOf (B ++ Y)) = (List.range n).map (s.sigOf B) := by
  refine List.map_congr_left fun i hi => ?_
  have hi' : i < n := List.mem_range.1 hi
  unfold sigOf
  rw [slice_append_left (h i hi')]

theorem weakFeed_append (acc : UInt32 × UInt32 × UInt32) (Y Z : Bytes) :
    weakFeed acc (Y ++ Z) = weakFeed (weakFeed acc Y) Z := List.foldl_append

/-- The sums of a whole block, masked at its end, are the checksum of `WeakInit`. -/
theorem weakFeed_value (Y : Bytes) :
    (((weakFeed (0, 0, 0) Y).2.1 &&& 0xFFFF) <<< 16) ||| ((weakFeed (0, 0, 0) Y).1 &&& 0xFFFF) =
      (weakInit Y).value := by
  unfold RollingWeak.value weakInit weakFeed
  simp only [UInt32.and_assoc, UInt32.and_self]

/-- Every field that `closeBlock` writes, by whether another block follows. -/
theorem closeBlock_same (s : StreamingSigner X) : Same s s.closeBlock := by
  unfold closeBlock
  dsimp only
  split <;> exact ⟨rfl, rfl, rfl, rfl, rfl, rfl⟩

theorem closeBlock_index (s : StreamingSigner X) :
    s.closeBlock.curBlockIndex = s.curBlockIndex + 1 := by
  unfold closeBlock
  dsimp only
  split <;> rfl

theorem closeBlock_blocks (s : StreamingSigner X) :
    s.closeBlock.sig.blocks.toList = s.sig.blocks.toList ++
      [⟨((s.weakS2 &&& 0xFFFF) <<< 16) ||| (s.weakS1 &&& 0xFFFF),
        X.canonical (X.stream.digest s.blockState)⟩] := by
  unfold closeBlock
  dsimp only
  split <;> exact Array.toList_push

/-- The next block starts empty, with its own length. -/
theorem closeBlock_current (hs : s.Sized) (hnext : s.curBlockIndex + 1 < s.blockCount)
    (hB : B.length = (s.curBlockIndex + 1) * s.blockSize) : s.closeBlock.Current B := by
  have hstart := hs.starts _ hnext
  have hpos := hs.lenOf_pos hnext
  have hoff : mul64 (s.curBlockIndex + 1) s.blockSize = (s.curBlockIndex + 1) * s.blockSize := by
    rw [mul64, Nat.mod_eq_of_lt]
    exact Nat.lt_trans hstart hs.fileSize_lt
  have hlen : u32 (min s.blockSize
      (sub64 s.fileSize (mul64 (s.curBlockIndex + 1) s.blockSize))) =
      s.lenOf (s.curBlockIndex + 1) := by
    rw [hoff, sub64_of_le (Nat.le_of_lt hstart) hs.fileSize_lt]
    exact u32_of_lt (hs.lenOf_lt _)
  have hdrop : B.drop ((s.curBlockIndex + 1) * s.blockSize) = [] := by
    rw [← hB, List.drop_length]
  unfold closeBlock
  dsimp only
  rw [if_pos hnext, hlen]
  refine ⟨rfl, hpos, hB, ?_, ?_⟩
  · simp only [hdrop]
    rfl
  · simp only [hdrop]
    exact Incremental.holds_reset

/-- **Closing a full block** stores its signature. -/
theorem fed_closeBlock (hX : X.stream.Computes X.xxh3_128bits) (hs : s.Sized)
    (hcov : ∀ i < s.curBlockIndex, i * s.blockSize + s.lenOf i ≤ B.length)
    (hblocks : s.sig.blocks.toList = (List.range s.curBlockIndex).map (s.sigOf B))
    (hidx : s.curBlockIndex < s.blockCount)
    (hB : B.length = s.curBlockIndex * s.blockSize + s.lenOf s.curBlockIndex)
    (hweak : (s.weakS1, s.weakS2, s.weakJ) =
      weakFeed (0, 0, 0) (B.drop (s.curBlockIndex * s.blockSize)))
    (hstrong : X.stream.Holds s.blockState (B.drop (s.curBlockIndex * s.blockSize))) :
    s.closeBlock.Fed B := by
  have hsame := s.closeBlock_same
  -- the bytes of the current block are all of `B` from its start on
  have hslice : slice B (s.curBlockIndex * s.blockSize) (s.lenOf s.curBlockIndex) =
      B.drop (s.curBlockIndex * s.blockSize) := by
    unfold slice
    rw [List.take_of_length_le]
    rw [List.length_drop]
    omega
  refine ⟨?_, ?_, ?_, ?_⟩
  · rw [closeBlock_index, hsame.blockCount]
    omega
  · intro i hi
    rw [closeBlock_index] at hi
    rw [hsame.blockSize, hsame.lenOf]
    rcases Nat.lt_succ_iff_lt_or_eq.1 hi with h | h
    · exact hcov i h
    · rw [h, hB]
  · rw [closeBlock_blocks, closeBlock_index, hsame.sigOf, List.range_succ, List.map_append, ← hblocks]
    have hw1 : s.weakS1 = (weakFeed (0, 0, 0) (B.drop (s.curBlockIndex * s.blockSize))).1 := by
      rw [← hweak]
    have hw2 : s.weakS2 = (weakFeed (0, 0, 0) (B.drop (s.curBlockIndex * s.blockSize))).2.1 := by
      rw [← hweak]
    rw [hw1, hw2, weakFeed_value, hstrong.digest_eq hX]
    simp only [List.map_cons, List.map_nil, sigOf, hslice]
    rfl
  · intro hnext
    rw [closeBlock_index, hsame.blockCount] at hnext
    refine closeBlock_current hs hnext ?_
    -- a block that another one follows is full size
    have hfull : s.lenOf s.curBlockIndex = s.blockSize := by
      have hstart := hs.starts _ hnext
      rw [Nat.add_mul, Nat.one_mul] at hstart
      unfold lenOf
      omega
    rw [hB, hfull, Nat.add_mul, Nat.one_mul]

/-! ### One iteration and one chunk -/

theorem fill_same (s : StreamingSigner X) (piece : Bytes) : Same s (s.fill piece) :=
  ⟨rfl, rfl, rfl, rfl, rfl, rfl⟩

theorem fill_keeps (s : StreamingSigner X) (piece : Bytes) :
    (s.fill piece).curBlockIndex = s.curBlockIndex ∧ (s.fill piece).curBlockLen = s.curBlockLen ∧
      (s.fill piece).sig = s.sig :=
  ⟨rfl, rfl, rfl⟩

theorem absorb_same (s : StreamingSigner X) (rest : Bytes) : Same s (s.absorb rest).1 := by
  unfold absorb
  dsimp only
  split
  · exact (s.fill_same _).trans (closeBlock_same _)
  · exact s.fill_same _

/-- Some bytes of the chunk fit into the current block, and no more than are missing. -/
theorem Current.span_eq (hc : s.Current B) (hs : s.Sized) (rest : Bytes) :
    s.span rest = min (s.curBlockLen - s.curBlockFilled) rest.length := by
  have hlt := hs.lenOf_lt s.curBlockIndex
  have hroom := hc.room
  rw [← hc.len] at hlt
  unfold span u32
  dsimp only
  congr 1
  omega

theorem Current.drop_append (hc : s.Current B) (Y : Bytes) :
    (B ++ Y).drop (s.curBlockIndex * s.blockSize) =
      B.drop (s.curBlockIndex * s.blockSize) ++ Y :=
  List.drop_append_of_le_length (by rw [hc.size]; omega)

theorem Current.fill_weak (hc : s.Current B) (piece : Bytes) :
    ((s.fill piece).weakS1, (s.fill piece).weakS2, (s.fill piece).weakJ) =
      weakFeed (0, 0, 0) ((B ++ piece).drop (s.curBlockIndex * s.blockSize)) := by
  rw [hc.drop_append, weakFeed_append, ← hc.weak]
  rfl

theorem Current.fill_strong (hc : s.Current B) (piece : Bytes) :
    X.stream.Holds (s.fill piece).blockState
      ((B ++ piece).drop (s.curBlockIndex * s.blockSize)) := by
  rw [hc.drop_append]
  exact hc.strong.updateIf piece

theorem Current.fill_filled (hc : s.Current B) (hs : s.Sized) (piece : Bytes)
    (h : piece.length ≤ s.curBlockLen - s.curBlockFilled) :
    (s.fill piece).curBlockFilled = s.curBlockFilled + piece.length := by
  have hlt := hs.lenOf_lt s.curBlockIndex
  have hroom := hc.room
  rw [← hc.len] at hlt
  exact u32_of_lt (by omega)

/-- Blocks closed before stay covered and signed. -/
theorem Fed.covered_append (h : s.Fed B) (Y : Bytes) :
    ∀ i < s.curBlockIndex, i * s.blockSize + s.lenOf i ≤ (B ++ Y).length := by
  intro i hi
  have hle := h.covered i hi
  rw [List.length_append]
  omega

theorem Fed.blocks_append (h : s.Fed B) (Y : Bytes) :
    s.sig.blocks.toList = (List.range s.curBlockIndex).map (s.sigOf (B ++ Y)) := by
  rw [map_sigOf_append h.covered, h.blocks]

/-- **One iteration** takes a non-empty piece of the chunk into the current block. -/
theorem fed_absorb (hX : X.stream.Computes X.xxh3_128bits) (hs : s.Sized) (h : s.Fed B)
    (hidx : s.curBlockIndex < s.blockCount) (hrest : rest ≠ []) :
    0 < s.span rest ∧ (s.absorb rest).1.Fed (B ++ rest.take (s.span rest)) := by
  have hc := h.current hidx
  have hspan := hc.span_eq hs rest
  have hroom := hc.room
  have hpos : 0 < rest.length := List.length_pos_iff.2 hrest
  have hpl : (rest.take (s.span rest)).length = s.span rest := by
    rw [List.length_take]
    omega
  have hfill := hc.fill_filled hs (rest.take (s.span rest)) (by omega)
  have hweak := hc.fill_weak (rest.take (s.span rest))
  have hstrong := hc.fill_strong (rest.take (s.span rest))
  have hsame := s.fill_same (rest.take (s.span rest))
  obtain ⟨hidx', hlen', hsig'⟩ := s.fill_keeps (rest.take (s.span rest))
  have hcov := h.covered_append (rest.take (s.span rest))
  have hblocks := h.blocks_append (rest.take (s.span rest))
  have hsize : (B ++ rest.take (s.span rest)).length =
      s.curBlockIndex * s.blockSize + (s.curBlockFilled + s.span rest) := by
    rw [List.length_append, hpl, hc.size, Nat.add_assoc]
  refine ⟨by omega, ?_⟩
  rw [hpl] at hfill
  unfold absorb
  dsimp only
  -- from here on only these facts about the filled state matter
  generalize s.fill (rest.take (s.span rest)) = t at *
  rw [← hidx', ← hsame.blockSize] at hweak hstrong hsize
  rw [← hidx', ← hsame.blockSize, ← hsame.lenOf] at hcov
  rw [← hidx', ← hsame.sigOf, ← hsig'] at hblocks
  have hlen : t.curBlockLen = t.lenOf t.curBlockIndex := by
    rw [hlen', hidx', hsame.lenOf, hc.len]
  split
  · rename_i hfull
    refine fed_closeBlock hX (hsame.sized hs) hcov hblocks ?_ ?_ hweak hstrong
    · rw [hidx', hsame.blockCount]
      exact hidx
    · rw [hsize, ← hfill, hfull, hlen]
  · rename_i hopen
    refine ⟨?_, hcov, hblocks, fun _ => ⟨hlen, ?_, ?_, hweak, hstrong⟩⟩
    · rw [hidx', hsame.blockCount]
      exact h.index_le
    · omega
    · rw [hsize, hfill]

/-- Bytes after the last counted block change no signature. -/
theorem Fed.past (h : s.Fed B) (hidx : ¬ s.curBlockIndex < s.blockCount) (Y : Bytes) :
    s.Fed (B ++ Y) := by
  exact ⟨h.index_le, h.covered_append Y, h.blocks_append Y, fun hlt => absurd hlt hidx⟩

/-- **A whole chunk**: the loop ends within its fuel. -/
theorem fed_updateLoop (hX : X.stream.Computes X.xxh3_128bits) :
    ∀ (fuel : ℕ) (s : StreamingSigner X) (B rest : Bytes), rest.length ≤ fuel → s.Sized → s.Fed B →
      ∃ s', updateLoop fuel s rest = some s' ∧ Same s s' ∧ s'.Fed (B ++ rest) := by
  intro fuel
  induction fuel with
  | zero =>
    intro s B rest hfuel hs h
    have hnil : rest = [] := List.length_eq_zero_iff.1 (by omega)
    refine ⟨s, ?_, Same.refl s, by rwa [hnil, List.append_nil]⟩
    rw [updateLoop, if_neg (fun hc => hc.1 hnil)]
  | succ fuel ih =>
    intro s B rest hfuel hs h
    rw [updateLoop]
    split
    · rename_i hc
      obtain ⟨hpos, hfed⟩ := fed_absorb hX hs h hc.2 hc.1
      have hsame := absorb_same s rest
      have hlen : (rest.drop (s.span rest)).length ≤ fuel := by
        rw [List.length_drop]
        omega
      obtain ⟨s', hrun, hsame', hfed'⟩ := ih _ _ _ hlen (hsame.sized hs) hfed
      refine ⟨s', hrun, hsame.trans hsame', ?_⟩
      rwa [List.append_assoc, List.take_append_drop] at hfed'
    · rename_i hc
      refine ⟨s, rfl, Same.refl s, ?_⟩
      by_cases hnil : rest = []
      · rwa [hnil, List.append_nil]
      · exact h.past (fun hlt => hc ⟨hnil, hlt⟩) rest

/-! ### All chunks -/

/-- The quotient before narrowing is at most the number of blocks, also where the sum wraps. -/
theorem count_le (len : ℕ) {L : ℕ} (hL : 0 < L) :
    u32 (sub64 (add64 len L) 1 / L) ≤ (len + L - 1) / L := by
  refine Nat.le_trans (u32_le _) (Nat.div_le_div_right ?_)
  unfold sub64 add64
  omega

theorem init_sized (h : fileSize < 2 ^ 64) : (init X fileSize).Sized := by
  have hL := chooseBlockSize_pos fileSize
  unfold init
  split
  · exact ⟨h, Nat.zero_le _, fun h0 => absurd h0 (Nat.lt_irrefl 0),
      Nat.two_pow_pos 32, fun i hi => absurd hi (Nat.not_lt_zero i)⟩
  · refine ⟨h, chooseBlockSize_le fileSize, fun _ => hL, Nat.mod_lt _ (by decide), ?_⟩
    intro i hi
    have hq : i + 1 ≤ (fileSize + chooseBlockSize fileSize - 1) / chooseBlockSize fileSize :=
      Nat.lt_of_lt_of_le hi (count_le fileSize hL)
    have hmul := (Nat.le_div_iff_mul_le hL).1 hq
    rw [Nat.add_mul, Nat.one_mul] at hmul
    show i * chooseBlockSize fileSize < fileSize
    omega

theorem init_fed (h : fileSize < 2 ^ 64) : (init X fileSize).Fed [] := by
  have hs := init_sized (X := X) h
  have hidx : (init X fileSize).curBlockIndex = 0 := by
    unfold init
    split <;> rfl
  have hblocks : (init X fileSize).sig.blocks.toList = [] := by
    unfold init
    split <;> rfl
  refine ⟨by omega, fun i hi => by omega, by rw [hblocks, hidx]; rfl, fun hlt => ?_⟩
  rw [hidx] at hlt
  have hlen : (init X fileSize).curBlockLen = (init X fileSize).lenOf 0 := by
    have hpos := hs.lenOf_lt 0
    revert hlt hpos
    unfold init lenOf
    split
    · intro hlt
      exact absurd hlt (Nat.lt_irrefl 0)
    · intro _ hpos
      rw [Nat.zero_mul, Nat.sub_zero] at hpos ⊢
      exact u32_of_lt hpos
  have hstart : (init X fileSize).curBlockFilled = 0 ∧
      ((init X fileSize).weakS1, (init X fileSize).weakS2, (init X fileSize).weakJ) = (0, 0, 0) ∧
      (init X fileSize).blockState = X.stream.reset := by
    unfold init
    split <;> exact ⟨rfl, rfl, rfl⟩
  refine ⟨by rw [hidx, hlen], ?_, ?_, ?_, ?_⟩
  · rw [hstart.1, hlen]
    exact hs.lenOf_pos hlt
  · rw [hidx, hstart.1, Nat.zero_mul]
    rfl
  · rw [hstart.2.1, List.drop_nil]
    rfl
  · rw [hstart.2.2, List.drop_nil]
    exact Incremental.holds_reset

/-- The state of a signer for `fileSize` bytes after the bytes `B`. -/
structure After (fileSize : ℕ) (s : StreamingSigner X) (B : Bytes) : Prop where
  sized : s.Sized
  fed : s.Fed B
  consumed : s.consumed = B.length % 2 ^ 64
  hash : X.stream.Holds s.fileState B
  fileSize_eq : s.fileSize = fileSize
  blockSize_eq : s.blockSize = s.sig.blockSize
  blockCount_eq : s.blockCount = s.sig.blockCount
  sig_eq : { s.sig with blocks := #[] } = (init X fileSize).sig

theorem after_init (h : fileSize < 2 ^ 64) : After fileSize (init X fileSize) [] := by
  have hstart : (init X fileSize).consumed = 0 ∧ (init X fileSize).fileState = X.stream.reset ∧
      (init X fileSize).fileSize = fileSize ∧
      (init X fileSize).blockSize = (init X fileSize).sig.blockSize ∧
      (init X fileSize).blockCount = (init X fileSize).sig.blockCount ∧
      (init X fileSize).sig.blocks = #[] := by
    unfold init
    split <;> exact ⟨rfl, rfl, rfl, rfl, rfl, rfl⟩
  obtain ⟨hcon, hstate, hsize, hbs, hcount, hblocks⟩ := hstart
  refine ⟨init_sized h, init_fed h, hcon, ?_, hsize, hbs, hcount, ?_⟩
  · rw [hstate]
    exact Incremental.holds_reset
  · rw [← hblocks]

/-- **One call of `Update`.** -/
theorem after_update (hX : X.stream.Computes X.xxh3_128bits) (h : After fileSize s B)
    (data : Bytes) : ∃ s', s.update data = some s' ∧ After fileSize s' (B ++ data) := by
  let t : StreamingSigner X := { s with
    fileState := if data.length > 0 then X.stream.update s.fileState data else s.fileState
    consumed := add64 s.consumed data.length }
  have hsized : t.Sized := ⟨h.sized.1, h.sized.2, h.sized.3, h.sized.4, h.sized.5⟩
  have hfed : t.Fed B := by
    refine ⟨h.fed.index_le, h.fed.covered, h.fed.blocks, fun hlt => ?_⟩
    have hc := h.fed.current hlt
    exact ⟨hc.len, hc.room, hc.size, hc.weak, hc.strong⟩
  obtain ⟨s', hrun, hsame, hfed'⟩ := fed_updateLoop hX data.length t B data le_rfl hsized hfed
  refine ⟨s', hrun, hsame.sized hsized, hfed', ?_, ?_, ?_, ?_, ?_, ?_⟩
  · rw [hsame.consumed, List.length_append]
    show add64 s.consumed data.length = _
    rw [h.consumed, add64, Nat.mod_add_mod]
  · rw [hsame.fileState]
    exact h.hash.updateIf data
  · rw [hsame.fileSize]
    exact h.fileSize_eq
  · rw [hsame.blockSize]
    exact h.blockSize_eq.trans (congrArg SignatureSet.blockSize hsame.sig).symm
  · rw [hsame.blockCount]
    exact h.blockCount_eq.trans (congrArg SignatureSet.blockCount hsame.sig).symm
  · rw [hsame.sig]
    exact h.sig_eq

/-- **Any sequence of calls.** -/
theorem after_feed (hX : X.stream.Computes X.xxh3_128bits) :
    ∀ (chunks : List Bytes) (s : StreamingSigner X) (B : Bytes), After fileSize s B →
      ∃ s', s.feed chunks = some s' ∧ After fileSize s' (B ++ chunks.flatten) := by
  intro chunks
  induction chunks with
  | nil =>
    intro s B h
    exact ⟨s, rfl, by rwa [List.flatten_nil, List.append_nil]⟩
  | cons data chunks ih =>
    intro s B h
    obtain ⟨t, ht, hafter⟩ := after_update hX h data
    obtain ⟨s', hs', hafter'⟩ := ih t _ hafter
    refine ⟨s', ?_, ?_⟩
    · unfold feed at hs' ⊢
      rw [List.foldlM_cons, ht]
      exact hs'
    · rwa [List.flatten_cons, ← List.append_assoc]

/-- When all bytes of the file have arrived, every block is closed. -/
theorem After.complete (h : After fileSize s B) (hB : B.length = fileSize) :
    s.curBlockIndex = s.blockCount := by
  by_contra hne
  have hlt : s.curBlockIndex < s.blockCount := Nat.lt_of_le_of_ne h.fed.index_le hne
  have hc := h.fed.current hlt
  have hroom := hc.room
  have hsize := hc.size
  rw [hc.len, lenOf, h.fileSize_eq] at hroom
  omega

theorem sig_ext {a b : SignatureSet}
    (h : { a with blocks := #[] } = { b with blocks := #[] }) (hb : a.blocks.toList = b.blocks.toList) :
    a = b := by
  cases a
  cases b
  simp_all

/-- The constructor computes the parameters of `generateSignatures`. -/
theorem init_sig (hB : B.length = fileSize) :
    (init X fileSize).sig = { generateSignatures X.strongHash B with blocks := #[] } := by
  subst hB
  unfold init generateSignatures
  by_cases h0 : B.length = 0
  · simp only [if_pos h0]
  · simp only [if_neg h0]

theorem generateSignatures_blocks (strongHash : Bytes → Strong) (B : Bytes) :
    let sig := generateSignatures strongHash B
    sig.blocks.toList = (List.range sig.blockCount).map fun i =>
      let Y := slice B (i * sig.blockSize) (min sig.blockSize (B.length - i * sig.blockSize))
      ⟨(weakInit Y).value, strongHash Y⟩ := by
  unfold generateSignatures
  dsimp only
  split
  · rfl
  · simp only [Array.toList_map, Array.toList_range]

/-- The signatures are those of the whole content. -/
theorem After.sig_whole (h : After fileSize s B) (hB : B.length = fileSize) :
    s.sig = generateSignatures X.strongHash B := by
  have hparams := h.sig_eq.trans (init_sig hB)
  have hblocks := h.fed.blocks
  rw [h.complete hB, h.blockCount_eq] at hblocks
  unfold sigOf lenOf at hblocks
  rw [h.blockSize_eq, h.fileSize_eq, ← hB] at hblocks
  have hcount := congrArg SignatureSet.blockCount hparams
  have hbs := congrArg SignatureSet.blockSize hparams
  dsimp only at hcount hbs
  refine sig_ext hparams ?_
  rw [hblocks, generateSignatures_blocks, hcount, hbs]

/-- `Finish` on the whole content gives its signatures and its hash. -/
theorem After.finish_whole (hX : X.stream.Computes X.xxh3_128bits) (h : After fileSize s B)
    (hcon : s.consumed = B.length) (hB : B.length = fileSize) :
    s.finish = .ok ⟨generateSignatures X.strongHash B, X.computeBufferHash B⟩ := by
  unfold finish
  rw [if_neg (by rw [hcon, h.fileSize_eq]; exact not_not.2 hB), h.sig_whole hB, h.hash.digest_eq hX]
  rfl

/-- Feeding a file of the declared size in any chunks. -/
theorem feed_whole (hX : X.stream.Computes X.xxh3_128bits) {chunks : List Bytes}
    (hB : chunks.flatten = B) (hlt : B.length < 2 ^ 64) :
    ∃ s, (init X B.length).feed chunks = some s ∧
      s.finish = .ok ⟨generateSignatures X.strongHash B, X.computeBufferHash B⟩ := by
  obtain ⟨s, hrun, hafter⟩ := after_feed hX chunks _ _ (after_init (X := X) hlt)
  rw [List.nil_append, hB] at hafter
  refine ⟨s, hrun, hafter.finish_whole hX ?_ rfl⟩
  rw [hafter.consumed, Nat.mod_eq_of_lt hlt]

end StreamingSigner

open StreamingSigner in
/-- **The streaming signer equals the batch signer**: however the bytes are cut into
chunks, `Update` returns, `Finish` gives the signatures and the hash of the whole
content when the declared size is its size, and throws exactly when it is not. The
bound on the bytes fed is that of the 64-bit counter. -/
theorem streamingSigner_eq (X : Xxh3) (hX : X.stream.Computes X.xxh3_128bits) (fileSize : ℕ)
    (hsize : fileSize < 2 ^ 64) (chunks : List Bytes) (hfed : chunks.flatten.length < 2 ^ 64) :
    ∃ s, (init X fileSize).feed chunks = some s ∧
      (chunks.flatten.length = fileSize → s.finish = .ok
        ⟨generateSignatures X.strongHash chunks.flatten, X.computeBufferHash chunks.flatten⟩) ∧
      ((∃ e, s.finish = .error e) ↔ chunks.flatten.length ≠ fileSize) := by
  obtain ⟨s, hrun, hafter⟩ := after_feed hX chunks _ _ (after_init (X := X) hsize)
  rw [List.nil_append] at hafter
  have hcon : s.consumed = chunks.flatten.length := by
    rw [hafter.consumed, Nat.mod_eq_of_lt hfed]
  have hok : chunks.flatten.length = fileSize → s.finish = .ok
      ⟨generateSignatures X.strongHash chunks.flatten, X.computeBufferHash chunks.flatten⟩ :=
    hafter.finish_whole hX hcon
  refine ⟨s, hrun, hok, ?_⟩
  constructor
  · rintro ⟨e, he⟩ hB
    rw [hok hB] at he
    cases he
  · intro hne
    refine ⟨"StreamingSigner: fed byte count does not match fileSize", ?_⟩
    unfold finish
    rw [if_pos (by rw [hcon, hafter.fileSize_eq]; exact hne)]

/-- `XXH64_avalanche` with its two primes. -/
def xxh64Avalanche (h : UInt64) : UInt64 :=
  let h := (h ^^^ (h >>> 33)) * 0xC2B2AE3D27D4EB4F
  let h := (h ^^^ (h >>> 29)) * 0x165667B19E3779F9
  h ^^^ (h >>> 32)

/-- XXH3-128 of at most three bytes, as its low and high words. -/
def xxh3Short (data : Bytes) : UInt64 × UInt64 :=
  match data with
  | [] => (0x6001C324468D497F, 0x99AA06D3014798D8)
  | c1 :: _ =>
    let c2 := data.getD (data.length / 2) 0
    let c3 := data.getD (data.length - 1) 0
    let lo : UInt32 := (c1.toUInt32 <<< 16) ||| (c2.toUInt32 <<< 24) ||| c3.toUInt32 |||
      (UInt32.ofNat data.length <<< 8)
    let swapped : UInt32 := (lo <<< 24) ||| ((lo <<< 8) &&& (0xFF0000 : UInt32)) ||| ((lo >>> 8) &&& (0xFF00 : UInt32)) |||
      (lo >>> 24)
    let hi : UInt32 := (swapped <<< 13) ||| (swapped >>> 19)
    (xxh64Avalanche (lo.toUInt64 ^^^ 0x87275A9B), xxh64Avalanche (hi.toUInt64 ^^^ 0x302C208B))

/-- Byte `i` of the sixteen bytes of two words, the first word first, each little-endian. -/
def wordsLe (a b : UInt64) : Strong :=
  Vector.ofFn fun i => (if i.val < 8 then a >>> UInt64.ofNat (8 * i.val)
    else b >>> UInt64.ofNat (8 * (i.val - 8))).toUInt8

/-- The library on short inputs, with a state that keeps the bytes. -/
def shortXxh3 : Xxh3 where
  Digest := UInt64 × UInt64
  stream := Incremental.buffered xxh3Short
  xxh3_128bits := xxh3Short
  canonical d := (wordsLe d.1 d.2).reverse
  raw d := wordsLe d.1 d.2

/-- Three bytes in three chunks, the middle one empty. -/
theorem streamingSigner_eq_pieces :
    ∃ s, (StreamingSigner.init shortXxh3 3).feed [[7], [], [8, 9]] = some s ∧
      s.finish = .ok
        ⟨generateSignatures shortXxh3.strongHash [7, 8, 9], shortXxh3.computeBufferHash [7, 8, 9]⟩ := by
  obtain ⟨s, hrun, hok, -⟩ := streamingSigner_eq shortXxh3 (Incremental.buffered_computes xxh3Short) 3
    (by decide) [[7], [], [8, 9]] (by decide)
  exact ⟨s, hrun, hok rfl⟩

end FastClone.Delta
