import FastClone.Spec.Frames
import FastClone.Proof.Wire
import Mathlib.Data.UInt

/-!
# Frame streams

* `sends_wire`: whatever the calls take at a time, what an accepted list of sends leaves on
  the wire is its frames, header and payload, one after the other.
* `recvAll_eq`: whatever the calls return at a time, `RecvAll` takes the next bytes.
* `recvFrames_iff`: the receiver gets the frames back exactly when none of them is longer
  than it accepts and each has a known type.
-/

namespace FastClone.Frames

open FastClone.Delta

/-! ### Taking an `Except` apart -/

theorem bind_ok_inv {α β : Type} {x : Except Error α} {k : α → Except Error β} {b : β}
    (h : (x >>= k) = .ok b) : ∃ a, x = .ok a ∧ k a = .ok b := by
  cases x with
  | error e => cases h
  | ok a => exact ⟨a, rfl, h⟩

/-! ### Sending -/

theorem write_inv {s s' : Outbox} {offered : Bytes} {sent : ℕ} (h : s.write offered = .ok (sent, s')) :
    s'.wire = s.wire ++ offered.take sent ∧ sent ≤ offered.length ∧ (offered ≠ [] → 0 < sent) := by
  unfold Outbox.write at h
  split at h
  · cases h
  · rename_i n hn
    cases h
    refine ⟨rfl, Nat.min_le_right _ _, fun hne => ?_⟩
    have hpos := List.length_pos_of_ne_nil hne
    omega

theorem sendLoop_wire : ∀ (rounds : ℕ) {s s' : Outbox} {data : Bytes}, data.length ≤ rounds →
    sendLoop rounds s data = .ok s' → s'.wire = s.wire ++ data := by
  intro rounds
  induction rounds with
  | zero =>
    intro s s' data hlen h
    obtain rfl := List.length_eq_zero_iff.1 (Nat.le_zero.1 hlen)
    cases h
    rw [List.append_nil]
  | succ rounds ih =>
    intro s s' data hlen h
    rw [sendLoop] at h
    split at h
    · rename_i hdata
      cases h
      rw [hdata, List.append_nil]
    · rename_i hdata
      obtain ⟨⟨sent, s₁⟩, hw, h⟩ := bind_ok_inv h
      obtain ⟨hwire, -, hpos⟩ := write_inv hw
      have hsent := hpos hdata
      have hrest := ih (by rw [List.length_drop]; omega) h
      rw [hrest, hwire, List.append_assoc, List.take_append_drop]

theorem sendAll_wire {s s' : Outbox} {data : Bytes} (h : sendAll s data = .ok s') :
    s'.wire = s.wire ++ data :=
  sendLoop_wire _ (Nat.le_refl _) h

theorem advance_flatten : ∀ (pending : List Bytes) (n : ℕ),
    (advance n pending).flatten = pending.flatten.drop n := by
  intro pending
  induction pending with
  | nil => intro n; rw [advance, List.flatten_nil, List.drop_nil]
  | cons b bs ih =>
    intro n
    rw [advance, List.flatten_cons, List.drop_append]
    split
    · rename_i hb
      rw [ih, List.drop_eq_nil_of_le hb, List.nil_append]
    · rename_i hb
      rw [List.flatten_cons, Nat.sub_eq_zero_of_le (by omega), List.drop_zero]

theorem advance_length : ∀ (pending : List Bytes) (n : ℕ), (advance n pending).length ≤ pending.length := by
  intro pending
  induction pending with
  | nil => intro n; exact Nat.le_refl _
  | cons b bs ih =>
    intro n
    rw [advance]
    split
    · have := ih (n - b.length)
      rw [List.length_cons]
      omega
    · exact Nat.le_refl _

/-- A round takes a byte or, where nothing is offered, skips an empty buffer. -/
theorem advance_progress {limit sent : ℕ} {pending : List Bytes} (hlimit : 0 < limit)
    (hne : pending ≠ []) (hsent : sent ≤ (pending.take limit).flatten.length)
    (hpos : (pending.take limit).flatten ≠ [] → 0 < sent) :
    (advance sent pending).flatten.length + (advance sent pending).length <
      pending.flatten.length + pending.length := by
  have hlen := advance_length pending sent
  have hoffered : (pending.take limit).flatten.length ≤ pending.flatten.length := by
    conv_rhs => rw [← List.take_append_drop limit pending, List.flatten_append, List.length_append]
    omega
  rw [advance_flatten, List.length_drop]
  by_cases hoff : (pending.take limit).flatten = []
  · obtain ⟨b, bs, rfl⟩ := List.exists_cons_of_ne_nil hne
    obtain ⟨l, rfl⟩ : ∃ l, limit = l + 1 := ⟨limit - 1, by omega⟩
    have hb : b = [] := by
      rw [List.take_succ_cons, List.flatten_cons] at hoff
      exact (List.append_eq_nil_iff.1 hoff).1
    have hskip : (advance sent (b :: bs)).length ≤ bs.length := by
      rw [advance, if_pos (by rw [hb]; exact Nat.zero_le _)]
      exact advance_length _ _
    rw [List.length_cons]
    omega
  · have := hpos hoff
    omega

theorem sendBuffersLoop_wire {limit : ℕ} (hlimit : 0 < limit) :
    ∀ (rounds : ℕ) {s s' : Outbox} {pending : List Bytes},
      pending.flatten.length + pending.length ≤ rounds →
      sendBuffersLoop limit rounds s pending = .ok s' → s'.wire = s.wire ++ pending.flatten := by
  intro rounds
  induction rounds with
  | zero =>
    intro s s' pending hlen h
    obtain rfl : pending = [] := List.length_eq_zero_iff.1 (by omega)
    cases h
    rw [List.flatten_nil, List.append_nil]
  | succ rounds ih =>
    intro s s' pending hlen h
    rw [sendBuffersLoop] at h
    split at h
    · rename_i hp
      cases h
      rw [hp, List.flatten_nil, List.append_nil]
    · rename_i hp
      obtain ⟨⟨sent, s₁⟩, hw, h⟩ := bind_ok_inv h
      obtain ⟨hwire, hle, hpos⟩ := write_inv hw
      have hprog := advance_progress hlimit hp hle hpos
      have hrest := ih (by omega) h
      have htake : (pending.take limit).flatten.take sent = pending.flatten.take sent := by
        conv_rhs => rw [← List.take_append_drop limit pending, List.flatten_append]
        rw [List.take_append_of_le_length hle]
      rw [hrest, hwire, advance_flatten, htake, List.append_assoc, List.take_append_drop]

theorem sendBuffersAll_wire {net : Net} {s s' : Outbox} {buffers : List Bytes}
    (h : sendBuffersAll net s buffers = .ok s') : s'.wire = s.wire ++ (net.pending buffers).flatten :=
  sendBuffersLoop_wire net.iovLimit_pos _ (Nat.le_refl _) h

/-! ### No call fails -/

/-- Every call to come takes a byte at least. -/
def Outbox.Live (s : Outbox) : Prop := ∀ i, 0 < s.answers i

theorem write_live {s : Outbox} (h : s.Live) (offered : Bytes) :
    ∃ sent s', s.write offered = .ok (sent, s') ∧ s'.Live := by
  obtain ⟨n, hn⟩ : ∃ n, s.answers 0 = n + 1 := ⟨s.answers 0 - 1, by have := h 0; omega⟩
  have hw : s.write offered = .ok (min (n + 1) offered.length,
      { wire := s.wire ++ offered.take (min (n + 1) offered.length), answers := fun i => s.answers (i + 1) }) := by
    unfold Outbox.write
    rw [hn]
  exact ⟨_, _, hw, fun i => h (i + 1)⟩

theorem sendLoop_live : ∀ (rounds : ℕ) {s : Outbox} (data : Bytes), s.Live →
    ∃ s', sendLoop rounds s data = .ok s' ∧ s'.Live := by
  intro rounds
  induction rounds with
  | zero => intro s data h; exact ⟨s, rfl, h⟩
  | succ rounds ih =>
    intro s data h
    rw [sendLoop]
    split
    · exact ⟨s, rfl, h⟩
    · obtain ⟨sent, s₁, hw, h₁⟩ := write_live h data
      rw [hw]
      exact ih (data.drop sent) h₁

theorem sendBuffersLoop_live (limit : ℕ) : ∀ (rounds : ℕ) {s : Outbox} (pending : List Bytes), s.Live →
    ∃ s', sendBuffersLoop limit rounds s pending = .ok s' ∧ s'.Live := by
  intro rounds
  induction rounds with
  | zero => intro s pending h; exact ⟨s, rfl, h⟩
  | succ rounds ih =>
    intro s pending h
    rw [sendBuffersLoop]
    split
    · exact ⟨s, rfl, h⟩
    · obtain ⟨sent, s₁, hw, h₁⟩ := write_live h (pending.take limit).flatten
      rw [hw]
      exact ih (advance sent pending) h₁

/-- The sender takes every frame of a known type, however long. -/
theorem sendFrame_live (net : Net) {s : Outbox} {f : Frame} (hf : isKnownMsgType f.type = true)
    (h : s.Live) : ∃ s', sendFrame net s f = .ok s' ∧ s'.Live := by
  have hheader : encodeHeader f = .ok f.header := if_pos hf
  unfold sendFrame
  rw [hheader]
  show ∃ s', (if f.payload = [] then _ else _) = _ ∧ _
  split
  · exact sendLoop_live _ _ h
  · exact sendBuffersLoop_live _ _ _ h

/-! ### What a frame leaves on the wire -/

/-- The part of a buffer that a platform sends. -/
def Net.cut (net : Net) (b : Bytes) : Bytes :=
  match net.platform with
  | .windows => b.take (b.length % 2 ^ 32)
  | .posix => b

theorem pending_flatten (net : Net) (buffers : List Bytes) :
    (net.pending buffers).flatten = buffers.flatMap net.cut := by
  unfold Net.pending Net.cut
  cases net.platform with
  | windows => rfl
  | posix =>
    show (buffers.filter (· ≠ [])).flatten = buffers.flatMap fun b => b
    induction buffers with
    | nil => rfl
    | cons b bs ih =>
      rw [List.flatMap_cons, ← ih]
      by_cases hb : b = []
      · rw [List.filter_cons_of_neg (by simp [hb]), hb, List.nil_append]
      · rw [List.filter_cons_of_pos (by simp [hb]), List.flatten_cons]

theorem header_length (f : Frame) : f.header.length = kHeaderSize := rfl

theorem cut_of_lt (net : Net) {b : Bytes} (h : b.length < 2 ^ 32) : net.cut b = b := by
  unfold Net.cut
  cases net.platform with
  | windows => exact List.take_of_length_le (Nat.le_of_eq (Nat.mod_eq_of_lt h).symm)
  | posix => rfl

theorem cut_header (net : Net) (f : Frame) : net.cut f.header = f.header :=
  cut_of_lt net (by rw [header_length]; decide)

theorem cut_nil (net : Net) : net.cut [] = [] := cut_of_lt net (by decide)

/-- A frame as sent through the socket. -/
def Net.bytes (net : Net) (f : Frame) : Bytes := f.header ++ net.cut f.payload

theorem encodeHeader_inv {f : Frame} {header : Bytes} (h : encodeHeader f = .ok header) :
    isKnownMsgType f.type = true ∧ header = f.header := by
  unfold encodeHeader at h
  split at h
  · cases h
    exact ⟨by assumption, rfl⟩
  · cases h

theorem sendFrame_wire {net : Net} {s s' : Outbox} {f : Frame} (h : sendFrame net s f = .ok s') :
    s'.wire = s.wire ++ net.bytes f ∧ isKnownMsgType f.type = true := by
  obtain ⟨header, hh, h⟩ := bind_ok_inv h
  obtain ⟨hknown, rfl⟩ := encodeHeader_inv hh
  refine ⟨?_, hknown⟩
  unfold Net.bytes
  split at h
  · rename_i hp
    rw [sendAll_wire h, hp, cut_nil, List.append_nil]
  · rw [sendBuffersAll_wire h, pending_flatten, List.flatMap_cons, List.flatMap_cons, List.flatMap_nil,
      List.append_nil, cut_header]

theorem groupBuffers_inv (net : Net) : ∀ {fs : List Frame} {buffers : List Bytes},
    groupBuffers fs = .ok buffers →
      buffers.flatMap net.cut = fs.flatMap net.bytes ∧ ∀ f ∈ fs, isKnownMsgType f.type = true := by
  intro fs
  induction fs with
  | nil =>
    intro buffers h
    cases h
    exact ⟨rfl, by simp⟩
  | cons f fs ih =>
    intro buffers h
    obtain ⟨header, hh, h⟩ := bind_ok_inv h
    obtain ⟨rest, hrest, h⟩ := bind_ok_inv h
    obtain ⟨hknown, rfl⟩ := encodeHeader_inv hh
    obtain ⟨hbytes, hall⟩ := ih hrest
    have hmem : ∀ g ∈ f :: fs, isKnownMsgType g.type = true := by
      intro g hg
      rcases List.mem_cons.1 hg with rfl | hg
      · exact hknown
      · exact hall g hg
    refine ⟨?_, hmem⟩
    rw [List.flatMap_cons, ← hbytes]
    unfold Net.bytes
    split at h
    · rename_i hp
      cases h
      rw [List.flatMap_cons, cut_header, hp, cut_nil, List.append_nil]
    · cases h
      rw [List.flatMap_cons, List.flatMap_cons, cut_header, List.append_assoc]

theorem sendGroups_wire (net : Net) : ∀ (rounds : ℕ) {s s' : Outbox} {frames : List Frame},
    frames.length ≤ rounds → sendGroups net rounds s frames = .ok s' →
      s'.wire = s.wire ++ frames.flatMap net.bytes ∧ ∀ f ∈ frames, isKnownMsgType f.type = true := by
  intro rounds
  induction rounds with
  | zero =>
    intro s s' frames hlen h
    obtain rfl := List.length_eq_zero_iff.1 (Nat.le_zero.1 hlen)
    cases h
    exact ⟨by rw [List.flatMap_nil, List.append_nil], by simp⟩
  | succ rounds ih =>
    intro s s' frames hlen h
    rw [sendGroups] at h
    split at h
    · rename_i hf
      cases h
      exact ⟨by rw [hf, List.flatMap_nil, List.append_nil], by simp [hf]⟩
    · rename_i hf
      obtain ⟨buffers, hb, h⟩ := bind_ok_inv h
      obtain ⟨s₁, hs, h⟩ := bind_ok_inv h
      obtain ⟨hbytes, hknown⟩ := groupBuffers_inv net hb
      have hpos := List.length_pos_of_ne_nil hf
      obtain ⟨hrest, hknown'⟩ := ih (by rw [List.length_drop]; unfold kFrameChunk; omega) h
      have hsplit := List.take_append_drop kFrameChunk frames
      constructor
      · rw [hrest, sendBuffersAll_wire hs, pending_flatten, hbytes, List.append_assoc,
          ← List.flatMap_append, hsplit]
      · intro f hmem
        rw [← hsplit, List.mem_append] at hmem
        rcases hmem with hmem | hmem
        · exact hknown f hmem
        · exact hknown' f hmem

theorem foldl_appendEncodedFrame : ∀ (fs : List Frame) (out : Bytes),
    fs.foldl appendEncodedFrame out = out ++ fs.flatMap fun f => f.header ++ f.payload := by
  intro fs
  induction fs with
  | nil => intro out; rw [List.foldl_nil, List.flatMap_nil, List.append_nil]
  | cons f fs ih =>
    intro out
    rw [List.foldl_cons, ih, List.flatMap_cons, appendEncodedFrame]
    simp only [List.append_assoc]

/-- The bytes a send leaves on the wire. -/
def Net.sendBytes (net : Net) : Send → Bytes
  | .frame f => net.bytes f
  | .batch fs => fs.flatMap net.bytes
  | .encoded fs => fs.flatMap fun f => f.header ++ f.payload

/-- The frames that pass the guard of `EncodeHeader`. -/
def Send.guarded : Send → List Frame
  | .frame f => [f]
  | .batch fs => fs
  | .encoded _ => []

theorem send_wire {net : Net} {s s' : Outbox} {x : Send} (h : send net s x = .ok s') :
    s'.wire = s.wire ++ net.sendBytes x ∧ ∀ f ∈ x.guarded, isKnownMsgType f.type = true := by
  cases x with
  | frame f =>
    obtain ⟨hwire, hknown⟩ := sendFrame_wire h
    refine ⟨hwire, fun g hg => ?_⟩
    rw [List.mem_singleton.1 hg]
    exact hknown
  | batch fs => exact sendGroups_wire net _ (Nat.le_refl _) h
  | encoded fs =>
    cases h
    refine ⟨?_, fun g hg => absurd hg List.not_mem_nil⟩
    show s.wire ++ fs.foldl appendEncodedFrame [] = _
    rw [foldl_appendEncodedFrame, List.nil_append]
    rfl

theorem sends_wire {net : Net} : ∀ {xs : List Send} {s s' : Outbox}, sends net s xs = .ok s' →
    s'.wire = s.wire ++ xs.flatMap net.sendBytes ∧
      ∀ x ∈ xs, ∀ f ∈ x.guarded, isKnownMsgType f.type = true := by
  intro xs
  induction xs with
  | nil =>
    intro s s' h
    cases h
    exact ⟨by rw [List.flatMap_nil, List.append_nil], by simp⟩
  | cons x xs ih =>
    intro s s' h
    obtain ⟨s₁, hx, h⟩ := bind_ok_inv h
    obtain ⟨hwire, hknown⟩ := send_wire hx
    obtain ⟨hwire', hknown'⟩ := ih h
    refine ⟨by rw [hwire', hwire, List.flatMap_cons, List.append_assoc], ?_⟩
    intro y hy
    rcases List.mem_cons.1 hy with rfl | hy
    · exact hknown
    · exact hknown' y hy

/-! ### Receiving -/

/-- `RecvAll` takes the next bytes, or fails where there are too few. -/
theorem recvLoop_eq : ∀ (rounds : ℕ) (s : Inbox) (n : ℕ), n ≤ rounds →
    if n ≤ s.wire.length then
      ∃ splits, recvLoop rounds s n = .ok (s.wire.take n, { wire := s.wire.drop n, splits })
    else recvLoop rounds s n = .error .recvFailed := by
  intro rounds
  induction rounds with
  | zero =>
    intro s n hn
    obtain rfl := Nat.le_zero.1 hn
    rw [if_pos (Nat.zero_le _)]
    exact ⟨s.splits, rfl⟩
  | succ rounds ih =>
    intro s n hn
    rw [recvLoop]
    by_cases hzero : n = 0
    · subst hzero
      rw [if_pos (Nat.zero_le _), if_pos rfl]
      exact ⟨s.splits, rfl⟩
    rw [if_neg hzero]
    by_cases hwire : s.wire = []
    · rw [if_pos hwire, hwire, List.length_nil, if_neg (by omega)]
    rw [if_neg hwire]
    have hpos := List.length_pos_of_ne_nil hwire
    set k := min (max 1 (s.splits 0)) (min n s.wire.length) with hk
    have hrest := ih { wire := s.wire.drop k, splits := fun i => s.splits (i + 1) } (n - k) (by omega)
    have hlen : (s.wire.drop k).length = s.wire.length - k := List.length_drop ..
    by_cases hle : n ≤ s.wire.length
    · rw [if_pos (show n - k ≤ (s.wire.drop k).length by omega)] at hrest
      obtain ⟨splits, hrest⟩ := hrest
      rw [if_pos hle]
      refine ⟨splits, ?_⟩
      show (recvLoop rounds _ _ >>= fun p => pure (s.wire.take k ++ p.1, p.2)) = _
      rw [hrest]
      show Except.ok (s.wire.take k ++ (s.wire.drop k).take (n - k), _) = _
      have hsum : k + (n - k) = n := by omega
      rw [← List.take_add, List.drop_drop, hsum]
    · rw [if_neg (show ¬ n - k ≤ (s.wire.drop k).length by omega)] at hrest
      rw [if_neg hle]
      show (recvLoop rounds _ _ >>= fun p => pure (s.wire.take k ++ p.1, p.2)) = _
      rw [hrest]
      rfl

theorem recvAll_eq (bs rest : Bytes) (splits : ℕ → ℕ) :
    ∃ splits', recvAll { wire := bs ++ rest, splits } bs.length = .ok (bs, { wire := rest, splits := splits' }) := by
  have h := recvLoop_eq bs.length { wire := bs ++ rest, splits } bs.length (Nat.le_refl _)
  rw [if_pos (by rw [List.length_append]; omega)] at h
  obtain ⟨splits', h⟩ := h
  refine ⟨splits', ?_⟩
  unfold recvAll
  rw [h, List.take_left, List.drop_left]

/-- Whatever is received has the length that was asked for. -/
theorem recvAll_length {s s' : Inbox} {n : ℕ} {bs : Bytes} (h : recvAll s n = .ok (bs, s')) :
    bs.length = n := by
  have heq := recvLoop_eq n s n (Nat.le_refl _)
  unfold recvAll at h
  split at heq
  · obtain ⟨splits, heq⟩ := heq
    rw [heq] at h
    cases h
    rw [List.length_take]
    omega
  · rw [heq] at h
    cases h

theorem wordAt_streamId (f : Frame) : wordAt f.header 1 = f.streamId := Wire.u32_bytes f.streamId

theorem wordAt_payloadLen (f : Frame) : wordAt f.header 5 = f.payloadLen := Wire.u32_bytes f.payloadLen

/-- The frames that the receiver takes. -/
def Frame.Sane (f : Frame) : Prop := isKnownMsgType f.type = true ∧ f.payload.length ≤ 2 ^ 30

theorem payloadLen_toNat (f : Frame) : f.payloadLen.toNat = f.payload.length % 2 ^ 32 := by
  unfold Frame.payloadLen
  rw [UInt32.toNat_ofNat']

/-- `RecvFrame` at the header of a frame, whatever follows it. -/
theorem recvFrame_header (f : Frame) (tail : Bytes) (splits : ℕ → ℕ) : ∃ splits',
    recvFrame { wire := f.header ++ tail, splits } =
      if !isKnownMsgType f.type || f.payloadLen > kMaxSaneFramePayload then
        .error (.desync f.type f.streamId f.payloadLen)
      else (if f.payloadLen > 0 then recvAll { wire := tail, splits := splits' } f.payloadLen.toNat
        else pure ([], { wire := tail, splits := splits' })).map fun p => ({ f with payload := p.1 }, p.2) := by
  obtain ⟨splits', hrecv⟩ := recvAll_eq f.header tail splits
  refine ⟨splits', ?_⟩
  unfold recvFrame
  rw [header_length] at hrecv
  rw [hrecv]
  show (if !isKnownMsgType f.type || wordAt f.header 5 > kMaxSaneFramePayload then _ else _) = _
  rw [wordAt_streamId, wordAt_payloadLen]
  split
  · rfl
  · by_cases hpos : f.payloadLen > 0
    · simp only [hpos, if_true]
      cases recvAll { wire := tail, splits := splits' } f.payloadLen.toNat with
      | error e => rfl
      | ok p => rfl
    · simp only [hpos, if_false]
      rfl

theorem sane_iff_header (f : Frame) :
    (!isKnownMsgType f.type || decide (f.payloadLen > kMaxSaneFramePayload)) = false ↔
      isKnownMsgType f.type = true ∧ f.payload.length % 2 ^ 32 ≤ 2 ^ 30 := by
  have hmax : kMaxSaneFramePayload.toNat = 2 ^ 30 := by decide
  rw [Bool.or_eq_false_iff, Bool.not_eq_false', decide_eq_false_iff_not, gt_iff_lt, UInt32.lt_iff_toNat_lt,
    payloadLen_toNat, hmax, Nat.not_lt]

theorem recvFrame_sane {f : Frame} (h : f.Sane) (rest : Bytes) (splits : ℕ → ℕ) : ∃ splits',
    recvFrame { wire := f.header ++ (f.payload ++ rest), splits } =
      .ok (f, { wire := rest, splits := splits' }) := by
  obtain ⟨hknown, hlen⟩ := h
  have hmod : f.payload.length % 2 ^ 32 = f.payload.length := Nat.mod_eq_of_lt (by omega)
  obtain ⟨splits₁, hrecv⟩ := recvFrame_header f (f.payload ++ rest) splits
  have hguard := (sane_iff_header f).2 ⟨hknown, by omega⟩
  rw [if_neg (by rw [hguard]; decide)] at hrecv
  by_cases hpos : f.payloadLen > 0
  · obtain ⟨splits₂, hall⟩ := recvAll_eq f.payload rest splits₁
    rw [if_pos hpos, payloadLen_toNat, hmod, hall] at hrecv
    exact ⟨splits₂, hrecv⟩
  · have hempty : f.payload = [] := by
      rw [gt_iff_lt, UInt32.lt_iff_toNat_lt, payloadLen_toNat, hmod] at hpos
      exact List.length_eq_zero_iff.1 (Nat.le_zero.1 (Nat.not_lt.1 hpos))
    rw [if_neg hpos, hempty, List.nil_append] at hrecv
    refine ⟨splits₁, ?_⟩
    rw [hempty, List.nil_append, hrecv]
    show Except.ok (({ f with payload := [] } : Frame), _) = _
    rw [← hempty]

/-- What is received under the header of `f` has a known type and a payload of the length
that the header carries. -/
theorem recvFrame_inv {f g : Frame} {tail : Bytes} {splits : ℕ → ℕ} {s : Inbox}
    (h : recvFrame { wire := f.header ++ tail, splits } = .ok (g, s)) :
    isKnownMsgType f.type = true ∧ f.payload.length % 2 ^ 32 ≤ 2 ^ 30 ∧
      g.payload.length = f.payload.length % 2 ^ 32 := by
  obtain ⟨splits', hrecv⟩ := recvFrame_header f tail splits
  rw [hrecv] at h
  split at h
  · cases h
  · rename_i hguard
    obtain ⟨hknown, hlen⟩ := (sane_iff_header f).1 (by simpa using hguard)
    refine ⟨hknown, hlen, ?_⟩
    split at h
    · cases hall : recvAll { wire := tail, splits := splits' } f.payloadLen.toNat with
      | error e =>
        rw [hall] at h
        cases h
      | ok p =>
        rw [hall] at h
        cases h
        rw [← payloadLen_toNat]
        exact recvAll_length hall
    · rename_i hpos
      cases h
      rw [gt_iff_lt, UInt32.lt_iff_toNat_lt, payloadLen_toNat] at hpos
      exact (Nat.le_zero.1 (Nat.not_lt.1 hpos)).symm

/-- Frames on the wire, each with the bytes that follow its header. -/
abbrev Sent := List (Frame × Bytes)

def Sent.wire (sent : Sent) : Bytes := sent.flatMap fun p => p.1.header ++ p.2

/-- A frame that the receiver takes was sent whole. -/
def Sent.Whole (sent : Sent) : Prop := ∀ p ∈ sent, p.1.Sane → p.2 = p.1.payload

/-- The receiver gets the frames back exactly when it takes each of them. -/
theorem recvRounds_iff : ∀ (sent : Sent), sent.Whole → ∀ (rounds : ℕ) (splits : ℕ → ℕ),
    sent.length < rounds → (recvRounds rounds { wire := sent.wire, splits } = sent.map Prod.fst ↔
      ∀ p ∈ sent, p.1.Sane) := by
  intro sent
  induction sent with
  | nil =>
    intro _ rounds splits hrounds
    obtain ⟨r, rfl⟩ : ∃ r, rounds = r + 1 := ⟨rounds - 1, by omega⟩
    exact ⟨fun _ p hp => absurd hp List.not_mem_nil, fun _ => rfl⟩
  | cons p sent ih =>
    intro hwhole rounds splits hrounds
    obtain ⟨f, body⟩ := p
    obtain ⟨r, rfl⟩ : ∃ r, rounds = r + 1 := ⟨rounds - 1, by omega⟩
    have hwhole' : Sent.Whole sent := fun q hq => hwhole q (List.mem_cons_of_mem _ hq)
    have hlen : sent.length < r := by
      rw [List.length_cons] at hrounds
      omega
    have hwire : Sent.wire ((f, body) :: sent) = f.header ++ (body ++ Sent.wire sent) := by
      unfold Sent.wire
      rw [List.flatMap_cons, List.append_assoc]
    -- once the first frame is known to be taken, the rest is the induction
    have hstep : f.Sane → (recvRounds (r + 1) { wire := Sent.wire ((f, body) :: sent), splits } =
        ((f, body) :: sent).map Prod.fst ↔ ∀ q ∈ sent, q.1.Sane) := by
      intro hf
      have hbody : body = f.payload := hwhole (f, body) List.mem_cons_self hf
      obtain ⟨splits', hrecv⟩ := recvFrame_sane hf (Sent.wire sent) splits
      rw [recvRounds, hwire, hbody, hrecv]
      show f :: _ = f :: _ ↔ _
      rw [List.cons_inj_right]
      exact ih hwhole' r splits' hlen
    constructor
    · intro h q hq
      have hf : f.Sane := by
        have hhead := h
        rw [recvRounds, hwire] at hhead
        split at hhead
        · cases hhead
        · rename_i g s hrecv
          obtain ⟨hknown, hle, hg⟩ := recvFrame_inv hrecv
          rw [List.map_cons] at hhead
          injection hhead with hgf
          rw [hgf] at hg
          exact ⟨hknown, by show f.payload.length ≤ 2 ^ 30; rw [hg]; exact hle⟩
      rcases List.mem_cons.1 hq with rfl | hq
      · exact hf
      · exact (hstep hf).1 h q hq
    · intro h
      exact (hstep (h _ List.mem_cons_self)).2 fun q hq => h q (List.mem_cons_of_mem _ hq)

/-! ### The two sides -/

/-- The frames of a send and the bytes that follow their headers. -/
def Send.sent (net : Net) : Send → Sent
  | .frame f => [(f, net.cut f.payload)]
  | .batch fs => fs.map fun f => (f, net.cut f.payload)
  | .encoded fs => fs.map fun f => (f, f.payload)

theorem sent_wire (net : Net) (x : Send) : (x.sent net).wire = net.sendBytes x := by
  cases x with
  | frame f => exact List.flatMap_singleton ..
  | batch fs => exact List.flatMap_map ..
  | encoded fs => exact List.flatMap_map ..

theorem sent_frames (net : Net) (x : Send) : (x.sent net).map Prod.fst = x.frames := by
  cases x with
  | frame f => rfl
  | batch fs =>
    show (fs.map fun f => (f, net.cut f.payload)).map Prod.fst = fs
    rw [List.map_map]
    exact List.map_id fs
  | encoded fs =>
    show (fs.map fun f => (f, f.payload)).map Prod.fst = fs
    rw [List.map_map]
    exact List.map_id fs

theorem sent_whole (net : Net) (x : Send) : (x.sent net).Whole := by
  have hcut : ∀ f : Frame, f.Sane → net.cut f.payload = f.payload :=
    fun f hf => cut_of_lt net (Nat.lt_of_le_of_lt hf.2 (by decide))
  intro p hp hsane
  cases x with
  | frame f =>
    rw [List.mem_singleton.1 hp] at hsane ⊢
    exact hcut f hsane
  | batch fs =>
    obtain ⟨f, -, rfl⟩ := List.mem_map.1 hp
    exact hcut f hsane
  | encoded fs =>
    obtain ⟨f, -, rfl⟩ := List.mem_map.1 hp
    rfl

/-- The frames of a list of sends. -/
def framesOf (xs : List Send) : List Frame := xs.flatMap Send.frames

/-- No payload is over 1 GiB, and no frame was appended with a type byte that is none. -/
def Acceptable (xs : List Send) : Prop :=
  (∀ f ∈ framesOf xs, f.payload.length ≤ 2 ^ 30) ∧
    ∀ fs, Send.encoded fs ∈ xs → ∀ f ∈ fs, isKnownMsgType f.type = true

theorem sane_iff_acceptable {xs : List Send}
    (h : ∀ x ∈ xs, ∀ f ∈ x.guarded, isKnownMsgType f.type = true) :
    (∀ f ∈ framesOf xs, f.Sane) ↔ Acceptable xs := by
  constructor
  · intro hsane
    refine ⟨fun f hf => (hsane f hf).2, fun fs hfs f hf => (hsane f ?_).1⟩
    exact List.mem_flatMap.2 ⟨.encoded fs, hfs, hf⟩
  · rintro ⟨hlen, henc⟩ f hf
    refine ⟨?_, hlen f hf⟩
    obtain ⟨x, hx, hf⟩ := List.mem_flatMap.1 hf
    cases x with
    | frame g => exact h _ hx f hf
    | batch fs => exact h _ hx f hf
    | encoded fs => exact henc fs hx f hf

theorem wire_length (sent : Sent) : sent.length ≤ sent.wire.length := by
  induction sent with
  | nil => exact Nat.le_refl _
  | cons p sent ih =>
    have hwire : Sent.wire (p :: sent) = (p.1.header ++ p.2) ++ Sent.wire sent := List.flatMap_cons ..
    have hhead := header_length p.1
    unfold kHeaderSize at hhead
    rw [hwire, List.length_append, List.length_append, List.length_cons]
    omega

theorem recvFrames_iff {net : Net} {answers : ℕ → ℕ} {xs : List Send} {s : Outbox}
    (h : sends net { wire := [], answers } xs = .ok s) (splits : ℕ → ℕ) :
    recvFrames { wire := s.wire, splits } = framesOf xs ↔ Acceptable xs := by
  obtain ⟨hwire, hknown⟩ := sends_wire h
  set sent : Sent := xs.flatMap (Send.sent net) with hsent
  have hbytes : s.wire = sent.wire := by
    rw [hwire, List.nil_append]
    show _ = (xs.flatMap (Send.sent net)).flatMap _
    rw [List.flatMap_assoc]
    exact List.flatMap_congr fun x _ => (sent_wire net x).symm
  have hframes : sent.map Prod.fst = framesOf xs := by
    rw [hsent, List.map_flatMap]
    exact List.flatMap_congr fun x _ => sent_frames net x
  have hwhole : sent.Whole := by
    intro p hp
    obtain ⟨x, -, hp⟩ := List.mem_flatMap.1 hp
    exact sent_whole net x p hp
  have hlen := wire_length sent
  have hiff := recvRounds_iff sent hwhole (s.wire.length + 1) splits (by rw [hbytes]; omega)
  rw [← hbytes, hframes] at hiff
  rw [← sane_iff_acceptable hknown, ← hframes, List.forall_mem_map]
  rw [hframes]
  exact hiff

/-! ### Signatures of large files -/

theorem blockSigBytes_length {strongLen : UInt8} (h : strongLen ≤ 16) (bs : BlockSig) :
    (Wire.blockSigBytes strongLen bs).length = 4 + strongLen.toNat := by
  have hle : strongLen.toNat ≤ 16 := UInt8.le_iff_toNat_le.1 h
  unfold Wire.blockSigBytes
  rw [List.length_append, List.length_take, Wire.length_toList, Nat.min_eq_left hle]
  rfl

theorem blockSigResponse_length {info : Wire.BlockSigResponseInfo} {payload : Bytes}
    (h : (Wire.Message.blockSigResponse info).encode = .ok payload) :
    payload.length = 35 + info.relPath.length + info.sig.blockCount.toNat * (4 + info.sig.strongLen.toNat) := by
  have hok := Wire.encodable_of_encode h
  obtain rfl := Wire.encode_bytes h (Wire.codes_blockSigResponse info).writes
  have hbad : ¬ (16 < info.sig.strongLen ∨ info.sig.blocks.length ≠ info.sig.blockCount.toNat) := hok.2.2
  rw [not_or, UInt8.not_lt, not_not] at hbad
  have hstring : (Wire.stringBytes info.relPath).length = 2 + info.relPath.length := by
    unfold Wire.stringBytes
    rw [List.length_append]
    rfl
  have hblocks : (info.sig.blocks.flatMap (Wire.blockSigBytes info.sig.strongLen)).length =
      info.sig.blockCount.toNat * (4 + info.sig.strongLen.toNat) := by
    rw [List.length_flatMap, List.map_congr_left fun bs _ => blockSigBytes_length hbad.1 bs,
      List.map_const', List.sum_replicate_nat, hbad.2]
  have h64 : ∀ v, (Wire.u64Bytes v).length = 8 := fun v => rfl
  have h32 : ∀ v, (Wire.u32Bytes v).length = 4 := fun v => rfl
  unfold Wire.blockSigResponseBytes
  simp only [List.length_append, hstring, hblocks, h64, h32, Wire.length_toList, List.length_singleton]
  omega

/-- **Frame stream round trip.** Whatever the sender's calls take at a time and however the
transport splits the bytes, the receiver gets the frames of an accepted list of sends back
exactly when no payload is over 1 GiB and no appended frame has an unknown type. A
`BlockSigResponse` gets through exactly when its blocks fit. -/
theorem frame_stream_iff {net : Net} {answers : ℕ → ℕ} {xs : List Send} {s : Outbox}
    (h : sends net { wire := [], answers } xs = .ok s) (splits : ℕ → ℕ) :
    (recvFrames { wire := s.wire, splits } = framesOf xs ↔ Acceptable xs) ∧
    ∀ (info : Wire.BlockSigResponseInfo) (streamId : UInt32) (payload : Bytes),
      (Wire.Message.blockSigResponse info).encode = .ok payload →
      xs = [.frame { type := MsgType.blockSigResponse.toByte, streamId, payload }] →
      (recvFrames { wire := s.wire, splits } = framesOf xs ↔
        35 + info.relPath.length + info.sig.blockCount.toNat * (4 + info.sig.strongLen.toNat) ≤ 2 ^ 30) := by
  have hiff := recvFrames_iff h splits
  refine ⟨hiff, fun info streamId payload hpayload hxs => ?_⟩
  rw [hiff, ← blockSigResponse_length hpayload, hxs]
  constructor
  · rintro ⟨hlen, -⟩
    exact hlen _ List.mem_cons_self
  · intro hlen
    refine ⟨fun f hf => ?_, fun fs hfs => ?_⟩
    · rw [List.mem_singleton.1 hf]
      exact hlen
    · cases List.mem_singleton.1 hfs

/-- Calls that take three bytes at a time, read back one byte at a time. -/
theorem frame_stream_small :
    recvFrames { wire := [40, 0, 0, 0, 0, 0, 0, 0, 0, 31, 7, 0, 0, 0, 2, 0, 0, 0, 1, 2], splits := fun _ => 1 } =
      [{ type := 40, streamId := 0, payload := [] }, { type := 31, streamId := 7, payload := [1, 2] }] := by
  have hsend : sends { platform := .posix, iovLimit := 1024, iovLimit_pos := by decide }
      { wire := [], answers := fun _ => 3 }
      [.frame { type := 40, streamId := 0, payload := [] }, .batch [{ type := 31, streamId := 7, payload := [1, 2] }]] =
      .ok { wire := [40, 0, 0, 0, 0, 0, 0, 0, 0, 31, 7, 0, 0, 0, 2, 0, 0, 0, 1, 2], answers := fun _ => 3 } := rfl
  refine ((frame_stream_iff hsend fun _ => 1).1).2 ⟨?_, ?_⟩
  · decide
  · intro fs hfs
    simp at hfs

/-! ### A signature of an 8 TiB file -/

/-- What the server has to send for a file of 2^43 bytes. -/
def hugeSignature : Wire.BlockSigResponseInfo where
  relPath := [97]
  fileHash := Vector.replicate 16 0
  sig :=
    { fileSize := 2 ^ 43
      blockSize := UInt32.ofNat (chooseBlockSize (2 ^ 43))
      blockCount := 2 ^ 26
      strongLen := UInt8.ofNat (chooseStrongLen (2 ^ 26))
      blocks := List.replicate (2 ^ 26) default }

theorem hugeSignature_encodable : (Wire.Message.blockSigResponse hugeSignature).Encodable := by
  refine ⟨?_, ?_, ?_⟩
  · intro s hs
    rw [List.mem_singleton.1 hs]
    exact (by decide : 1 ≤ 65535)
  · intro n hn
    exact absurd hn List.not_mem_nil
  · rintro (h | h)
    · exact absurd h (by decide)
    · exact h (by
        show (List.replicate (2 ^ 26) (default : BlockSig)).length = _
        rw [List.length_replicate]
        rfl)

/-- The sender takes that response on both platforms and the receiver rejects its length. -/
theorem oversize_signature_desyncs : ¬ ∀ (net : Net) (answers splits : ℕ → ℕ) (xs : List Send) (s : Outbox),
    sends net { wire := [], answers } xs = .ok s → recvFrames { wire := s.wire, splits } = framesOf xs := by
  intro hall
  obtain ⟨bs, hcodes⟩ := Wire.codes_message (.blockSigResponse hugeSignature)
  have hpayload : (Wire.Message.blockSigResponse hugeSignature).encode = .ok bs := by
    unfold Wire.Message.encode
    rw [hcodes.writes.done hugeSignature_encodable, List.nil_append]
    rfl
  have hlen := blockSigResponse_length hpayload
  let net : Net := { platform := .posix, iovLimit := 1024, iovLimit_pos := by decide }
  let f : Frame := { type := MsgType.blockSigResponse.toByte, streamId := 0, payload := bs }
  obtain ⟨s, hs, -⟩ := sendFrame_live net (s := { wire := [], answers := fun _ => 1 }) (f := f) rfl
    (fun _ => Nat.one_pos)
  have hsends : sends net { wire := [], answers := fun _ => 1 } [.frame f] = .ok s := by
    show (sendFrame net _ f >>= fun s => sends net s []) = _
    rw [hs]
    rfl
  have hacc := (recvFrames_iff hsends fun _ => 1).1 (hall _ _ _ _ _ hsends)
  have hshort : bs.length ≤ 2 ^ 30 := hacc.1 f List.mem_cons_self
  rw [hlen] at hshort
  exact absurd hshort (by decide)

end FastClone.Frames
