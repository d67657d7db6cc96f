import FastClone.Spec.SendLoop

/-!
# One stream of the send loop

A visit reads on from where the last one stopped. It leaves the stream open with some bytes more sent, or it
closes it: with the end frame when all bytes are sent, with the error frame when a read has failed or returned
nothing (`visited`). So a stream sends its bytes in order and then one closing frame (`framed_serve`), and as
every visit makes progress, it is closed after at most as many visits as it has bytes, and one.
-/

namespace FastClone.SendLoop

open FastClone.Delta FastClone.Wire FastClone.Frames

variable {cfg : Config} {id : UInt32} {reply : ℕ → Reply}

/-! ### Sizes -/

theorem effectiveChunkSize_bounds (cfg : Config) :
    0 < cfg.effectiveChunkSize ∧ cfg.effectiveChunkSize < 2 ^ 32 := by
  have hle := cfg.tuned.chunkSize_le
  unfold Config.effectiveChunkSize effectiveChunkSizeForStreams
  dsimp only
  split
  · omega
  · split <;> omega

theorem perStreamBurstBytes_pos (cfg : Config) : 0 < cfg.perStreamBurstBytes := by
  have hpos := (effectiveChunkSize_bounds cfg).1
  unfold Config.perStreamBurstBytes
  split <;> omega

/-! ### Reads -/

/-- The chunks are the bytes at the offset, and not too many. -/
structure Read (content : Bytes) (offset remaining : ℕ) (chunks : List Bytes) : Prop where
  nonempty : ∀ c ∈ chunks, c ≠ []
  bytes : chunks.flatten = (content.drop offset).take chunks.flatten.length
  le : chunks.flatten.length ≤ remaining

theorem read_nil (content : Bytes) (offset remaining : ℕ) : Read content offset remaining [] where
  nonempty := nofun
  bytes := rfl
  le := Nat.zero_le _

/-- More chunks, from where the first ones stop. -/
theorem Read.append {content : Bytes} {offset remaining : ℕ} {chunks more : List Bytes}
    (h : Read content offset remaining chunks)
    (hmore : Read content (offset + chunks.flatten.length) (remaining - chunks.flatten.length) more) :
    Read content offset remaining (chunks ++ more) := by
  refine ⟨?_, ?_, ?_⟩
  · intro c hc
    rcases List.mem_append.1 hc with hfirst | hsecond
    · exact h.nonempty c hfirst
    · exact hmore.nonempty c hsecond
  · have hbytes := hmore.bytes
    rw [← List.drop_drop] at hbytes
    rw [List.flatten_append, List.length_append, List.take_add, ← h.bytes]
    exact congrArg (chunks.flatten ++ ·) hbytes
  · have hle := h.le
    have hmoreLe := hmore.le
    rw [List.flatten_append, List.length_append]
    omega

theorem length_flatten_cons (chunk : Bytes) (chunks : List Bytes) :
    (chunk :: chunks).flatten.length = chunk.length + chunks.flatten.length := by
  rw [List.flatten_cons, List.length_append]

theorem Read.cons {content : Bytes} {offset remaining : ℕ} {chunk : Bytes} {chunks : List Bytes}
    (h : Read content offset remaining [chunk])
    (hmore : Read content (offset + chunk.length) (remaining - chunk.length) chunks) :
    Read content offset remaining (chunk :: chunks) := by
  refine h.append ?_
  rw [List.flatten_singleton]
  exact hmore

/-- A read fails, or returns nothing. -/
def Fails (cfg : Config) (fileId offset want : ℕ) (r : Reply) : Prop :=
  (driverReadRangeChunk cfg.content fileId offset want r).2 = true ∨
    (driverReadRangeChunk cfg.content fileId offset want r).1.length = 0

theorem read_one {content : ℕ → Bytes} {fileId offset remaining want : ℕ} {r : Reply} (hwant : want ≤ remaining)
    (hgot : (driverReadRangeChunk content fileId offset want r).1.length ≠ 0) :
    Read (content fileId) offset remaining [(driverReadRangeChunk content fileId offset want r).1] := by
  cases r with
  | error => exact absurd rfl hgot
  | data n =>
    have hlen : (driverReadRangeChunk content fileId offset want (.data n)).1.length ≤ min n want := List.length_take_le _ _
    have hbytes : (driverReadRangeChunk content fileId offset want (.data n)).1 =
        ((content fileId).drop offset).take (driverReadRangeChunk content fileId offset want (.data n)).1.length := by
      change ((content fileId).drop offset).take (min n want) =
        ((content fileId).drop offset).take (((content fileId).drop offset).take (min n want)).length
      rw [List.length_take, List.take_eq_take_iff]
      omega
    refine ⟨?_, ?_, ?_⟩
    · intro c hc
      rw [List.mem_singleton.1 hc]
      exact fun hnil => hgot (congrArg List.length hnil)
    · rw [List.flatten_singleton]
      exact hbytes
    · rw [List.flatten_singleton]
      omega

/-- What is asked for is positive and no more than what is left. -/
theorem toRead_bounds (cfg : Config) {remaining : ℕ} (hpos : 0 < remaining) :
    0 < min remaining cfg.effectiveChunkSize % 2 ^ 32 ∧ min remaining cfg.effectiveChunkSize % 2 ^ 32 ≤ remaining := by
  obtain ⟨hchunk, hlt⟩ := effectiveChunkSize_bounds cfg
  have hmod : min remaining cfg.effectiveChunkSize % 2 ^ 32 = min remaining cfg.effectiveChunkSize :=
    Nat.mod_eq_of_lt (by omega)
  omega

/-! ### Any stream -/

namespace Served

def fileId : Served → ℕ
  | .file ss => ss.fileId
  | .deltaRange rs | .fileRange rs => rs.fileId

def offset : Served → ℕ
  | .file ss => ss.nextReadOffset
  | .deltaRange rs | .fileRange rs => rs.nextReadOffset

def remaining : Served → ℕ
  | .file ss => ss.fileRemaining
  | .deltaRange rs | .fileRange rs => rs.remaining

def errored : Served → Bool
  | .file _ => false
  | .deltaRange rs | .fileRange rs => rs.errored

def chunkFrame (id : UInt32) : Served → Bytes → Frame
  | .file _ => frame .fileChunk id
  | .deltaRange _ => frame deltaFamily.chunk id
  | .fileRange _ => frame fileRangeFamily.chunk id

def endFrame (id : UInt32) : Served → Frame
  | .file _ => frame .fileEnd id []
  | .deltaRange _ => frame deltaFamily.finish id []
  | .fileRange _ => frame fileRangeFamily.finish id []

def errorFrame (id : UInt32) : Served → Frame
  | .file _ => frame .fileError id []
  | .deltaRange rs => deltaFamily.errorFrame id rs.relativePath
  | .fileRange rs => fileRangeFamily.errorFrame id rs.relativePath

end Served

def ServerStream.advance (ss : ServerStream) (n : ℕ) : ServerStream :=
  { ss with
    nextReadOffset := ss.nextReadOffset + n
    fileRemaining := ss.fileRemaining - n }

def ServerRangeStream.advance (rs : ServerRangeStream) (n : ℕ) : ServerRangeStream :=
  { rs with
    nextReadOffset := rs.nextReadOffset + n
    remaining := rs.remaining - n }

/-- After `n` bytes. -/
def Served.advance (n : ℕ) : Served → Served
  | .file ss => .file (ss.advance n)
  | .deltaRange rs => .deltaRange (rs.advance n)
  | .fileRange rs => .fileRange (rs.advance n)

theorem ServerStream.advance_advance (ss : ServerStream) (a b : ℕ) : (ss.advance a).advance b = ss.advance (a + b) := by
  unfold ServerStream.advance
  simp only [ServerStream.mk.injEq, true_and]
  omega

theorem ServerRangeStream.advance_advance (rs : ServerRangeStream) (a b : ℕ) :
    (rs.advance a).advance b = rs.advance (a + b) := by
  unfold ServerRangeStream.advance
  simp only [ServerRangeStream.mk.injEq, true_and]
  omega

theorem Served.advance_advance (st : Served) (a b : ℕ) : (st.advance a).advance b = st.advance (a + b) := by
  cases st with
  | file ss => exact congrArg Served.file (ss.advance_advance a b)
  | deltaRange rs => exact congrArg Served.deltaRange (rs.advance_advance a b)
  | fileRange rs => exact congrArg Served.fileRange (rs.advance_advance a b)

/-- A stream keeps its file, its frames, and the sum of what is read and what is left. -/
theorem Served.advance_spec (id : UInt32) (st : Served) (n : ℕ) :
    (st.advance n).fileId = st.fileId ∧ (st.advance n).offset = st.offset + n ∧
      (st.advance n).remaining = st.remaining - n ∧ (st.advance n).errored = st.errored ∧
      (st.advance n).chunkFrame id = st.chunkFrame id ∧ (st.advance n).endFrame id = st.endFrame id ∧
      (st.advance n).errorFrame id = st.errorFrame id := by
  cases st <;> exact ⟨rfl, rfl, rfl, rfl, rfl, rfl, rfl⟩

/-! ### One visit -/

/-- What a visit can do. -/
inductive Visited (cfg : Config) (id : UInt32) (reply : ℕ → Reply) (st : Served) : Option Served × List Frame → Prop
  | stays {chunks : List Bytes} (read : Read (cfg.content st.fileId) st.offset st.remaining chunks) (hne : chunks ≠ []) :
      Visited cfg id reply st (some (st.advance chunks.flatten.length), chunks.map (st.chunkFrame id))
  | ends {chunks : List Bytes} (read : Read (cfg.content st.fileId) st.offset st.remaining chunks)
      (hall : chunks.flatten.length = st.remaining) :
      Visited cfg id reply st (none, chunks.map (st.chunkFrame id) ++ [st.endFrame id])
  | fails {chunks : List Bytes} (read : Read (cfg.content st.fileId) st.offset st.remaining chunks)
      (hfails : ∃ n want, 0 < want ∧ want ≤ st.remaining - chunks.flatten.length ∧
        Fails cfg st.fileId (st.offset + chunks.flatten.length) want (reply n)) :
      Visited cfg id reply st (none, chunks.map (st.chunkFrame id) ++ [st.errorFrame id])

/-- The loop over a file, with `burstBytes` used up. -/
inductive FileBurst (cfg : Config) (id : UInt32) (reply : ℕ → Reply) (burstBytes : ℕ) (ss : ServerStream) :
    Option ServerStream × List Frame → Prop
  | stays {chunks : List Bytes} (read : Read (cfg.content ss.fileId) ss.nextReadOffset ss.fileRemaining chunks)
      (hne : burstBytes < cfg.perStreamBurstBytes → chunks ≠ []) :
      FileBurst cfg id reply burstBytes ss (some (ss.advance chunks.flatten.length), chunks.map (frame .fileChunk id))
  | ends {chunks : List Bytes} (read : Read (cfg.content ss.fileId) ss.nextReadOffset ss.fileRemaining chunks)
      (hall : chunks.flatten.length = ss.fileRemaining) :
      FileBurst cfg id reply burstBytes ss (none, chunks.map (frame .fileChunk id) ++ [frame .fileEnd id []])
  | fails {chunks : List Bytes} (read : Read (cfg.content ss.fileId) ss.nextReadOffset ss.fileRemaining chunks)
      (hfails : ∃ n want, 0 < want ∧ want ≤ ss.fileRemaining - chunks.flatten.length ∧
        Fails cfg ss.fileId (ss.nextReadOffset + chunks.flatten.length) want (reply n)) :
      FileBurst cfg id reply burstBytes ss (none, chunks.map (frame .fileChunk id) ++ [frame .fileError id []])

/-- A chunk before the rest of the loop. -/
theorem FileBurst.cons {burstBytes : ℕ} {ss : ServerStream} {chunk : Bytes} {r : Option ServerStream × List Frame}
    (hread : Read (cfg.content ss.fileId) ss.nextReadOffset ss.fileRemaining [chunk])
    (h : FileBurst cfg id reply (burstBytes + chunk.length) (ss.advance chunk.length) r) :
    FileBurst cfg id reply burstBytes ss (r.1, frame .fileChunk id chunk :: r.2) := by
  cases h with
  | stays read hne =>
    rename_i chunks
    have hstays : FileBurst cfg id reply burstBytes ss (some (ss.advance (chunk :: chunks).flatten.length),
        (chunk :: chunks).map (frame .fileChunk id)) := .stays (hread.cons read) fun _ => List.cons_ne_nil _ _
    rw [length_flatten_cons, ← ServerStream.advance_advance] at hstays
    exact hstays
  | ends read hall =>
    refine FileBurst.ends (hread.cons read) ?_
    have hle := (hread.cons read).le
    rw [length_flatten_cons] at hle ⊢
    change _ = ss.fileRemaining - chunk.length at hall
    omega
  | fails read hfails =>
    refine FileBurst.fails (hread.cons read) ?_
    rw [length_flatten_cons, ← Nat.sub_sub, ← Nat.add_assoc]
    exact hfails

theorem fileBurst (n burstBytes : ℕ) (ss : ServerStream) :
    FileBurst cfg id reply burstBytes ss (ss.burst cfg id reply n burstBytes) := by
  fun_induction ServerStream.burst cfg id reply n burstBytes ss with
  | case1 n burstBytes ss hburst hnone =>
    exact FileBurst.ends (read_nil _ _ _) hnone.symm
  | case2 n burstBytes ss hburst hsome toRead r hgot =>
    obtain ⟨hpos, hle⟩ := toRead_bounds cfg (Nat.pos_of_ne_zero hsome)
    exact FileBurst.fails (read_nil _ _ _) ⟨n, _, hpos, hle, hgot⟩
  | case3 n burstBytes ss hburst hsome toRead r hgot rest ih =>
    obtain ⟨-, hle⟩ := toRead_bounds cfg (Nat.pos_of_ne_zero hsome)
    exact FileBurst.cons (read_one hle fun hzero => hgot (Or.inr hzero)) ih
  | case4 n burstBytes ss hburst =>
    exact FileBurst.stays (read_nil _ _ _) fun hlt => absurd hlt hburst

/-- The inner loop over a range, with `burstBytes` used up: it stops with an error, or with the range or the
burst used up. -/
inductive RangeBurst (cfg : Config) (reply : ℕ → Reply) (burstBytes : ℕ) (rs : ServerRangeStream) :
    ServerRangeStream × List Bytes → Prop
  | stops {chunks : List Bytes} (read : Read (cfg.content rs.fileId) rs.nextReadOffset rs.remaining chunks)
      (hne : rs.remaining ≠ 0 → burstBytes < cfg.perStreamBurstBytes → chunks ≠ []) :
      RangeBurst cfg reply burstBytes rs (rs.advance chunks.flatten.length, chunks)
  | fails {chunks : List Bytes} (read : Read (cfg.content rs.fileId) rs.nextReadOffset rs.remaining chunks)
      (hfails : ∃ n want, 0 < want ∧ want ≤ rs.remaining - chunks.flatten.length ∧
        Fails cfg rs.fileId (rs.nextReadOffset + chunks.flatten.length) want (reply n)) :
      RangeBurst cfg reply burstBytes rs ({ rs.advance chunks.flatten.length with errored := true }, chunks)

theorem RangeBurst.cons {burstBytes : ℕ} {rs : ServerRangeStream} {chunk : Bytes} {r : ServerRangeStream × List Bytes}
    (hread : Read (cfg.content rs.fileId) rs.nextReadOffset rs.remaining [chunk])
    (h : RangeBurst cfg reply (burstBytes + chunk.length) (rs.advance chunk.length) r) :
    RangeBurst cfg reply burstBytes rs (r.1, chunk :: r.2) := by
  cases h with
  | stops read hne =>
    rename_i chunks
    have hstops : RangeBurst cfg reply burstBytes rs (rs.advance (chunk :: chunks).flatten.length, chunk :: chunks) :=
      .stops (hread.cons read) fun _ _ => List.cons_ne_nil _ _
    rw [length_flatten_cons, ← ServerRangeStream.advance_advance] at hstops
    exact hstops
  | fails read hfails =>
    rename_i chunks
    have hlater : RangeBurst cfg reply burstBytes rs
        ({ rs.advance (chunk :: chunks).flatten.length with errored := true }, chunk :: chunks) := by
      refine .fails (hread.cons read) ?_
      rw [length_flatten_cons, ← Nat.sub_sub, ← Nat.add_assoc]
      exact hfails
    rw [length_flatten_cons, ← ServerRangeStream.advance_advance] at hlater
    exact hlater

theorem rangeBurst (n burstBytes : ℕ) (rs : ServerRangeStream) :
    RangeBurst cfg reply burstBytes rs (rs.burst cfg reply n burstBytes) := by
  fun_induction ServerRangeStream.burst cfg reply n burstBytes rs with
  | case1 n burstBytes rs hburst toRead r hgot =>
    obtain ⟨hpos, hle⟩ := toRead_bounds cfg hburst.1
    exact RangeBurst.fails (read_nil _ _ _) ⟨n, _, hpos, hle, hgot⟩
  | case2 n burstBytes rs hburst toRead r hgot rest ih =>
    obtain ⟨-, hle⟩ := toRead_bounds cfg hburst.1
    exact RangeBurst.cons (read_one hle fun hzero => hgot (Or.inr hzero)) ih
  | case3 n burstBytes rs hburst =>
    exact RangeBurst.stops (read_nil _ _ _) fun hne hlt => absurd ⟨Nat.pos_of_ne_zero hne, hlt⟩ hburst

/-- A visit to a range, in whatever frames it answers. -/
theorem range_visited {family : Family} {embed : ServerRangeStream → Served} {rs : ServerRangeStream}
    (hsound : rs.errored = false) (hfile : (embed rs).fileId = rs.fileId) (hoffset : (embed rs).offset = rs.nextReadOffset)
    (hremaining : (embed rs).remaining = rs.remaining) (hadvance : ∀ n, (embed rs).advance n = embed (rs.advance n))
    (hchunk : (embed rs).chunkFrame id = frame family.chunk id)
    (hend : (embed rs).endFrame id = frame family.finish id [])
    (herror : (embed rs).errorFrame id = family.errorFrame id rs.relativePath) :
    Visited cfg id reply (embed rs) ((rs.visit family cfg id reply).1.map embed, (rs.visit family cfg id reply).2) := by
  have hburst : RangeBurst cfg reply 0 rs (rs.burst cfg reply 0 0) := rangeBurst 0 0 rs
  unfold ServerRangeStream.visit
  generalize rs.burst cfg reply 0 0 = r at hburst
  cases hburst with
  | stops read hne =>
    rename_i chunks
    have hread : Read (cfg.content (embed rs).fileId) (embed rs).offset (embed rs).remaining chunks := by
      rw [hfile, hoffset, hremaining]
      exact read
    have herrored : ¬ (rs.advance chunks.flatten.length).errored = true := by
      change ¬ rs.errored = true
      rw [hsound]
      exact Bool.false_ne_true
    dsimp only
    rw [if_neg herrored]
    by_cases hdone : (rs.advance chunks.flatten.length).remaining = 0
    · have hall : chunks.flatten.length = (embed rs).remaining := by
        have hle := read.le
        change rs.remaining - chunks.flatten.length = 0 at hdone
        omega
      have hends : Visited cfg id reply (embed rs)
          (none, chunks.map ((embed rs).chunkFrame id) ++ [(embed rs).endFrame id]) := .ends hread hall
      rw [hchunk, hend] at hends
      rw [if_pos hdone]
      exact hends
    -- it is not done, so the burst was used up, and a burst is not empty
    · have hnonempty : chunks ≠ [] := by
        refine hne ?_ (perStreamBurstBytes_pos cfg)
        change ¬ rs.remaining - chunks.flatten.length = 0 at hdone
        omega
      have hstays : Visited cfg id reply (embed rs)
          (some ((embed rs).advance chunks.flatten.length), chunks.map ((embed rs).chunkFrame id)) := .stays hread hnonempty
      rw [hchunk, hadvance] at hstays
      rw [if_neg hdone]
      exact hstays
  | fails read hfails =>
    rename_i chunks
    have hread : Read (cfg.content (embed rs).fileId) (embed rs).offset (embed rs).remaining chunks := by
      rw [hfile, hoffset, hremaining]
      exact read
    rw [← hfile, ← hoffset, ← hremaining] at hfails
    have hlater : Visited cfg id reply (embed rs)
        (none, chunks.map ((embed rs).chunkFrame id) ++ [(embed rs).errorFrame id]) := .fails hread hfails
    rw [hchunk, herror] at hlater
    exact hlater

/-- **One visit**, to a stream of any kind. -/
theorem visited (st : Served) (hsound : st.errored = false) : Visited cfg id reply st (st.visit cfg id reply) := by
  cases st with
  | deltaRange rs => exact range_visited hsound rfl rfl rfl (fun _ => rfl) rfl rfl rfl
  | fileRange rs => exact range_visited hsound rfl rfl rfl (fun _ => rfl) rfl rfl rfl
  | file ss =>
    have hburst : FileBurst cfg id reply 0 ss (ss.visit cfg id reply) := fileBurst 0 0 ss
    change Visited cfg id reply (.file ss) ((ss.visit cfg id reply).1.map .file, (ss.visit cfg id reply).2)
    generalize ss.visit cfg id reply = r at hburst
    cases hburst with
    | stays read hne => exact .stays read (hne (perStreamBurstBytes_pos cfg))
    | ends read hall => exact .ends read hall
    | fails read hfails => exact .fails read hfails

/-! ### All visits -/

/-- What some visits to a stream have done. -/
inductive Framed (cfg : Config) (id : UInt32) (replies : List (ℕ → Reply)) (st : Served) :
    Option Served × List Frame → Prop
  /-- It is open, and every visit has sent something. -/
  | stays {chunks : List Bytes} (read : Read (cfg.content st.fileId) st.offset st.remaining chunks)
      (hmoves : replies.length ≤ chunks.flatten.length) :
      Framed cfg id replies st (some (st.advance chunks.flatten.length), chunks.map (st.chunkFrame id))
  | ends {chunks : List Bytes} (read : Read (cfg.content st.fileId) st.offset st.remaining chunks)
      (hall : chunks.flatten.length = st.remaining) :
      Framed cfg id replies st (none, chunks.map (st.chunkFrame id) ++ [st.endFrame id])
  /-- A read of its own has failed, at the byte where it stopped. -/
  | fails {chunks : List Bytes} (read : Read (cfg.content st.fileId) st.offset st.remaining chunks)
      (hfails : ∃ reply ∈ replies, ∃ n want, 0 < want ∧ want ≤ st.remaining - chunks.flatten.length ∧
        Fails cfg st.fileId (st.offset + chunks.flatten.length) want (reply n)) :
      Framed cfg id replies st (none, chunks.map (st.chunkFrame id) ++ [st.errorFrame id])

/-- One more visit before the others. -/
theorem Framed.cons {replies : List (ℕ → Reply)} {st : Served} {chunks : List Bytes} {later : Option Served × List Frame}
    (read : Read (cfg.content st.fileId) st.offset st.remaining chunks) (hne : chunks ≠ [])
    (h : Framed cfg id replies (st.advance chunks.flatten.length) later) :
    Framed cfg id (reply :: replies) st (later.1, chunks.map (st.chunkFrame id) ++ later.2) := by
  obtain ⟨hfile, hoffset, hremaining, -, hchunk, hend, herror⟩ := st.advance_spec id chunks.flatten.length
  have hlen : ∀ more : List Bytes, (chunks ++ more).flatten.length = chunks.flatten.length + more.flatten.length := by
    intro more
    rw [List.flatten_append, List.length_append]
  -- the visit has sent at least one byte
  have hpos : 0 < chunks.flatten.length := by
    cases chunks with
    | nil => exact absurd rfl hne
    | cons c cs =>
      have hc := List.length_pos_iff.2 (read.nonempty c List.mem_cons_self)
      rw [List.flatten_cons, List.length_append]
      omega
  cases h with
  | stays read' hmoves =>
    rename_i more
    rw [hfile, hoffset, hremaining] at read'
    have hstays : Framed cfg id (reply :: replies) st (some (st.advance (chunks ++ more).flatten.length),
        (chunks ++ more).map (st.chunkFrame id)) := by
      refine .stays (read.append read') ?_
      rw [List.length_cons, hlen]
      omega
    rw [hlen, ← Served.advance_advance, List.map_append] at hstays
    rw [hchunk]
    exact hstays
  | ends read' hall =>
    rename_i more
    rw [hfile, hoffset, hremaining] at read'
    have hends : Framed cfg id (reply :: replies) st (none, (chunks ++ more).map (st.chunkFrame id) ++ [st.endFrame id]) := by
      refine .ends (read.append read') ?_
      have hle := read.le
      rw [hremaining] at hall
      rw [hlen]
      omega
    rw [List.map_append, List.append_assoc] at hends
    rw [hchunk, hend]
    exact hends
  | fails read' hfails =>
    rename_i more
    rw [hfile, hoffset, hremaining] at read'
    have hlater : Framed cfg id (reply :: replies) st (none, (chunks ++ more).map (st.chunkFrame id) ++ [st.errorFrame id]) := by
      refine .fails (read.append read') ?_
      obtain ⟨other, hother, n, want, hwant, hle, hfail⟩ := hfails
      rw [hfile, hoffset, Nat.add_assoc] at hfail
      rw [hremaining] at hle
      rw [hlen]
      exact ⟨other, List.mem_cons_of_mem _ hother, n, want, hwant, by omega, hfail⟩
    rw [List.map_append, List.append_assoc] at hlater
    rw [hchunk, herror]
    exact hlater

/-- **A stream by itself**: its bytes in order, and then one closing frame. -/
theorem framed_serve (replies : List (ℕ → Reply)) (st : Served) (hsound : st.errored = false) :
    Framed cfg id replies st (Mux.serve (fun reply st => Served.visit cfg id reply st) replies st) := by
  -- on the visits, with the stream at any offset
  induction replies generalizing st with
  | nil =>
    have hstays : Framed cfg id [] st (some (st.advance 0), []) := .stays (read_nil _ _ _) (Nat.le_refl 0)
    have hzero : st.advance 0 = st := by cases st <;> rfl
    rw [hzero] at hstays
    exact hstays
  | cons reply replies ih =>
    have hvisited : Visited cfg id reply st (st.visit cfg id reply) := visited st hsound
    unfold Mux.serve
    generalize st.visit cfg id reply = r at hvisited
    cases hvisited with
    | ends read hall => exact .ends read hall
    | fails read hfails =>
      obtain ⟨n, want, hfail⟩ := hfails
      exact .fails read ⟨reply, List.mem_cons_self, n, want, hfail⟩
    | stays read hne =>
      rename_i chunks
      have herrored : (st.advance chunks.flatten.length).errored = st.errored :=
        (st.advance_spec id chunks.flatten.length).2.2.2.1
      exact Framed.cons read hne (ih (st.advance chunks.flatten.length) (herrored.trans hsound))

end FastClone.SendLoop
