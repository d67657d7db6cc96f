import FastClone.Proof.DeltaSigner
import FastClone.Proof.ReaderOrder
import FastClone.Spec.DriverHash

/-!
# The two paths of the hash

Where no read fails both paths hash the content. The path for a small file gives up where the larger ones
wait: if the queue is full it does not try again, and if the completion has not come after one second it does
not wait any longer (`hash_gives_up`). The streaming path waits, but with nothing in flight and nothing
accepted it waits for ever.

* `smallFile_iff`: a small file is hashed exactly if the request is accepted at once and its completion has
  come by the second drain.
* `streamed_only`, `streamed_returns`: a streamed hash is that of the content, and as long as calls with an
  empty window get a read accepted it is returned.
-/

namespace FastClone.DriverHash

open FastClone.DiskIo hiding Event
open FastClone.SequentialReader Runs
open FastClone.Delta (Xxh3 Strong)

variable {X : Xxh3} {content : Bytes}

/-! ### A small file -/

/-- A read that does not fail returns what the file has there. -/
def Reads (content : Bytes) (d : IoRequest × IoResult) : Prop :=
  (d.2.status = .ok ∨ d.2.status = .eof) ∧ d.2.data = (content.drop d.1.offset).take d.1.length ∧
    d.2.transferred = d.2.data.length

/-- The driver accepts the request or not, and delivers what it has accepted before the first drain, before
the second, or later; no read fails. -/
structure AnswersSmall (content : Bytes) (fileId : ℕ) (a : Answers) (done₁ done₂ : List (IoRequest × IoResult)) :
    Prop where
  accepted : a.accepted ≤ 1
  first : a.first = done₁.map fun d => d.1.completion d.2
  second : a.second = done₂.map fun d => d.1.completion d.2
  delivers : Deliverable ([smallRequest fileId content.length a.ioGranularity].take a.accepted) (done₁ ++ done₂)
  reads : ∀ d ∈ done₁ ++ done₂, Reads content d

theorem alignUp_bounds {value alignment : ℕ} (h : 0 < alignment) :
    value ≤ alignUp value alignment ∧ alignUp value alignment ≤ max alignment (2 * value) := by
  have hlt := Nat.mod_lt value h
  have hle := Nat.mod_le value alignment
  have hsmall : value < alignment → value % alignment = value := Nat.mod_eq_of_lt
  unfold alignUp
  rw [if_neg (Nat.ne_of_gt h)]
  dsimp only
  split
  · omega
  · omega

/-- The request covers the file, and fits. -/
theorem smallRequest_fits {g : ℕ} (hpos : 0 < content.length) (hsmall : content.length ≤ kSmallFileDirectThreshold)
    (hg : 0 < g) (hmax : g ≤ uint32Max) :
    content.length ≤ alignUp content.length g ∧
      ¬ (alignUp content.length g = 0 ∨ alignUp content.length g > uint32Max) := by
  obtain ⟨hle, hup⟩ : content.length ≤ alignUp content.length g ∧ alignUp content.length g ≤ max g (2 * content.length) :=
    alignUp_bounds hg
  unfold kSmallFileDirectThreshold at hsmall
  unfold uint32Max at hmax ⊢
  omega

/-- A completion that does not fail is hashed as the content. -/
theorem hashCompletion_of_reads {fileId g : ℕ} {result : IoResult} (hcover : content.length ≤ alignUp content.length g)
    (h : Reads content (smallRequest fileId content.length g, result)) :
    hashCompletion X content.length ((smallRequest fileId content.length g).completion result) =
      .ok (X.computeBufferHash content) := by
  obtain ⟨hstatus, hdata, htransferred⟩ := h
  have hstart : (smallRequest fileId content.length g).offset = 0 := by
    show alignDown 0 g = 0
    unfold alignDown
    split <;> omega
  dsimp only at hstatus hdata htransferred
  have hlength : (smallRequest fileId content.length g).length = alignUp content.length g := rfl
  rw [hstart, List.drop_zero, hlength, List.take_of_length_le hcover] at hdata
  rw [hdata] at htransferred
  have hgood : ¬ (result.status = .error ∨ result.status = .cancelled) := by
    rcases hstatus with hst | hst <;> rw [hst] <;> simp
  have hwhole : ¬ result.transferred < content.length := by omega
  have hbytes : ¬ (result.transferred < content.length ∨ result.data.length < content.length) := by
    rw [hdata]
    omega
  show (if result.status = .error ∨ result.status = .cancelled then _ else _) = _
  rw [if_neg hgood]
  show (if result.status = .eof ∧ result.transferred < content.length then _ else _) = _
  rw [if_neg (fun heof => hwhole heof.2)]
  show (if result.transferred < content.length ∨ result.data.length < content.length then _ else _) = _
  rw [if_neg hbytes]
  show Except.ok (X.computeBufferHash (result.data.take content.length)) = _
  rw [hdata, List.take_length]

/-- At most the one accepted request is delivered. -/
theorem deliverable_singleton {q : IoRequest} {done : List (IoRequest × IoResult)} (h : Deliverable [q] done) :
    done = [] ∨ ∃ result, done = [(q, result)] := by
  cases done with
  | nil => exact Or.inl rfl
  | cons d done =>
    obtain ⟨hmem, hrest⟩ := h
    have hd : d.1 = q := List.mem_singleton.1 hmem
    rw [hd, List.erase_cons_head] at hrest
    cases done with
    | nil => exact Or.inr ⟨d.2, by rw [← hd]⟩
    | cons d' done => nomatch hrest.1

/-- **A small file** is hashed exactly if its request is accepted at once and delivered in time. -/
theorem smallFile_iff {fileId : ℕ} {a : Answers} {done₁ done₂ : List (IoRequest × IoResult)}
    (hpos : 0 < content.length) (hsmall : content.length ≤ kSmallFileDirectThreshold)
    (hmax : a.ioGranularity ≤ uint32Max) (h : AnswersSmall content fileId a done₁ done₂) :
    smallFileHash X content.length a.ioGranularity a.accepted a.first a.second = .ok (X.computeBufferHash content) ↔
      0 < a.ioGranularity ∧ a.accepted = 1 ∧ done₁ ++ done₂ ≠ [] := by
  unfold smallFileHash
  dsimp only
  by_cases hg : a.ioGranularity = 0
  · rw [if_pos hg]
    constructor
    · nofun
    · rintro ⟨hgpos, -⟩
      omega
  rw [if_neg hg]
  have hgpos : 0 < a.ioGranularity := Nat.pos_of_ne_zero hg
  obtain ⟨hcover, hfits⟩ := smallRequest_fits hpos hsmall hgpos hmax
  rw [if_neg hfits]
  by_cases hacc : a.accepted = 1
  swap
  · rw [if_pos hacc]
    constructor
    · nofun
    · rintro ⟨-, hone, -⟩
      exact absurd hone hacc
  rw [if_neg (fun hne => hne hacc)]
  have hdelivers := h.delivers
  rw [hacc] at hdelivers
  rw [h.first, h.second]
  rcases deliverable_singleton hdelivers with hnone | ⟨result, hone⟩
  · -- nothing has come
    obtain ⟨hfirst, hsecond⟩ := List.append_eq_nil_iff.1 hnone
    rw [hfirst, hsecond]
    constructor
    · nofun
    · rintro ⟨-, -, hsome⟩
      exact absurd rfl hsome
  · have hreads := h.reads _ (hone ▸ List.mem_singleton.2 rfl)
    have hhash := hashCompletion_of_reads (X := X) hcover hreads
    have hcame : done₁ ++ done₂ ≠ [] := by
      rw [hone]
      exact List.cons_ne_nil _ _
    refine iff_of_true ?_ ⟨hgpos, hacc, hcame⟩
    cases done₁ with
    | nil =>
      have hsecond : done₂ = [(smallRequest fileId content.length a.ioGranularity, result)] := hone
      rw [hsecond]
      exact hhash
    | cons d rest =>
      obtain ⟨rfl, hnil⟩ := List.cons.inj hone
      rw [(List.append_eq_nil_iff.1 hnil).1]
      exact hhash

/-! ### A streamed file -/

/-- The pieces and the bytes that the loop feeds to the hash. -/
theorem computeHashFromSource_eq {returns : List Return} {chunkBuf : Bytes} {pieces : List Bytes} {readErr : Bool} :
    computeHashFromSource returns chunkBuf pieces.flatten readErr =
      (hashPieces returns chunkBuf pieces readErr).map fun r => (r.1.flatten, r.2) := by
  fun_induction hashPieces returns chunkBuf pieces readErr with
  | case1 returns chunkBuf pieces readErr hsource =>
    unfold computeHashFromSource
    split
    · rfl
    · rename_i hsome
      rw [hsource] at hsome
      cases hsome
  | case2 returns chunkBuf pieces readErr buf err rest hsource =>
    unfold computeHashFromSource
    split
    · rename_i hnone
      rw [hsource] at hnone
      cases hnone
    · rename_i hsome
      rw [hsource] at hsome
      cases hsome
      rw [if_pos rfl]
      rfl
  | case3 returns chunkBuf pieces readErr got buf err rest hsource hgot ih =>
    rw [← ih]
    conv => lhs; unfold computeHashFromSource
    split
    · rename_i hnone
      rw [hsource] at hnone
      cases hnone
    · rename_i hsome
      rw [hsource] at hsome
      cases hsome
      rw [if_neg hgot, List.flatten_append, List.flatten_singleton]

/-- What is fed begins the bytes of the returns, and without a failed return there is no read error. -/
theorem hashPieces_spec {returns : List Return} {chunkBuf : Bytes} {pieces fed : List Bytes} {readErr err : Bool}
    (h : hashPieces returns chunkBuf pieces readErr = some (fed, err)) :
    fed.flatten <+: pieces.flatten ++ chunkBuf ++ outs returns ∧
      ((∀ ret ∈ returns, ret.ok = true) → readErr = false → err = false) := by
  fun_induction hashPieces returns chunkBuf pieces readErr with
  | case1 returns chunkBuf pieces readErr hsource => nomatch h
  | case2 returns chunkBuf pieces readErr buf err' rest hsource =>
    cases h
    obtain ⟨used, -, -, -, herr⟩ := source_bytes hsource
    refine ⟨?_, fun hgood hfalse => ?_⟩
    · rw [List.append_assoc]
      exact List.prefix_append _ _
    · rw [herr hgood, hfalse]
      rfl
  | case3 returns chunkBuf pieces readErr got buf err' rest hsource hgot ih =>
    obtain ⟨used, hused, hbytes, -, herr⟩ := source_bytes hsource
    obtain ⟨hpre, hsound⟩ := ih h
    have hsame : (pieces ++ [got]).flatten ++ buf ++ outs rest = pieces.flatten ++ chunkBuf ++ outs returns := by
      rw [hused, outs_append, List.flatten_append, List.flatten_singleton, List.append_assoc pieces.flatten, hbytes,
        List.nil_append]
      simp only [List.append_assoc]
    rw [hsame] at hpre
    refine ⟨hpre, fun hgood hfalse => hsound (fun ret hret => hgood ret ?_) ?_⟩
    · rw [hused]
      exact List.mem_append_right used hret
    · rw [hfalse, herr hgood]
      rfl

/-- A streamed hash is that of the content. -/
theorem streamed_only (hX : X.stream.Computes X.xxh3_128bits) {cfg : Config} (hsize : cfg.fileSize = content.length)
    {s : State} (h : (machine cfg).Reach (Serves content) s) {r : Except String Strong}
    (hr : streamedHash X s.returns = some r) : r = .ok (X.computeBufferHash content) := by
  obtain ⟨hinv, hserved⟩ := reach_served hsize h
  obtain ⟨⟨fed, err⟩, hpieces, rfl⟩ := Option.map_eq_some_iff.1 hr
  obtain ⟨hpre, hsound⟩ := hashPieces_spec hpieces
  have herr : err = false := hsound hserved.good rfl
  have hbegins : fed.flatten <+: content := by
    have hall : s.bytes <+: content := (reach_inOrder hsize h).begins
    exact hpre.trans hall
  -- what is fed is as long as the file
  have hlen : fed.flatten.length = content.length := by
    have hhashed : hashedBytes s.returns = some fed.flatten := by
      unfold hashedBytes
      have hloop : computeHashFromSource s.returns [] [].flatten false =
          (hashPieces s.returns [] [] false).map fun r => (r.1.flatten, r.2) := computeHashFromSource_eq
      rw [List.flatten_nil, hpieces] at hloop
      rw [hloop, herr]
      rfl
    rw [hashedBytes_length hinv.eof hinv.outs hhashed, hsize]
  have hwhole : fed.flatten = content := hbegins.eq_of_length hlen
  rw [herr]
  show Except.ok (X.raw (X.stream.digest (fed.foldl X.stream.update X.stream.reset))) = _
  rw [hX, hwhole]
  rfl

/-- The returns of 0 bytes. -/
def ends (returns : List Return) : ℕ := returns.countP fun ret => ret.n = 0

theorem source_ends {maxLen : ℕ} {returns : List Return} {written chunkBuf : Bytes} :
    (source maxLen returns written chunkBuf = none → ends returns = 0) ∧
      ∀ got buf err rest, source maxLen returns written chunkBuf = some (got, buf, err, rest) →
        ends returns ≤ ends rest + 1 := by
  fun_induction source maxLen returns written chunkBuf with
  | case1 returns written chunkBuf take hfull =>
    refine ⟨fun h => absurd h (Option.some_ne_none _), fun got buf err rest h => ?_⟩
    cases h
    exact Nat.le_succ _
  | case2 written chunkBuf take hroom =>
    refine ⟨fun _ => rfl, fun got buf err rest h => ?_⟩
    cases h
  | case3 written chunkBuf take hroom ret rest' hok =>
    refine ⟨fun h => absurd h (Option.some_ne_none _), fun got buf err rest h => ?_⟩
    cases h
    unfold ends
    rw [List.countP_cons]
    split <;> omega
  | case4 written chunkBuf take hroom ret rest' hok hn =>
    refine ⟨fun h => absurd h (Option.some_ne_none _), fun got buf err rest h => ?_⟩
    cases h
    unfold ends
    rw [List.countP_cons]
    split <;> omega
  | case5 written chunkBuf take hroom ret rest' hok hn ih =>
    have hcount : ends (ret :: rest') = ends rest' := by
      unfold ends
      rw [List.countP_cons, if_neg (by simpa using hn)]
      rfl
    rw [hcount]
    exact ih

/-- A hash that is not finished has met fewer ends than bytes: each pull but the last takes a byte, and meets
one end at most. -/
theorem ends_le {returns : List Return} {chunkBuf : Bytes} {pieces : List Bytes} {readErr : Bool}
    (h : hashPieces returns chunkBuf pieces readErr = none) :
    ends returns ≤ chunkBuf.length + (returns.map fun ret => ret.out.length).sum := by
  fun_induction hashPieces returns chunkBuf pieces readErr with
  | case1 returns chunkBuf pieces readErr hsource =>
    rw [source_ends.1 hsource]
    exact Nat.zero_le _
  | case2 returns chunkBuf pieces readErr buf err rest hsource => nomatch h
  | case3 returns chunkBuf pieces readErr got buf err rest hsource hgot ih =>
    have hrest := ih h
    have hone := source_ends.2 _ _ _ _ hsource
    have htotal := source_total hsource
    have hpos := List.length_pos_of_ne_nil hgot
    rw [List.length_nil] at htotal
    omega

/-- The caller goes on calling `next` until the hash is finished. -/
def CalledToHash (st : ℕ → State) (ev : ℕ → Option Event) : Prop :=
  ∀ k, (st k).inNext = false → hashPieces (st k).returns [] [] false = none → ∃ m, k ≤ m ∧ ev m ≠ none

/-- Behind the last byte every call returns 0 bytes at once. -/
theorem call_at_end {s : State} {took : ℕ} (hsound : s.reader.error = false)
    (hend : s.reader.fileSize ≤ s.reader.nextYieldOffset) :
    s.call took = s.leave ⟨0, true, []⟩ := by
  unfold State.call
  rw [if_neg (by rw [hsound]; exact Bool.false_ne_true), if_pos hend]

/-- As long as the hash is not finished, more and more calls return at the end of the file. -/
theorem ends_grow {cfg : Config} {st : ℕ → State} {ev : ℕ → Option Event} (hsize : cfg.fileSize = content.length)
    (h : (machine cfg).Schedule (fun s e => Serves content s e ∧ Fed s e) st ev) (hans : Answered st ev)
    (hnext : ∀ k, (st k).inNext = false → ∃ m, k ≤ m ∧ ev m ≠ none) (n : ℕ) :
    ∃ m, (st m).bytes = content ∧ n ≤ ends (st m).returns := by
  have hserves : (machine cfg).Schedule (Serves content) st ev := h.mono fun _ _ hok => hok.1
  induction n with
  | zero =>
    obtain ⟨m, hm⟩ := reader_whole hsize h hans fun k hin _ => hnext k hin
    exact ⟨m, hm, Nat.zero_le _⟩
  | succ n ih =>
    obtain ⟨m, hm, hends⟩ := ih
    obtain ⟨hinv, hserved⟩ := reach_served hsize (hserves.reach m)
    have hend : (st m).reader.fileSize ≤ (st m).reader.nextYieldOffset := by
      have hbytes := hserved.bytes
      rw [hm] at hbytes
      have hlen := congrArg List.length hbytes
      rw [List.length_take] at hlen
      rw [hinv.size, hsize]
      omega
    have hin : (st m).inNext = false := by
      cases hbusy : (st m).inNext with
      | false => rfl
      | true =>
        have hlt := (hinv.waits hbusy).2
        omega
    obtain ⟨j, e, -, he, hst⟩ := hserves.next_event (hnext m hin)
    obtain ⟨hc, -, hstep⟩ := hserves.step j e he
    rw [hst] at hc hstep
    cases e with
    | yield took =>
      have hbusy := hc.1
      rw [hin] at hbusy
      nomatch hbusy
    | reap done =>
      have hbusy := hc.1
      rw [hin] at hbusy
      nomatch hbusy
    | call took =>
      have hcall : st (j + 1) = (st m).leave ⟨0, true, []⟩ := hstep.trans (call_at_end hserved.sound hend)
      refine ⟨j + 1, ?_, ?_⟩
      · rw [hcall]
        show outs ((st m).returns ++ [_]) = content
        rw [outs_append]
        exact (List.append_nil _).trans hm
      · rw [hcall]
        show n + 1 ≤ ends ((st m).returns ++ [_])
        unfold ends at hends ⊢
        rw [List.countP_append]
        exact Nat.add_le_add_right hends 1

/-- Along a schedule with reads accepted and delivered and calls made, the streamed hash is returned. -/
theorem streamed_returns (hX : X.stream.Computes X.xxh3_128bits) {cfg : Config} (hsize : cfg.fileSize = content.length)
    {st : ℕ → State} {ev : ℕ → Option Event}
    (h : (machine cfg).Schedule (fun s e => Serves content s e ∧ Fed s e) st ev) (hans : Answered st ev)
    (hcalls : CalledToHash st ev) :
    ∃ m, streamedHash X (st m).returns = some (.ok (X.computeBufferHash content)) := by
  have hserves : (machine cfg).Schedule (Serves content) st ev := h.mono fun _ _ hok => hok.1
  by_contra hnever
  have hnone : ∀ k, hashPieces (st k).returns [] [] false = none := by
    intro k
    cases hpieces : hashPieces (st k).returns [] [] false with
    | none => rfl
    | some r =>
      have hsome : (streamedHash X (st k).returns).isSome := by
        unfold streamedHash
        rw [hpieces]
        rfl
      obtain ⟨r', hr'⟩ := Option.isSome_iff_exists.1 hsome
      exact absurd ⟨k, hr'.trans (congrArg some (streamed_only hX hsize (hserves.reach k) hr'))⟩ hnever
  obtain ⟨m, hm, hends⟩ := ends_grow hsize h hans (fun k hin => hcalls k hin (hnone k)) (content.length + 1)
  have hle := ends_le (hnone m)
  have hlen : ((st m).returns.map fun ret => ret.out.length).sum = content.length := by
    have hflat : (outs (st m).returns).length = content.length := congrArg List.length hm
    unfold outs at hflat
    rw [List.length_flatten, List.map_map] at hflat
    exact hflat
  rw [hlen, List.length_nil] at hle
  omega

/-! ### Both -/

/-- **The hash through the driver.** For every content and every schedule in which no read fails: the empty
file is hashed; a small file is hashed exactly if the driver has an alignment for it, accepts the request at
once and has delivered it by the second drain; a larger one is never hashed to anything else, and its hash is
returned along every schedule in which calls with an empty window get a read accepted, accepted reads are
delivered, and the loop goes on. -/
theorem hash_via_driver (hX : X.stream.Computes X.xxh3_128bits) (content : Bytes) (fileId : ℕ) :
    (content = [] → ∀ a, computeFileHashViaDriver X content.length a = some (.ok (X.computeBufferHash content))) ∧
    (0 < content.length → content.length ≤ kSmallFileDirectThreshold → ∀ a done₁ done₂,
      a.ioGranularity ≤ uint32Max → AnswersSmall content fileId a done₁ done₂ →
      (computeFileHashViaDriver X content.length a = some (.ok (X.computeBufferHash content)) ↔
        0 < a.ioGranularity ∧ a.accepted = 1 ∧ done₁ ++ done₂ ≠ [])) ∧
    (kSmallFileDirectThreshold < content.length →
      (∀ s, (machine (readerConfig fileId content.length)).Reach (Serves content) s → ∀ a r, a.returns = s.returns →
        computeFileHashViaDriver X content.length a = some r → r = .ok (X.computeBufferHash content)) ∧
      ∀ st ev, (machine (readerConfig fileId content.length)).Schedule (fun s e => Serves content s e ∧ Fed s e) st ev →
        Answered st ev → CalledToHash st ev → ∃ m, ∀ a, a.returns = (st m).returns →
          computeFileHashViaDriver X content.length a = some (.ok (X.computeBufferHash content))) := by
  refine ⟨fun hempty a => ?_, fun hpos hsmall a done₁ done₂ hmax h => ?_, fun hlarge => ?_⟩
  · rw [hempty]
    rfl
  · unfold computeFileHashViaDriver
    rw [if_neg (Nat.ne_of_gt hpos), if_pos hsmall, Option.some.injEq]
    exact smallFile_iff hpos hsmall hmax h
  · have hstream : ∀ a, computeFileHashViaDriver X content.length a = streamedHash X a.returns := by
      intro a
      unfold computeFileHashViaDriver
      rw [if_neg (by omega), if_neg (by omega)]
    refine ⟨fun s hs a r ha hr => ?_, fun st ev h hans hcalls => ?_⟩
    · rw [hstream, ha] at hr
      exact streamed_only hX rfl hs hr
    · obtain ⟨m, hm⟩ := streamed_returns hX rfl h hans hcalls
      refine ⟨m, fun a ha => ?_⟩
      rw [hstream, ha]
      exact hm

/-- A file of one byte on a device with pages of 512 bytes; the completion comes during the wait. -/
theorem hash_via_driver_one : computeFileHashViaDriver Delta.shortXxh3 1
      ⟨512, 1, [], [(smallRequest 7 1 512).completion ⟨.eof, 1, [42]⟩], []⟩ =
    some (.ok (Delta.shortXxh3.computeBufferHash [42])) :=
  ((hash_via_driver (Incremental.buffered_computes Delta.xxh3Short) [42] 7).2.1 (by decide) (by decide) _ []
    [(smallRequest 7 1 512, ⟨.eof, 1, [42]⟩)] (by decide)
    ⟨le_rfl, rfl, rfl, by decide, by unfold Reads; decide⟩).2 ⟨by decide, rfl, List.cons_ne_nil _ _⟩

/-- The queue is full for a moment, or the completion takes longer than a second: no read fails, and the file
is not hashed. -/
theorem hash_gives_up :
    computeFileHashViaDriver Delta.shortXxh3 1 ⟨512, 0, [], [], []⟩ =
      some (.error "ComputeFileHashViaDriver: submit failed") ∧
    computeFileHashViaDriver Delta.shortXxh3 1 ⟨512, 1, [], [], []⟩ =
      some (.error "ComputeFileHashViaDriver: completion count mismatch") ∧
    ¬ ∀ (content : Bytes) (fileId : ℕ) (a : Answers) (done₁ done₂ : List (IoRequest × IoResult)),
      0 < content.length → content.length ≤ kSmallFileDirectThreshold → 0 < a.ioGranularity →
      AnswersSmall content fileId a done₁ done₂ → computeFileHashViaDriver Delta.shortXxh3 content.length a =
        some (.ok (Delta.shortXxh3.computeBufferHash content)) := by
  refine ⟨rfl, rfl, fun h => ?_⟩
  have hhash := h [42] 7 ⟨512, 0, [], [], []⟩ [] [] (by decide) (by decide) (by decide)
    ⟨Nat.zero_le _, rfl, rfl, trivial, nofun⟩
  nomatch hhash

end FastClone.DriverHash
