import FastClone.Proof.SendStream

/-!
# The streams of a session

A round of the send loop is one round over all streams, whatever their kind (`round_served`). So on every stream
goes out what the stream would send by itself, with the answers to its own reads (`State.Inv.alone`), however
the streams are interleaved and whatever becomes of the others: `streams_framed`.
-/

namespace FastClone.SendLoop

open FastClone.Delta FastClone.Wire FastClone.Frames Runs

variable {cfg : Config} {s : State}

/-! ### All kinds together -/

def Table.all {σ : Type} (t : Table σ) : List (UInt32 × σ) := t.active ++ t.pendingNew

/-- The streams in three orders, as one list. -/
def together (streams : List (UInt32 × ServerStream)) (rangeStreams fileRangeStreams : List (UInt32 × ServerRangeStream)) :
    List (UInt32 × Served) :=
  streams.map (Prod.map id .file) ++ (rangeStreams.map (Prod.map id .deltaRange) ++
    fileRangeStreams.map (Prod.map id .fileRange))

def State.served (s : State) : List (UInt32 × Served) :=
  together s.streams.all s.rangeStreams.all s.fileRangeStreams.all

def visitAny (cfg : Config) (reply : UInt32 → ℕ → Reply) (id : UInt32) (st : Served) : Option Served × List Frame :=
  st.visit cfg id (reply id)

/-- The three loops are one loop. -/
theorem round_served (streams : List (UInt32 × ServerStream))
    (rangeStreams fileRangeStreams : List (UInt32 × ServerRangeStream)) (reply : UInt32 → ℕ → Reply) :
    (s.round cfg streams rangeStreams fileRangeStreams reply).served =
        (Mux.visitAll (visitAny cfg reply) (together streams rangeStreams fileRangeStreams)).1 ∧
      (s.round cfg streams rangeStreams fileRangeStreams reply).sent = s.sent ++ (s.outboundHigh.take highBudget ++
        (Mux.visitAll (visitAny cfg reply) (together streams rangeStreams fileRangeStreams)).2) := by
  have hfiles : Mux.visitAll (visitAny cfg reply) (streams.map (Prod.map id .file)) =
      ((Mux.visitAll (fun id ss => ss.visit cfg id (reply id)) streams).1.map (Prod.map id .file),
        (Mux.visitAll (fun id ss => ss.visit cfg id (reply id)) streams).2) := Mux.visitAll_map Served.file fun _ _ => rfl
  have hdeltas : Mux.visitAll (visitAny cfg reply) (rangeStreams.map (Prod.map id .deltaRange)) =
      ((Mux.visitAll (fun id rs => rs.visit deltaFamily cfg id (reply id)) rangeStreams).1.map (Prod.map id .deltaRange),
        (Mux.visitAll (fun id rs => rs.visit deltaFamily cfg id (reply id)) rangeStreams).2) :=
    Mux.visitAll_map Served.deltaRange fun _ _ => rfl
  have hranges : Mux.visitAll (visitAny cfg reply) (fileRangeStreams.map (Prod.map id .fileRange)) =
      ((Mux.visitAll (fun id rs => rs.visit fileRangeFamily cfg id (reply id)) fileRangeStreams).1.map
          (Prod.map id .fileRange),
        (Mux.visitAll (fun id rs => rs.visit fileRangeFamily cfg id (reply id)) fileRangeStreams).2) :=
    Mux.visitAll_map Served.fileRange fun _ _ => rfl
  unfold together
  rw [Mux.visitAll_append, Mux.visitAll_append, hfiles, hdeltas, hranges]
  unfold State.served together Table.all State.round Table.round
  dsimp only
  simp only [List.append_nil, and_self]

/-- Every frame of a visit carries the id of the stream. -/
theorem tag_visit (reply : UInt32 → ℕ → Reply) (id : UInt32) (st : Served) :
    ∀ f ∈ (visitAny cfg reply id st).2, f.streamId = id := by
  have hrange : ∀ (family : Family) (rs : ServerRangeStream),
      ∀ f ∈ (rs.visit family cfg id (reply id)).2, f.streamId = id := by
    intro family rs f hf
    have hchunks : ∀ chunks : List Bytes, ∀ g ∈ chunks.map (frame family.chunk id), g.streamId = id := by
      intro chunks g hg
      obtain ⟨c, -, rfl⟩ := List.mem_map.1 hg
      rfl
    unfold ServerRangeStream.visit at hf
    dsimp only at hf
    split at hf
    · rcases List.mem_append.1 hf with hchunk | hlast
      · exact hchunks _ f hchunk
      · rw [List.mem_singleton.1 hlast]
        rfl
    · split at hf
      · rcases List.mem_append.1 hf with hchunk | hlast
        · exact hchunks _ f hchunk
        · rw [List.mem_singleton.1 hlast]
          rfl
      · exact hchunks _ f hf
  cases st with
  | deltaRange rs => exact hrange deltaFamily rs
  | fileRange rs => exact hrange fileRangeFamily rs
  | file ss =>
    have hvisited : Visited cfg id (reply id) (.file ss) (visitAny cfg reply id (.file ss)) := visited (.file ss) rfl
    intro f hf
    have hchunks : ∀ chunks : List Bytes, ∀ g ∈ chunks.map ((Served.file ss).chunkFrame id), g.streamId = id := by
      intro chunks g hg
      obtain ⟨c, -, rfl⟩ := List.mem_map.1 hg
      rfl
    generalize visitAny cfg reply id (.file ss) = r at hvisited hf
    cases hvisited with
    | stays read hne => exact hchunks _ f hf
    | ends read hall =>
      rcases List.mem_append.1 hf with hchunk | hlast
      · exact hchunks _ f hchunk
      · rw [List.mem_singleton.1 hlast]
        rfl
    | fails read hfails =>
      rcases List.mem_append.1 hf with hchunk | hlast
      · exact hchunks _ f hchunk
      · rw [List.mem_singleton.1 hlast]
        rfl

/-! ### The invariant -/

/-- What is sent on a stream, and what is kept of it, is what the stream does by itself; a refused request gets
one answer. -/
structure State.Inv (cfg : Config) (s : State) : Prop where
  ids : s.ids.Nodup
  keys : (s.served.map Prod.fst).Nodup
  known : ∀ p ∈ s.served, p.1 ∈ s.opened.map Opened.id
  sound : ∀ o ∈ s.opened, o.start.errored = false
  alone : ∀ o ∈ s.opened, s.framesOn o.id = (o.alone cfg).2 ∧
    ∀ st, (o.id, st) ∈ s.served ↔ (o.alone cfg).1 = some st
  urgent : ∀ f ∈ s.refused, Mux.on Frame.streamId f.streamId (s.sent ++ s.outboundHigh) = [f]
  high : ∀ f ∈ s.outboundHigh, f ∈ s.refused
  quiet : ∀ f ∈ s.sent, f.streamId ∈ s.ids

theorem inv_init (cfg : Config) : State.Inv cfg {} where
  ids := List.nodup_nil
  keys := List.nodup_nil
  known := nofun
  sound := nofun
  alone := nofun
  urgent := nofun
  high := nofun
  quiet := nofun

theorem mem_ids_of_opened {o : Opened} (ho : o ∈ s.opened) : o.id ∈ s.ids :=
  List.mem_append_left _ (List.mem_map.2 ⟨o, ho, rfl⟩)

theorem mem_ids_of_refused {f : Frame} (hf : f ∈ s.refused) : f.streamId ∈ s.ids :=
  List.mem_append_right _ (List.mem_map.2 ⟨f, hf, rfl⟩)

/-- An id is not both. -/
theorem State.Inv.apart (h : s.Inv cfg) {o : Opened} (ho : o ∈ s.opened) {f : Frame} (hf : f ∈ s.refused) :
    f.streamId ≠ o.id := by
  intro heq
  have hapart := (List.nodup_append.1 h.ids).2.2
  exact hapart o.id (List.mem_map.2 ⟨o, ho, rfl⟩) f.streamId (List.mem_map.2 ⟨f, hf, rfl⟩) heq.symm

/-- Nothing goes out under an id that nobody has used. -/
theorem on_nil {id : UInt32} {frames : List Frame} (h : ∀ f ∈ frames, f.streamId ≠ id) :
    Mux.on Frame.streamId id frames = [] := by
  refine List.filter_eq_nil_iff.2 fun f hf => ?_
  simpa using h f hf

/-- **A request that is accepted** adds a stream that has sent nothing. -/
theorem State.Inv.accept {s' : State} (h : s.Inv cfg) {id : UInt32} (hid : id ∉ s.ids) {start : Served}
    (hstart : start.errored = false) (hserved : s'.served.Perm ((id, start) :: s.served))
    (hopened : s'.opened = s.opened ++ [⟨id, start, []⟩]) (hsent : s'.sent = s.sent)
    (hhigh : s'.outboundHigh = s.outboundHigh) (hrefused : s'.refused = s.refused) : s'.Inv cfg := by
  have hother : ∀ o ∈ s.opened, o.id ≠ id := by
    rintro o ho rfl
    exact hid (mem_ids_of_opened ho)
  have hids : s'.ids.Perm (id :: s.ids) := by
    unfold State.ids
    rw [hopened, hrefused, List.map_append, List.append_assoc]
    exact List.perm_middle
  have hmem : ∀ p, p ∈ s'.served ↔ p = (id, start) ∨ p ∈ s.served := fun p => by
    rw [hserved.mem_iff, List.mem_cons]
  -- a stream in a table was opened, and the id is new
  have hnot : ∀ st, (id, st) ∉ s.served := by
    intro st hst
    obtain ⟨o, ho, heq⟩ := List.mem_map.1 (h.known _ hst)
    exact hother o ho heq
  refine ⟨hids.nodup_iff.2 (List.nodup_cons.2 ⟨hid, h.ids⟩), ?_, ?_, ?_, ?_, ?_, ?_, ?_⟩
  · refine (hserved.map Prod.fst).nodup_iff.2 (List.nodup_cons.2 ⟨fun hin => ?_, h.keys⟩)
    obtain ⟨⟨k, st⟩, hp, rfl⟩ := List.mem_map.1 hin
    exact hnot st hp
  · intro p hp
    rw [hopened, List.map_append]
    rcases (hmem p).1 hp with rfl | hold
    · exact List.mem_append_right _ (List.mem_singleton_self id)
    · exact List.mem_append_left _ (h.known p hold)
  · intro o ho
    rw [hopened] at ho
    rcases List.mem_append.1 ho with hold | hnew
    · exact h.sound o hold
    · rw [List.mem_singleton.1 hnew]
      exact hstart
  · intro o ho
    rw [hopened] at ho
    unfold State.framesOn
    rw [hsent]
    rcases List.mem_append.1 ho with hold | hnew
    · refine ⟨(h.alone o hold).1, fun st => ?_⟩
      rw [hmem, ← (h.alone o hold).2 st]
      refine ⟨fun hin => hin.resolve_left fun heq => ?_, Or.inr⟩
      exact hother o hold (congrArg Prod.fst heq)
    · rw [List.mem_singleton.1 hnew]
      refine ⟨on_nil fun f hf => ?_, fun st => ?_⟩
      · rintro rfl
        exact hid (h.quiet f hf)
      · rw [hmem]
        refine ⟨fun hin => ?_, fun hst => Or.inl ?_⟩
        · rcases hin with heq | hold
          · exact congrArg some (congrArg Prod.snd heq).symm
          · exact absurd hold (hnot st)
        · exact congrArg (Prod.mk id) (Option.some.inj hst).symm
  · rw [hrefused, hsent, hhigh]
    exact h.urgent
  · rw [hrefused, hhigh]
    exact h.high
  · intro f hf
    rw [hsent] at hf
    exact hids.symm.subset (List.mem_cons_of_mem id (h.quiet f hf))

theorem State.Inv.refuse (h : s.Inv cfg) {f : Frame} (hid : f.streamId ∉ s.ids) : (s.refuse f).Inv cfg := by
  have hids : (s.refuse f).ids = s.ids ++ [f.streamId] := by
    unfold State.ids State.refuse
    rw [List.map_append, List.append_assoc]
    rfl
  refine ⟨?_, h.keys, h.known, h.sound, h.alone, ?_, ?_, ?_⟩
  · rw [hids]
    exact (List.perm_append_singleton _ _).nodup_iff.2 (List.nodup_cons.2 ⟨hid, h.ids⟩)
  · intro g hg
    change Mux.on Frame.streamId g.streamId (s.sent ++ (s.outboundHigh ++ [f])) = [g]
    rw [← List.append_assoc, Mux.on_append]
    rcases List.mem_append.1 hg with hold | hnew
    -- an earlier refusal has another id, so its one answer stays the only one
    · have hne : f.streamId ≠ g.streamId := by
        intro heq
        exact hid (heq ▸ mem_ids_of_refused hold)
      rw [h.urgent g hold, on_nil fun f' hf' => List.mem_singleton.1 hf' ▸ hne]
      rfl
    · obtain rfl := List.mem_singleton.1 hnew
      have hnone : Mux.on Frame.streamId g.streamId (s.sent ++ s.outboundHigh) = [] := by
        refine on_nil fun f' hf' heq => ?_
        rcases List.mem_append.1 hf' with hsent | hhigh
        · exact hid (heq ▸ h.quiet f' hsent)
        · exact hid (heq ▸ mem_ids_of_refused (h.high f' hhigh))
      rw [hnone, Mux.on_of_tagged fun f' hf' => congrArg Frame.streamId (List.mem_singleton.1 hf')]
      rfl
  · intro g hg
    rcases List.mem_append.1 hg with hold | hnew
    · exact List.mem_append_left _ (h.high g hold)
    · exact List.mem_append_right _ hnew
  · intro g hg
    rw [hids]
    exact List.mem_append_left _ (h.quiet g hg)

/-- The stream after one more visit. -/
theorem alone_round (cfg : Config) (o : Opened) (reply : UInt32 → ℕ → Reply) :
    Opened.alone cfg { o with replies := o.replies ++ [reply o.id] } =
      match (o.alone cfg).1 with
      | none => o.alone cfg
      | some st => ((visitAny cfg reply o.id st).1, (o.alone cfg).2 ++ (visitAny cfg reply o.id st).2) := by
  cases hopen : (o.alone cfg).1 with
  | none => exact Mux.serve_closed hopen (reply o.id)
  | some st => exact Mux.serve_open hopen (reply o.id)

section Round

variable {order : List (UInt32 × Served)} {reply : UInt32 → ℕ → Reply}

theorem State.Inv.mem_order (h : s.Inv cfg) (hperm : order.Perm s.served) {o : Opened} (ho : o ∈ s.opened) {st : Served} :
    (o.id, st) ∈ order ↔ (o.alone cfg).1 = some st :=
  hperm.mem_iff.trans ((h.alone o ho).2 st)

variable (reply) in
/-- What a round keeps of a stream, and what it sends on it, are what one visit to the stream gives. -/
theorem State.Inv.visits (h : s.Inv cfg) (hperm : order.Perm s.served) {o : Opened} (ho : o ∈ s.opened) :
    (o.alone cfg).2 ++ Mux.on Frame.streamId o.id (Mux.visitAll (visitAny cfg reply) order).2 =
        (Opened.alone cfg { o with replies := o.replies ++ [reply o.id] }).2 ∧
      ∀ st, (o.id, st) ∈ (Mux.visitAll (visitAny cfg reply) order).1 ↔
        (Opened.alone cfg { o with replies := o.replies ++ [reply o.id] }).1 = some st := by
  have hkeys : (order.map Prod.fst).Nodup := (hperm.map Prod.fst).nodup_iff.2 h.keys
  have hmem : ∀ st, (o.id, st) ∈ order ↔ (o.alone cfg).1 = some st := fun st => h.mem_order hperm ho
  rw [alone_round]
  cases hopen : (o.alone cfg).1 with
  | none =>
    -- a closed stream is in no table, so no visit comes to it
    have hgone : o.id ∉ order.map Prod.fst := by
      intro hin
      obtain ⟨⟨k, st⟩, hp, hk⟩ := List.mem_map.1 hin
      obtain rfl : k = o.id := hk
      have hstill := (hmem st).1 hp
      rw [hopen] at hstill
      nomatch hstill
    rw [Mux.on_visitAll_other (tag_visit reply) hgone]
    refine ⟨List.append_nil _, fun st => ?_⟩
    rw [Mux.mem_visitAll]
    dsimp only
    rw [hopen]
    refine ⟨?_, nofun⟩
    rintro ⟨st', hst', -⟩
    exact absurd (List.mem_map.2 ⟨(o.id, st'), hst', rfl⟩) hgone
  | some st' =>
    have hin : (o.id, st') ∈ order := (hmem st').2 hopen
    rw [Mux.on_visitAll (tag_visit reply) hkeys hin]
    refine ⟨rfl, fun st => ?_⟩
    rw [Mux.mem_visitAll]
    constructor
    · rintro ⟨st'', hst'', hvisit⟩
      have hsame := (hmem st'').1 hst''
      rw [hopen] at hsame
      rw [Option.some.inj hsame]
      exact hvisit
    · intro hvisit
      exact ⟨st', hin, hvisit⟩

/-- A round sends only on streams that are open. -/
theorem State.Inv.tags (h : s.Inv cfg) (hperm : order.Perm s.served) {f : Frame}
    (hf : f ∈ (Mux.visitAll (visitAny cfg reply) order).2) : f.streamId ∈ s.opened.map Opened.id := by
  obtain ⟨p, hp, hid⟩ := List.mem_map.1 (Mux.tag_visitAll (tag_visit reply) hf)
  rw [← hid]
  exact h.known p (hperm.subset hp)

/-- **A round** visits every stream that is open, once. -/
theorem State.Inv.round (h : s.Inv cfg) {streams : List (UInt32 × ServerStream)}
    {rangeStreams fileRangeStreams : List (UInt32 × ServerRangeStream)}
    (hperm : (together streams rangeStreams fileRangeStreams).Perm s.served) :
    (s.round cfg streams rangeStreams fileRangeStreams reply).Inv cfg := by
  have hserved : (s.round cfg streams rangeStreams fileRangeStreams reply).served =
      (Mux.visitAll (visitAny cfg reply) (together streams rangeStreams fileRangeStreams)).1 := (round_served ..).1
  have hsent : (s.round cfg streams rangeStreams fileRangeStreams reply).sent = s.sent ++ (s.outboundHigh.take highBudget ++
      (Mux.visitAll (visitAny cfg reply) (together streams rangeStreams fileRangeStreams)).2) := (round_served ..).2
  have hhigh : (s.round cfg streams rangeStreams fileRangeStreams reply).outboundHigh = s.outboundHigh.drop highBudget := rfl
  have hopened : (s.round cfg streams rangeStreams fileRangeStreams reply).opened.map Opened.id = s.opened.map Opened.id := by
    change (s.opened.map fun o : Opened => { o with replies := o.replies ++ [reply o.id] }).map Opened.id = _
    rw [List.map_map]
    rfl
  have hids : (s.round cfg streams rangeStreams fileRangeStreams reply).ids = s.ids := by
    unfold State.ids
    rw [hopened]
    rfl
  generalize together streams rangeStreams fileRangeStreams = order at hserved hsent hperm
  refine ⟨hids ▸ h.ids, ?_, ?_, ?_, ?_, ?_, ?_, ?_⟩
  · rw [hserved]
    exact ((hperm.map Prod.fst).nodup_iff.2 h.keys).sublist Mux.keys_visitAll
  · intro p hp
    rw [hserved] at hp
    rw [hopened]
    obtain ⟨q, hq, hid⟩ := List.mem_map.1 (Mux.keys_visitAll.subset (List.mem_map.2 ⟨p, hp, rfl⟩))
    rw [← hid]
    exact h.known q (hperm.subset hq)
  · intro o ho
    obtain ⟨o', ho', rfl⟩ := List.mem_map.1 ho
    exact h.sound o' ho'
  · intro o ho
    obtain ⟨o', ho', rfl⟩ := List.mem_map.1 ho
    obtain ⟨hframes, hkept⟩ := h.visits reply hperm ho'
    have hurgent : Mux.on Frame.streamId o'.id (s.outboundHigh.take highBudget) = [] :=
      on_nil fun f hf => h.apart ho' (h.high f (List.mem_of_mem_take hf))
    have hbefore : Mux.on Frame.streamId o'.id s.sent = (o'.alone cfg).2 := (h.alone o' ho').1
    unfold State.framesOn
    rw [hsent, Mux.on_append, Mux.on_append, hurgent, List.nil_append, hserved, hbefore]
    exact ⟨hframes, hkept⟩
  · intro f hf
    -- a refused request has no stream
    have hnone : Mux.on Frame.streamId f.streamId (Mux.visitAll (visitAny cfg reply) order).2 = [] := by
      refine on_nil fun g hg heq => ?_
      obtain ⟨o, ho, hid⟩ := List.mem_map.1 (h.tags hperm hg)
      exact h.apart ho hf (heq.symm.trans hid.symm)
    have hsplit : Mux.on Frame.streamId f.streamId (s.outboundHigh.take highBudget) ++
        Mux.on Frame.streamId f.streamId (s.outboundHigh.drop highBudget) =
          Mux.on Frame.streamId f.streamId s.outboundHigh := by
      rw [← Mux.on_append, List.take_append_drop]
    have hurgent := h.urgent f hf
    rw [Mux.on_append] at hurgent
    rw [hsent, hhigh, Mux.on_append, Mux.on_append, Mux.on_append, hnone, List.append_nil, List.append_assoc, hsplit]
    exact hurgent
  · intro f hf
    exact h.high f (List.mem_of_mem_drop hf)
  · intro f hf
    rw [hids]
    rw [hsent] at hf
    rcases List.mem_append.1 hf with hold | hnew
    · exact h.quiet f hold
    · rcases List.mem_append.1 hnew with hurgent | hvisit
      · exact mem_ids_of_refused (h.high f (List.mem_of_mem_take hurgent))
      · exact List.mem_append_left _ (h.tags hperm hvisit)

end Round

/-! ### Every run -/

theorem Table.all_push {σ : Type} (t : Table σ) (id : UInt32) (st : σ) : (t.push id st).all = t.all ++ [(id, st)] :=
  (List.append_assoc ..).symm

theorem openRange_sound {req : RangeRequest} {fileId : ℕ} {rs : ServerRangeStream} (h : openRange req fileId = some rs) :
    rs.errored = false := by
  unfold openRange at h
  split at h
  · nomatch h
  · split at h
    · nomatch h
    · rw [← Option.some.inj h]

theorem State.Inv.fileOpen (h : s.Inv cfg) {id : UInt32} (hid : id ∉ s.ids) (rel : Bytes) (fileSize : Option UInt64)
    (fileId : ℕ) : (s.fileOpen id rel fileSize fileId).Inv cfg := by
  unfold State.fileOpen
  cases fileSize with
  | none => exact h.refuse hid
  | some size =>
    dsimp only
    split
    · exact h.refuse hid
    · refine h.accept hid rfl ?_ rfl rfl rfl rfl
      unfold State.served together
      dsimp only
      rw [Table.all_push, List.map_append, List.append_assoc]
      exact List.perm_middle

theorem State.Inv.deltaRangeOpen (h : s.Inv cfg) {id : UInt32} (hid : id ∉ s.ids) (req : RangeRequest) (fileId : ℕ) :
    (s.deltaRangeOpen id req fileId).Inv cfg := by
  unfold State.deltaRangeOpen
  cases hopen : openRange req fileId with
  | none => exact h.refuse hid
  | some rs =>
    have hsound : (Served.deltaRange rs).errored = false := openRange_sound hopen
    refine h.accept hid hsound ?_ rfl rfl rfl rfl
    unfold State.served together
    dsimp only
    rw [Table.all_push, List.map_append, List.append_assoc]
    -- past the ranges that are there, then past the files
    exact (List.perm_middle.append_left _).trans List.perm_middle

theorem State.Inv.fileRangeOpen (h : s.Inv cfg) {id : UInt32} (hid : id ∉ s.ids) (req : RangeRequest) (fileId : ℕ) :
    (s.fileRangeOpen id req fileId).Inv cfg := by
  unfold State.fileRangeOpen
  cases hopen : openRange req fileId with
  | none => exact h.refuse hid
  | some rs =>
    have hsound : (Served.fileRange rs).errored = false := openRange_sound hopen
    refine h.accept hid hsound ?_ rfl rfl rfl rfl
    unfold State.served together
    dsimp only
    rw [Table.all_push, List.map_append]
    have hranges : ∀ ranges : List (UInt32 × Served), (ranges ++ [(id, Served.fileRange rs)]).Perm ((id, .fileRange rs) :: ranges) :=
      List.perm_append_singleton _
    exact ((((hranges _).append_left _).trans List.perm_middle).append_left _).trans List.perm_middle

theorem State.Inv.next (h : s.Inv cfg) {e : Event} (hcan : s.can e) : (s.next cfg e).Inv cfg := by
  cases e with
  | fileOpen id rel fileSize fileId => exact h.fileOpen hcan rel fileSize fileId
  | deltaRangeOpen id req fileId => exact h.deltaRangeOpen hcan req fileId
  | fileRangeOpen id req fileId => exact h.fileRangeOpen hcan req fileId
  | round streams rangeStreams fileRangeStreams reply =>
    obtain ⟨hfiles, hdeltas, hranges⟩ := hcan
    have hperm : (together streams rangeStreams fileRangeStreams).Perm s.served :=
      (hfiles.map _).append ((hdeltas.map _).append (hranges.map _))
    exact h.round hperm

theorem inv_reach (h : (machine cfg).Reach (fun _ _ => True) s) : s.Inv cfg :=
  h.invariant (inv_init cfg) fun _ _ hs hcan _ => hs.next hcan

/-- A stream is closed after as many rounds as it has bytes, and one. -/
theorem Framed.closes {id : UInt32} {replies : List (ℕ → Reply)} {st : Served} {r : Option Served × List Frame}
    (h : Framed cfg id replies st r) (hmany : st.remaining < replies.length) : r.1 = none := by
  cases h with
  | stays read hmoves =>
    have hle := read.le
    omega
  | ends read hall => rfl
  | fails read hfails => rfl

/-- **The streams of a session.** At every moment, on every stream that was opened there are its bytes in order from
its offset, then its end frame if these are all, or its error frame if one of its own reads has failed. It is
what the stream would send by itself, and it is closed once it has been in more rounds than it has bytes. A refused
request has one answer. -/
theorem streams_framed (cfg : Config) (s : State) (h : (machine cfg).Reach (fun _ _ => True) s) :
    (∀ o ∈ s.opened, s.framesOn o.id = (o.alone cfg).2 ∧
      Framed cfg o.id o.replies o.start ((o.alone cfg).1, s.framesOn o.id) ∧
        (∀ st, (o.id, st) ∈ s.served ↔ (o.alone cfg).1 = some st) ∧
          (o.start.remaining < o.replies.length → ∀ st, (o.id, st) ∉ s.served)) ∧
      ∀ f ∈ s.refused, Mux.on Frame.streamId f.streamId (s.sent ++ s.outboundHigh) = [f] := by
  have hinv := inv_reach h
  refine ⟨fun o ho => ?_, hinv.urgent⟩
  obtain ⟨hframes, hserved⟩ := hinv.alone o ho
  have hframed : Framed cfg o.id o.replies o.start (o.alone cfg) := framed_serve o.replies o.start (hinv.sound o ho)
  refine ⟨hframes, ?_, hserved, ?_⟩
  · rw [hframes]
    exact hframed
  · intro hmany st hst
    have hopen := (hserved st).1 hst
    rw [hframed.closes hmany] at hopen
    nomatch hopen

/-! ### Two streams -/

/-- A read of a whole chunk. -/
theorem read_full {content : ℕ → Bytes} {fileId offset n want : ℕ} (hn : want ≤ n)
    (hcontent : offset + want ≤ (content fileId).length) :
    driverReadRangeChunk content fileId offset want (.data n) = (((content fileId).drop offset).take want, false) ∧
      (((content fileId).drop offset).take want).length = want := by
  refine ⟨?_, ?_⟩
  · rw [driverReadRangeChunk, Nat.min_eq_right hn]
  · rw [List.length_take, List.length_drop]
    omega

section Full

variable {cfg : Config} {id : UInt32} {reply : ℕ → Reply} {n : ℕ}

/-- Where a burst is one chunk, a whole chunk is all that a visit sends. -/
theorem ServerStream.visit_full {ss : ServerStream} (hchunk : cfg.effectiveChunkSize = n)
    (hburst : cfg.perStreamBurstBytes = n) (hreply : reply 0 = .data n) (hrem : n ≤ ss.fileRemaining)
    (hcontent : ss.nextReadOffset + n ≤ (cfg.content ss.fileId).length) :
    ss.visit cfg id reply = (some (ss.advance n),
      [frame .fileChunk id (((cfg.content ss.fileId).drop ss.nextReadOffset).take n)]) := by
  obtain ⟨hpos, hword⟩ := effectiveChunkSize_bounds cfg
  rw [hchunk] at hpos hword
  obtain ⟨hread, hlen⟩ := read_full (Nat.le_refl n) hcontent
  unfold ServerStream.visit
  rw [ServerStream.burst, dif_pos (hburst ▸ hpos), if_neg (by omega)]
  dsimp only
  rw [hchunk, Nat.min_eq_right hrem, Nat.mod_eq_of_lt hword, hreply, hread]
  dsimp only
  rw [hlen, dif_neg (by simp; omega), ServerStream.burst, dif_neg (by omega)]
  rfl

theorem ServerStream.visit_done {ss : ServerStream} (hrem : ss.fileRemaining = 0) :
    ss.visit cfg id reply = (none, [frame .fileEnd id []]) := by
  unfold ServerStream.visit
  rw [ServerStream.burst, dif_pos (perStreamBurstBytes_pos cfg), if_pos hrem]

theorem ServerRangeStream.visit_full {family : Family} {rs : ServerRangeStream}
    (hchunk : cfg.effectiveChunkSize = n) (hburst : cfg.perStreamBurstBytes = n) (hsound : rs.errored = false)
    (hreply : reply 0 = .data n) (hrem : n < rs.remaining)
    (hcontent : rs.nextReadOffset + n ≤ (cfg.content rs.fileId).length) :
    rs.visit family cfg id reply = (some (rs.advance n),
      [frame family.chunk id (((cfg.content rs.fileId).drop rs.nextReadOffset).take n)]) := by
  obtain ⟨hpos, hword⟩ := effectiveChunkSize_bounds cfg
  rw [hchunk] at hpos hword
  obtain ⟨hread, hlen⟩ := read_full (Nat.le_refl n) hcontent
  have honce : rs.burst cfg reply 0 0 = (rs.advance n,
      [((cfg.content rs.fileId).drop rs.nextReadOffset).take n]) := by
    rw [ServerRangeStream.burst, dif_pos ⟨by omega, hburst ▸ hpos⟩]
    dsimp only
    rw [hchunk, Nat.min_eq_right (Nat.le_of_lt hrem), Nat.mod_eq_of_lt hword, hreply, hread]
    dsimp only
    rw [hlen, dif_neg (by simp; omega), ServerRangeStream.burst, dif_neg (by omega)]
    rfl
  have hopen : (rs.advance n).remaining ≠ 0 := by
    show rs.remaining - n ≠ 0
    omega
  unfold ServerRangeStream.visit
  rw [honce]
  dsimp only
  rw [if_neg (by show ¬ rs.errored = true; rw [hsound]; exact Bool.false_ne_true), if_neg hopen]
  rfl

theorem ServerRangeStream.visit_fails {family : Family} {rs : ServerRangeStream} (hrem : 0 < rs.remaining)
    (hreply : reply 0 = .error) :
    rs.visit family cfg id reply = (none, [family.errorFrame id rs.relativePath]) := by
  have hfirst : rs.burst cfg reply 0 0 = ({ rs with errored := true }, []) := by
    rw [ServerRangeStream.burst, dif_pos ⟨hrem, perStreamBurstBytes_pos cfg⟩]
    dsimp only
    rw [hreply]
    exact dif_pos (Or.inl rfl)
  unfold ServerRangeStream.visit
  rw [hfirst]
  rfl

/-- A round over a file and a range of a large file. -/
theorem State.round_pair (s : State) {id' : UInt32} {reply : UInt32 → ℕ → Reply} {ss : ServerStream}
    {rs : ServerRangeStream} {ss' : Option ServerStream} {rs' : Option ServerRangeStream} {f g : List Frame}
    (hfile : ss.visit cfg id (reply id) = (ss', f)) (hrange : rs.visit fileRangeFamily cfg id' (reply id') = (rs', g)) :
    s.round cfg [(id, ss)] [] [(id', rs)] reply = { s with
      streams := ⟨[], ss'.toList.map (Prod.mk id)⟩
      rangeStreams := {}
      fileRangeStreams := ⟨[], rs'.toList.map (Prod.mk id')⟩
      outboundHigh := s.outboundHigh.drop highBudget
      sent := s.sent ++ (s.outboundHigh.take highBudget ++ (f ++ g))
      opened := s.opened.map fun o => { o with replies := o.replies ++ [reply o.id] } } := by
  unfold State.round Table.round
  simp [Mux.visitAll, hfile, hrange]

/-- A round over a file. -/
theorem State.round_file (s : State) {reply : UInt32 → ℕ → Reply} {ss : ServerStream} {ss' : Option ServerStream}
    {f : List Frame} (hfile : ss.visit cfg id (reply id) = (ss', f)) :
    s.round cfg [(id, ss)] [] [] reply = { s with
      streams := ⟨[], ss'.toList.map (Prod.mk id)⟩
      rangeStreams := {}
      fileRangeStreams := {}
      outboundHigh := s.outboundHigh.drop highBudget
      sent := s.sent ++ (s.outboundHigh.take highBudget ++ f)
      opened := s.opened.map fun o => { o with replies := o.replies ++ [reply o.id] } } := by
  unfold State.round Table.round
  simp [Mux.visitAll, hfile]

end Full

def blob (n : ℕ) : Bytes := (List.range n).map Nat.toUInt8

theorem length_blob (n : ℕ) : (blob n).length = n := by
  rw [blob, List.length_map, List.length_range]

/-- A burst is a chunk of 64 KiB. The first file has two chunks, the second one more bytes. -/
def chunkConfig : Config :=
  ⟨⟨64, 65536, by decide, by decide, by decide, by decide⟩, fun fileId => blob (if fileId = 1 then 131072 else 200000)⟩

theorem effectiveChunkSize_chunkConfig : chunkConfig.effectiveChunkSize = 65536 := by
  simp [Config.effectiveChunkSize, effectiveChunkSizeForStreams, chunkConfig]

theorem perStreamBurstBytes_chunkConfig : chunkConfig.perStreamBurstBytes = 65536 := by
  rw [Config.perStreamBurstBytes, if_neg (by simp [chunkConfig]), effectiveChunkSize_chunkConfig]

/-- All of the first file. -/
def wholeFile : ServerStream := ⟨[97], 1, 131072, 0⟩

/-- Two chunks of the second file, from byte 10 on. -/
def partFile : ServerRangeStream := ⟨[98], 131072, false, 2, 10⟩

/-- Every read returns a chunk. -/
def chunks : UInt32 → ℕ → Reply := fun _ _ => .data 65536

/-- The reads of the second stream fail. -/
def oneFails : UInt32 → ℕ → Reply := fun id _ => if id = 9 then .error else .data 65536

def chunkAt (fileId offset : ℕ) : Bytes := ((chunkConfig.content fileId).drop offset).take 65536

/-- Both streams are open. -/
def bothOpen : State := (State.fileOpen {} 7 [97] (some 131072) 1).fileRangeOpen 9 ⟨[98], 10, 131072⟩ 2

/-- One chunk of each. -/
def afterOne : State := { bothOpen with
  streams := ⟨[], [(7, ⟨[97], 1, 65536, 65536⟩)]⟩
  fileRangeStreams := ⟨[], [(9, ⟨[98], 65536, false, 2, 65546⟩)]⟩
  sent := [frame .fileChunk 7 (chunkAt 1 0), frame .fileRangeData 9 (chunkAt 2 10)]
  opened := [⟨7, .file wholeFile, [chunks 7]⟩, ⟨9, .fileRange partFile, [chunks 9]⟩] }

/-- The other chunk of the file, and the error of the range. -/
def afterTwo : State := { bothOpen with
  streams := ⟨[], [(7, ⟨[97], 1, 0, 131072⟩)]⟩
  fileRangeStreams := {}
  sent := afterOne.sent ++ [frame .fileChunk 7 (chunkAt 1 65536), fileRangeFamily.errorFrame 9 [98]]
  opened := [⟨7, .file wholeFile, [chunks 7, oneFails 7]⟩, ⟨9, .fileRange partFile, [chunks 9, oneFails 9]⟩] }

/-- The end of the file. -/
def afterThree : State := { bothOpen with
  streams := {}
  fileRangeStreams := {}
  sent := afterTwo.sent ++ [frame .fileEnd 7 []]
  opened := [⟨7, .file wholeFile, [chunks 7, oneFails 7, chunks 7]⟩,
    ⟨9, .fileRange partFile, [chunks 9, oneFails 9, chunks 9]⟩] }

theorem round_one : bothOpen.round chunkConfig [(7, wholeFile)] [] [(9, partFile)] chunks = afterOne := by
  have hfile : wholeFile.visit chunkConfig 7 (chunks 7) =
      (some (wholeFile.advance 65536), [frame .fileChunk 7 (chunkAt 1 0)]) := by
    refine ServerStream.visit_full effectiveChunkSize_chunkConfig perStreamBurstBytes_chunkConfig rfl ?_ ?_
    · simp [wholeFile]
    · simp [wholeFile, chunkConfig, length_blob]
  have hrange : partFile.visit fileRangeFamily chunkConfig 9 (chunks 9) =
      (some (partFile.advance 65536), [frame .fileRangeData 9 (chunkAt 2 10)]) := by
    refine ServerRangeStream.visit_full effectiveChunkSize_chunkConfig perStreamBurstBytes_chunkConfig rfl rfl ?_ ?_
    · simp [partFile]
    · simp [partFile, chunkConfig, length_blob]
  rw [State.round_pair _ hfile hrange]
  rfl

theorem round_two : afterOne.round chunkConfig [(7, wholeFile.advance 65536)] [] [(9, partFile.advance 65536)] oneFails =
    afterTwo := by
  have hfile : (wholeFile.advance 65536).visit chunkConfig 7 (oneFails 7) =
      (some ((wholeFile.advance 65536).advance 65536), [frame .fileChunk 7 (chunkAt 1 65536)]) := by
    refine ServerStream.visit_full effectiveChunkSize_chunkConfig perStreamBurstBytes_chunkConfig rfl ?_ ?_
    · simp [ServerStream.advance, wholeFile]
    · simp [ServerStream.advance, wholeFile, chunkConfig, length_blob]
  have hrange : (partFile.advance 65536).visit fileRangeFamily chunkConfig 9 (oneFails 9) =
      (none, [fileRangeFamily.errorFrame 9 [98]]) := by
    refine ServerRangeStream.visit_fails ?_ rfl
    simp [ServerRangeStream.advance, partFile]
  rw [State.round_pair _ hfile hrange]
  rfl

theorem round_three : afterTwo.round chunkConfig [(7, wholeFile.advance 131072)] [] [] chunks = afterThree := by
  have hfile : (wholeFile.advance 131072).visit chunkConfig 7 (chunks 7) = (none, [frame .fileEnd 7 []]) :=
    ServerStream.visit_done (by simp [ServerStream.advance, wholeFile])
  rw [State.round_file _ hfile]
  rfl

theorem afterThree_reach : (machine chunkConfig).Reach (fun _ _ => True) afterThree := by
  have hseven : (7 : UInt32) ∉ State.ids {} := by decide
  have hnine : (9 : UInt32) ∉ (State.fileOpen {} 7 [97] (some 131072) 1).ids := by decide
  have hfile : (machine chunkConfig).Reach (fun _ _ => True) (State.fileOpen {} 7 [97] (some 131072) 1) :=
    .step (e := Event.fileOpen 7 [97] (some 131072) 1) .init hseven trivial
  have hboth : (machine chunkConfig).Reach (fun _ _ => True) bothOpen :=
    .step (e := Event.fileRangeOpen 9 ⟨[98], 10, 131072⟩ 2) hfile hnine trivial
  have hone : (machine chunkConfig).Reach (fun _ _ => True) afterOne :=
    round_one ▸ .step (e := Event.round [(7, wholeFile)] [] [(9, partFile)] chunks) hboth
      ⟨.refl _, .refl _, .refl _⟩ trivial
  have htwo : (machine chunkConfig).Reach (fun _ _ => True) afterTwo :=
    round_two ▸ .step (e := Event.round [(7, wholeFile.advance 65536)] [] [(9, partFile.advance 65536)] oneFails) hone
      ⟨.refl _, .refl _, .refl _⟩ trivial
  exact round_three ▸ .step (e := Event.round [(7, wholeFile.advance 131072)] [] [] chunks) htwo
    ⟨.refl _, .refl _, .refl _⟩ trivial

/-- Two chunks of a file and its end, and between them a chunk of a range and the error of its next read. -/
theorem streams_framed_shared :
    afterThree.sent = [frame .fileChunk 7 (chunkAt 1 0), frame .fileRangeData 9 (chunkAt 2 10),
        frame .fileChunk 7 (chunkAt 1 65536), fileRangeFamily.errorFrame 9 [98], frame .fileEnd 7 []] ∧
      Framed chunkConfig 7 [chunks 7, oneFails 7, chunks 7] (.file wholeFile)
        (none, [frame .fileChunk 7 (chunkAt 1 0), frame .fileChunk 7 (chunkAt 1 65536), frame .fileEnd 7 []]) ∧
        Framed chunkConfig 9 [chunks 9, oneFails 9, chunks 9] (.fileRange partFile)
          (none, [frame .fileRangeData 9 (chunkAt 2 10), fileRangeFamily.errorFrame 9 [98]]) := by
  obtain ⟨hstreams, hrefused⟩ := streams_framed chunkConfig afterThree afterThree_reach
  obtain ⟨_, hseven, hopenSeven, _⟩ := hstreams ⟨7, .file wholeFile, [chunks 7, oneFails 7, chunks 7]⟩
    (List.mem_cons_self ..)
  obtain ⟨_, hnine, hopenNine, _⟩ := hstreams ⟨9, .fileRange partFile, [chunks 9, oneFails 9, chunks 9]⟩
    (List.mem_cons_of_mem _ (List.mem_cons_self ..))
  refine ⟨rfl, ?_, ?_⟩
  · rw [Option.eq_none_iff_forall_ne_some.2 fun st hst => nomatch (hopenSeven st).2 hst] at hseven
    exact hseven
  · rw [Option.eq_none_iff_forall_ne_some.2 fun st hst => nomatch (hopenNine st).2 hst] at hnine
    exact hnine

end FastClone.SendLoop
