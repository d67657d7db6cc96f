import FastClone.Spec.Ingest

/-!
# No removal on a partial manifest

`removal_sees_whole_manifest`: whenever the client removes local files or creates empty
directories, every entry of the manifest the server sent is among its remote paths.

Frames of one connection change their order on the way to the main thread, because file frames
overtake the manifest. Those of the manifest keep theirs among themselves: `Conveyed` says that
on every connection the frames processed, those about to be, those in the shared queue, those
in the batch and those on the wire are, in this order, the manifest frames sent. So the end of
the manifest is processed after everything sent before it.
-/

namespace FastClone.Ingest

open FastClone.Delta FastClone.Wire FastClone.Frames Runs

variable {cfg : Config} {s s' : State} {done : List IncomingFrame} {l m : ℕ}

/-! ### Where the frames of the manifest are -/

/-- A manifest frame that came on connection `l`. -/
def IncomingFrame.isOf (l : ℕ) (rf : IncomingFrame) : Bool := rf.connId = l && isManifestFrame rf.frame

/-- The manifest frames of connection `l` in a list, in its order. -/
def manifestOf (l : ℕ) (rfs : List IncomingFrame) : List Frame :=
  (rfs.filter (IncomingFrame.isOf l)).map IncomingFrame.frame

@[simp]
theorem manifestOf_nil : manifestOf l [] = [] := rfl

@[simp]
theorem manifestOf_append (xs ys : List IncomingFrame) :
    manifestOf l (xs ++ ys) = manifestOf l xs ++ manifestOf l ys := by
  simp [manifestOf]

theorem manifestOf_eq_nil {rfs : List IncomingFrame} (h : ∀ rf ∈ rfs, rf.isOf l = false) :
    manifestOf l rfs = [] := by
  have hf : rfs.filter (IncomingFrame.isOf l) = [] := by
    rw [List.filter_eq_nil_iff]
    intro rf hrf
    simp [h rf hrf]
  rw [manifestOf, hf, List.map_nil]

/-- A frame that is found among those of connection `l`. -/
theorem mem_manifestOf {rfs : List IncomingFrame} {f : Frame} :
    f ∈ manifestOf l rfs ↔ ⟨l, f⟩ ∈ rfs ∧ isManifestFrame f = true := by
  simp only [manifestOf, List.mem_map, List.mem_filter, IncomingFrame.isOf, Bool.and_eq_true,
    decide_eq_true_eq]
  constructor
  · rintro ⟨⟨l', f'⟩, ⟨hmem, rfl, hman⟩, rfl⟩
    exact ⟨hmem, hman⟩
  · rintro ⟨hmem, hman⟩
    exact ⟨⟨l, f⟩, ⟨hmem, rfl, hman⟩, rfl⟩

/-- `readyFrames`, as far as they are still to be processed. -/
def Main.ready : Main → List IncomingFrame
  | .processing ready => ready
  | _ => []

/-- The manifest frames of connection `l` that have left its thread. -/
def State.handedOver (s : State) (done : List IncomingFrame) (l : ℕ) : List Frame :=
  manifestOf l (done ++ s.main.ready ++ s.incomingManifestFrames)

/-- Those that its thread holds or has still to read. -/
def Lane.pending (x : Lane) (l : ℕ) : List Frame :=
  manifestOf l x.manifestBatch ++ x.wire.filter isManifestFrame

/-- Past the gate. -/
def Main.gated : Main → Bool
  | .removing | .creating | .finished => true
  | _ => false

/-- The invariant, with the frames processed so far. -/
structure Conveyed (s : State) (done : List IncomingFrame) : Prop where
  inOrder : ∀ l, s.handedOver done l ++ (s.lanes l).pending l = (s.lanes l).sent.filter isManifestFrame
  own : ∀ l, ∀ rf ∈ (s.lanes l).manifestBatch, rf.connId = l
  held : ∀ l f, (s.lanes l).pc = .flushing (some f) ∨ (s.lanes l).pc = .pushing f →
    isManifestFrame f = false
  priority : ∀ rf ∈ s.incomingPriorityFrames, isManifestFrame rf.frame = false
  processed : ∀ rf ∈ done, rf.frame.type = MsgType.manifestEntry.toByte → s.Processed rf.frame
  ended : s.manifestDone = true → ∃ rf ∈ done, rf.frame.type = MsgType.manifestEnd.toByte
  gated : s.main.gated = true → s.manifestDone = true

theorem Conveyed.start : Conveyed State.start [] where
  inOrder _ := rfl
  own _ _ h := nomatch h
  held _ _ h := by rcases h with h | h <;> cases h
  priority _ h := nomatch h
  processed _ h := nomatch h
  ended h := nomatch h
  gated h := nomatch h

/-! ### The receiving threads -/

@[simp]
theorem setLane_lanes_self (x : Lane) : (s.setLane l x).lanes l = x := by simp [State.setLane]

theorem setLane_lanes_of_ne (x : Lane) {l' : ℕ} (h : l' ≠ l) : (s.setLane l x).lanes l' = s.lanes l' := by
  simp [State.setLane, h]

@[simp]
theorem handedOver_setLane (x : Lane) (l' : ℕ) :
    (s.setLane l x).handedOver done l' = s.handedOver done l' := rfl

/-- What happens to one lane alone: it must keep its own frames in order. -/
theorem Conveyed.setLane (h : Conveyed s done) {x : Lane}
    (hx : ∀ t, t ++ (s.lanes l).pending l = (s.lanes l).sent.filter isManifestFrame →
      t ++ x.pending l = x.sent.filter isManifestFrame)
    (hown : ∀ rf ∈ x.manifestBatch, rf.connId = l)
    (hheld : ∀ f, x.pc = .flushing (some f) ∨ x.pc = .pushing f → isManifestFrame f = false) :
    Conveyed (s.setLane l x) done where
  inOrder l' := by
    by_cases hl : l' = l
    · subst hl
      simpa using hx _ (h.inOrder l')
    · simpa [setLane_lanes_of_ne x hl] using h.inOrder l'
  own l' := by
    by_cases hl : l' = l
    · subst hl
      simpa using hown
    · simpa [setLane_lanes_of_ne x hl] using h.own l'
  held l' := by
    by_cases hl : l' = l
    · subst hl
      simpa using hheld
    · simpa [setLane_lanes_of_ne x hl] using h.held l'
  priority := h.priority
  processed := h.processed
  ended := h.ended
  gated := h.gated

theorem Conveyed.serverSends (h : Conveyed s done) (f : Frame) :
    Conveyed (s.setLane l
      { s.lanes l with
        sent := (s.lanes l).sent ++ [f]
        wire := (s.lanes l).wire ++ [f] }) done := by
  refine h.setLane (fun t ht => ?_) (h.own l) (h.held l)
  simp only [Lane.pending, List.filter_append] at ht ⊢
  rw [← ht]
  simp only [List.append_assoc]

/-- A lane that goes down keeps what it holds; nothing will move it. -/
theorem Conveyed.fail (h : Conveyed s done) (reason : String) :
    Conveyed (s.setLane l ((s.lanes l).fail reason)) done := by
  refine h.setLane (fun t ht => ht) (h.own l) (fun f hf => ?_)
  rcases hf with hf | hf <;> cases hf

theorem Conveyed.markConnDown (h : Conveyed s done) (reason : String) :
    Conveyed (s.setLane l ((s.lanes l).markConnDown reason)) done := by
  unfold Lane.markConnDown
  split
  · exact h.setLane (fun t ht => ht) (h.own l) (h.held l)
  · exact h.setLane (fun t ht => ht) (h.own l) (h.held l)

/-- Collecting moves a frame from the wire to the end of the batch. -/
theorem pending_collect {x : Lane} {f : Frame} {rest : List Frame} (hw : x.wire = f :: rest)
    (hf : isManifestFrame f = true) : ({ x with wire := rest }.collect l f).pending l = x.pending l := by
  have hmine : manifestOf l [⟨l, f⟩] = [f] := by simp [manifestOf, IncomingFrame.isOf, hf]
  simp only [Lane.pending, Lane.collect, manifestOf_append, hmine, hw, List.filter_cons, hf,
    if_true, List.append_assoc, List.singleton_append]

/-- A frame that is not of the manifest leaves the wire unseen. -/
theorem pending_skip {x : Lane} {f : Frame} {rest : List Frame} (hw : x.wire = f :: rest)
    (hf : isManifestFrame f = false) : { x with wire := rest }.pending l = x.pending l := by
  simp [Lane.pending, hw, hf]

theorem Conveyed.receive (h : Conveyed s done) {f : Frame} {rest : List Frame}
    (hw : (s.lanes l).wire = f :: rest) :
    Conveyed (s.setLane l ({ s.lanes l with wire := rest }.receive l f)) done := by
  unfold Lane.receive
  split
  · split
    · rename_i hman
      refine h.setLane (fun t ht => ?_) (fun rf hrf => ?_) (fun g hg => ?_)
      · rw [pending_collect hw hman]
        exact ht
      · rcases List.mem_append.1 hrf with hrf | hrf
        · exact h.own l rf hrf
        · rw [List.mem_singleton.1 hrf]
      · simp only [Lane.collect] at hg
        split at hg <;> rcases hg with hg | hg <;> cases hg
    · rename_i hman
      have hman : isManifestFrame f = false := by simpa using hman
      refine h.setLane (fun t ht => ?_) (h.own l) (fun g hg => ?_)
      · exact (congrArg (t ++ ·) (pending_skip hw hman)).trans ht
      · rcases hg with hg | hg
        · cases hg
          exact hman
        · cases hg
  · -- a wrong frame is not of the manifest either
    rename_i hserver
    have hman : isManifestFrame f = false := by
      cases hm : isManifestFrame f with
      | false => rfl
      | true => exact absurd (isServerFrame_of_manifest hm) hserver
    refine h.setLane (fun t ht => ?_) (h.own l) (fun g hg => ?_)
    · exact (congrArg (t ++ ·) (pending_skip hw hman)).trans ht
    · rcases hg with hg | hg <;> cases hg

/-- A batch holds no frame of another connection. -/
theorem Conveyed.batch_other (h : Conveyed s done) {l' : ℕ} (hl : l' ≠ l) :
    manifestOf l' (s.lanes l).manifestBatch = [] := by
  refine manifestOf_eq_nil fun rf hrf => ?_
  have hown : rf.connId ≠ l' := by
    rw [h.own l rf hrf]
    exact Ne.symm hl
  simp [IncomingFrame.isOf, hown]

theorem held_flushed {next : Option Frame} {f : Frame}
    (h : Pc.flushed next = .flushing (some f) ∨ Pc.flushed next = .pushing f) : next = some f := by
  cases next with
  | none => rcases h with h | h <;> cases h
  | some g =>
    rcases h with h | h <;> cases h
    rfl

theorem Conveyed.flush (h : Conveyed s done) {next : Option Frame}
    (hpc : (s.lanes l).pc = .flushing next) : Conveyed (s.flush l next) done := by
  have hheld : ∀ f, Pc.flushed next = .flushing (some f) ∨ Pc.flushed next = .pushing f →
      isManifestFrame f = false := by
    intro f hf
    rw [held_flushed hf] at hpc
    exact h.held l f (.inl hpc)
  unfold State.flush
  simp only
  split
  · exact h.setLane (fun t ht => ht) (h.own l) hheld
  · constructor
    case inOrder =>
      intro l'
      have horder := h.inOrder l'
      by_cases hl : l' = l
      · subst hl
        simpa [State.handedOver, State.setLane, Lane.pending] using horder
      · have hother := h.batch_other hl
        simpa [State.handedOver, State.setLane, Lane.pending, hl, hother] using horder
    case own =>
      intro l'
      by_cases hl : l' = l
      · subst hl
        simp [State.setLane]
      · simpa [State.setLane, hl] using h.own l'
    case held =>
      intro l'
      by_cases hl : l' = l
      · subst hl
        simpa [State.setLane] using hheld
      · simpa [State.setLane, hl] using h.held l'
    case priority => exact h.priority
    case processed => exact h.processed
    case ended => exact h.ended
    case gated => exact h.gated

theorem Conveyed.push (h : Conveyed s done) {f : Frame} (hpc : (s.lanes l).pc = .pushing f) :
    Conveyed (s.push l f) done := by
  have hlane : Conveyed (s.setLane l { s.lanes l with pc := .reading }) done := by
    refine h.setLane (fun t ht => ht) (h.own l) (fun g hg => ?_)
    rcases hg with hg | hg <;> cases hg
  obtain ⟨h1, h2, h3, h4, h5, h6, h7⟩ := hlane
  refine ⟨h1, h2, h3, fun rf hrf => ?_, h5, h6, h7⟩
  rcases List.mem_append.1 hrf with hrf | hrf
  · exact h.priority rf hrf
  · rw [List.mem_singleton.1 hrf]
    exact h.held l f (.inr hpc)

/-! ### The main thread -/

/-- The main thread goes elsewhere with no frames in its hands. -/
theorem Conveyed.goto (h : Conveyed s done) {main : Main} (hs : s.main.ready = []) (hm : main.ready = [])
    (hg : main.gated = true → s.manifestDone = true) : Conveyed { s with main } done := by
  obtain ⟨h1, h2, h3, h4, h5, h6, -⟩ := h
  refine ⟨fun l => ?_, h2, h3, h4, h5, h6, hg⟩
  have := h1 l
  simp only [State.handedOver, hs, hm] at this ⊢
  exact this

theorem Conveyed.failoverScan (h : Conveyed s done) : Conveyed (s.failoverScan cfg) done := by
  unfold State.failoverScan
  split
  · obtain ⟨h1, h2, h3, h4, h5, h6, h7⟩ := h
    exact ⟨h1, h2, h3, h4, h5, h6, h7⟩
  · exact h

theorem failoverScan_main : (s.failoverScan cfg).main = s.main := by
  unfold State.failoverScan
  split <;> rfl

/-- The drain takes some frames off the front of each queue, those of the manifest last. -/
theorem drain_eq (cfg : Config) (s : State) : ∃ p n,
    s.drain cfg =
      { s with
        incomingPriorityFrames := s.incomingPriorityFrames.drop p
        incomingManifestFrames := s.incomingManifestFrames.drop n
        incomingQueuedBytes := releaseBytes s.incomingQueuedBytes
          (s.incomingPriorityFrames.take p ++ s.incomingManifestFrames.take n)
        main := if s.incomingPriorityFrames.take p ++ s.incomingManifestFrames.take n = [] then .starved
          else .processing (s.incomingPriorityFrames.take p ++ s.incomingManifestFrames.take n) } :=
  ⟨_, _, rfl⟩

/-- Taken or not, the frames are in the main thread's hands in their order. -/
theorem ready_taken (rfs : List IncomingFrame) :
    (if rfs = [] then Main.starved else Main.processing rfs).ready = rfs := by
  split
  · rename_i h
    rw [h]
    rfl
  · rfl

theorem Conveyed.drain (h : Conveyed s done) (hs : s.main = .working) : Conveyed (s.drain cfg) done := by
  obtain ⟨h1, h2, h3, h4, h5, h6, -⟩ := h
  obtain ⟨p, n, heq⟩ := drain_eq cfg s
  rw [heq]
  refine ⟨fun l => ?_, h2, h3, fun rf hrf => h4 rf (List.mem_of_mem_drop hrf), h5, h6, fun hg => ?_⟩
  · have horder := h1 l
    have hprio : manifestOf l (s.incomingPriorityFrames.take p) = [] :=
      manifestOf_eq_nil fun rf hrf => by
        simp [IncomingFrame.isOf, h4 rf (List.mem_of_mem_take hrf)]
    have htaken : manifestOf l (s.incomingManifestFrames.take n) ++ manifestOf l (s.incomingManifestFrames.drop n) =
        manifestOf l s.incomingManifestFrames := by
      rw [← manifestOf_append, List.take_append_drop]
    simp only [State.handedOver, hs, Main.ready, manifestOf_append, List.append_nil] at horder
    simp only [State.handedOver, ready_taken, manifestOf_append, hprio, List.nil_append]
    rw [List.append_assoc (manifestOf l done), htaken]
    exact horder
  · split at hg <;> cases hg

/-! ### Processing -/

theorem mem_record_files {e : FileEntry} {p : Bytes} (h : p ∈ s.remoteFiles) :
    p ∈ (s.record e).remoteFiles := by
  unfold State.record
  split
  · exact h
  · exact AList.mem_insert _ |>.2 (.inr h)

theorem mem_record_dirs {e : FileEntry} {p : Bytes} (h : p ∈ s.remoteDirs) :
    p ∈ (s.record e).remoteDirs := by
  unfold State.record
  split
  · exact Finset.mem_insert_of_mem h
  · exact h

/-- An entry recorded once stays. -/
theorem State.Recorded.record {e e' : FileEntry} (h : s.Recorded e) : (s.record e').Recorded e := by
  unfold State.Recorded at h ⊢
  split at h
  · rename_i hdir
    rw [if_pos hdir]
    exact mem_record_dirs h
  · rename_i hdir
    rw [if_neg hdir]
    exact mem_record_files h

theorem recorded_record (e : FileEntry) : (s.record e).Recorded e := by
  unfold State.Recorded State.record
  split
  · exact Finset.mem_insert_self _ _
  · exact AList.mem_insert _ |>.2 (.inl rfl)

theorem State.Processed.record {e : FileEntry} {f : Frame} (h : s.Processed f) :
    (s.record e).Processed f := by
  obtain ⟨e', rest, hd, hr⟩ := h
  exact ⟨e', rest, hd, hr.record⟩

/-- What one frame does to the client, as far as the manifest goes. -/
inductive Handled (s : State) (f : Frame) : State → Prop where
  | entry {e : FileEntry} {rest : Bytes} (hf : f.type = MsgType.manifestEntry.toByte)
      (hd : decodeManifestEntry f.payload = .ok (e, rest)) : Handled s f (s.record e)
  | ends (hf : f.type = MsgType.manifestEnd.toByte) : Handled s f { s with manifestDone := true }
  | other (hf : f.type ≠ MsgType.manifestEntry.toByte) : Handled s f s

theorem handled_of_process {rf : IncomingFrame} {throws : Bool}
    (h : s.processIncomingFrame rf throws = some s') : Handled s rf.frame s' := by
  unfold State.processIncomingFrame at h
  split at h
  · rename_i hf
    split at h
    · rename_i e rest hd
      cases h
      exact .entry hf hd
    · cases h
  · rename_i hf
    split at h
    · split at h
      · cases h
        exact .other hf
      · cases h
    · split at h
      · rename_i hend
        cases h
        exact .ends hend
      · split at h
        · cases h
        · cases h
          exact .other hf

/-- The frame goes from those to be processed to those that are. -/
theorem Conveyed.handled (h : Conveyed s done) {rf : IncomingFrame} {rest : List IncomingFrame} {main : Main}
    (hs : s.main = .processing (rf :: rest)) (hm : main.ready = rest) (hg : main.gated = false)
    (hh : Handled s rf.frame s') : Conveyed { s' with main } (done ++ [rf]) := by
  obtain ⟨h1, h2, h3, h4, h5, h6, -⟩ := h
  have horder : ∀ l, manifestOf l (done ++ [rf] ++ rest ++ s.incomingManifestFrames) ++ (s.lanes l).pending l =
      (s.lanes l).sent.filter isManifestFrame := by
    intro l
    have := h1 l
    rw [State.handedOver, hs] at this
    simpa [Main.ready] using this
  cases hh with
  | @entry e left hf hd =>
    have hsame : (s.record e).lanes = s.lanes ∧ (s.record e).incomingManifestFrames = s.incomingManifestFrames ∧
        (s.record e).incomingPriorityFrames = s.incomingPriorityFrames ∧
        (s.record e).manifestDone = s.manifestDone := by
      unfold State.record
      split <;> exact ⟨rfl, rfl, rfl, rfl⟩
    obtain ⟨hlanes, hman, hprio, hdone⟩ := hsame
    constructor
    case inOrder =>
      intro l
      simpa only [State.handedOver, hlanes, hman, hm] using horder l
    case own => simpa only [hlanes] using h2
    case held => simpa only [hlanes] using h3
    case priority => simpa only [hprio] using h4
    case processed =>
      intro rf' hrf' hf'
      rcases List.mem_append.1 hrf' with hrf' | hrf'
      · exact (h5 rf' hrf' hf').record
      · rw [List.mem_singleton.1 hrf']
        exact ⟨e, left, hd, recorded_record e⟩
    case ended =>
      intro hd'
      obtain ⟨rf', hrf', hend⟩ := h6 (hdone ▸ hd')
      exact ⟨rf', List.mem_append_left _ hrf', hend⟩
    case gated =>
      intro hg'
      exact absurd (hg.symm.trans hg') nofun
  | ends hf =>
    refine ⟨fun l => ?_, h2, h3, h4, fun rf' hrf' hf' => ?_, fun _ => ?_, fun hg' => ?_⟩
    · simpa only [State.handedOver, hm] using horder l
    · rcases List.mem_append.1 hrf' with hrf' | hrf'
      · exact h5 rf' hrf' hf'
      · rw [List.mem_singleton.1 hrf'] at hf'
        exact absurd (hf.symm.trans hf') (by decide)
    · exact ⟨rf, List.mem_append_right _ (List.mem_singleton.2 rfl), hf⟩
    · exact absurd (hg.symm.trans hg') nofun
  | other hf =>
    refine ⟨fun l => ?_, h2, h3, h4, fun rf' hrf' hf' => ?_, fun hd' => ?_, fun hg' => ?_⟩
    · simpa only [State.handedOver, hm] using horder l
    · rcases List.mem_append.1 hrf' with hrf' | hrf'
      · exact h5 rf' hrf' hf'
      · rw [List.mem_singleton.1 hrf'] at hf'
        exact absurd hf' hf
    · obtain ⟨rf', hrf', hend⟩ := h6 hd'
      exact ⟨rf', List.mem_append_left _ hrf', hend⟩
    · exact absurd (hg.symm.trans hg') nofun

theorem Conveyed.process (h : Conveyed s done) {rf : IncomingFrame} {rest : List IncomingFrame} {throws : Bool}
    (hs : s.main = .processing (rf :: rest)) :
    (s.process rf rest throws).main = .thrown ∨ Conveyed (s.process rf rest throws) (done ++ [rf]) := by
  unfold State.process
  cases hp : s.processIncomingFrame rf throws with
  | none => exact .inl rfl
  | some s' =>
    refine .inr (h.handled hs ?_ ?_ (handled_of_process hp))
    · split
      · rename_i hnil
        rw [hnil]
        rfl
      · rfl
    · split <;> rfl

/-! ### Runs -/

/-- As long as no exception has ended the session, the frames are in order. -/
def Kept (s : State) : Prop := s.main = .thrown ∨ ∃ done, Conveyed s done

/-- A step of a receiving thread or of the server leaves the main thread where it is. -/
theorem Kept.other (hs : Kept s) (hmain : s'.main = s.main) (h : ∀ done, Conveyed s done → Conveyed s' done) :
    Kept s' := by
  rcases hs with hthrown | ⟨done, hc⟩
  · exact .inl (hmain.trans hthrown)
  · exact .inr ⟨done, h done hc⟩

/-- A step of the main thread is not taken after an exception. -/
theorem Kept.main (hs : Kept s) (hmain : s.main ≠ .thrown) (h : ∀ done, Conveyed s done → Kept s') : Kept s' := by
  rcases hs with hthrown | ⟨done, hc⟩
  · exact absurd hthrown hmain
  · exact h done hc

theorem flush_main (next : Option Frame) : (s.flush l next).main = s.main := by
  unfold State.flush
  simp only
  split <;> rfl

/-! ### What a step can do -/

/-- What an event adds to the frames sent on a connection. -/
def Event.sends (l : ℕ) : Event → List Frame
  | .serverSends l' f => if l' = l then [f] else []
  | _ => []

inductive Effect (cfg : Config) (s : State) : Event → State → Prop where
  | serverSends {l : ℕ} {f : Frame} : Effect cfg s (.serverSends l f)
      (s.setLane l
        { s.lanes l with
          sent := (s.lanes l).sent ++ [f]
          wire := (s.lanes l).wire ++ [f] })
  | receive {l : ℕ} {f : Frame} {rest : List Frame} (hw : (s.lanes l).wire = f :: rest) :
      Effect cfg s (.receive l) (s.setLane l ({ s.lanes l with wire := rest }.receive l f))
  | recvFails {l : ℕ} {reason : String} :
      Effect cfg s (.recvFails l reason) (s.setLane l ((s.lanes l).fail reason))
  | flush {l : ℕ} {next : Option Frame} (hpc : (s.lanes l).pc = .flushing next) :
      Effect cfg s (.flush l) (s.flush l next)
  | push {l : ℕ} {f : Frame} (hpc : (s.lanes l).pc = .pushing f) : Effect cfg s (.push l) (s.push l f)
  | failoverScan (hmain : s.main = .scanning) :
      Effect cfg s .failoverScan { s.failoverScan cfg with main := .working }
  | sendFails {l : ℕ} {reason : String} :
      Effect cfg s (.sendFails l reason) (s.setLane l ((s.lanes l).markConnDown reason))
  | drain {n : ℕ} (hmain : s.main = .working) :
      Effect cfg s (.drain n) ({ s with ingestPaused := s.updatePause n }.drain cfg)
  | process {rf : IncomingFrame} {rest : List IncomingFrame} {throws : Bool}
      (hmain : s.main = .processing (rf :: rest)) : Effect cfg s (.process throws) (s.process rf rest throws)
  /-- The main thread goes elsewhere with no frames in its hands; the gate needs the whole manifest. -/
  | goto {e : Event} {main : Main} (hsends : ∀ l, e.sends l = []) (hfrom : s.main ≠ .thrown)
      (hready : s.main.ready = []) (hmain : main.ready = [])
      (hgated : main.gated = true → s.main.gated = true ∨ s.manifestDone = true) :
      Effect cfg s e { s with main }

theorem effect_of_step {e : Event} (h : s.step cfg e = some s') : Effect cfg s e s' := by
  cases e with
  | serverSends l f =>
    simp only [State.step] at h
    split at h <;> cases h
    exact .serverSends
  | receive l =>
    simp only [State.step] at h
    split at h
    · rename_i hw
      cases h
      exact .receive hw
    · cases h
  | recvFails l reason =>
    simp only [State.step] at h
    split at h <;> cases h
    exact .recvFails
  | flush l =>
    simp only [State.step] at h
    split at h
    · rename_i hpc
      cases h
      exact .flush hpc
    · cases h
  | push l =>
    simp only [State.step] at h
    split at h
    · rename_i hpc
      cases h
      exact .push hpc
    · cases h
  | failoverScan =>
    simp only [State.step] at h
    split at h
    · rename_i hmain
      cases h
      exact .failoverScan hmain
    · cases h
  | sendFails l reason =>
    simp only [State.step] at h
    split at h <;> cases h
    exact .sendFails
  | leave =>
    simp only [State.step] at h
    split at h
    · rename_i hmain _
      cases h
      exact .goto (fun _ => rfl) (by rw [hmain]; nofun) (by rw [hmain]; rfl) rfl nofun
    · cases h
  | wait =>
    simp only [State.step] at h
    split at h
    · rename_i hmain _ _
      cases h
      exact .goto (fun _ => rfl) (by rw [hmain]; nofun) (by rw [hmain]; rfl) rfl nofun
    · cases h
  | drain delayedBacklog =>
    simp only [State.step] at h
    split at h
    · rename_i hmain
      cases h
      exact .drain hmain
    · cases h
  | starve compareWorkPending =>
    simp only [State.step] at h
    split at h
    · rename_i hmain
      have hgo : ∀ main : Main, main.ready = [] → main.gated = false →
          Effect cfg s (.starve compareWorkPending) { s with main } :=
        fun main hr hg => .goto (fun _ => rfl) (by rw [hmain]; nofun) (by rw [hmain]; rfl) hr
          (fun hg' => absurd (hg.symm.trans hg') nofun)
      split at h
      · cases h
        exact hgo .scanning rfl rfl
      · split at h
        · cases h
          exact hgo .left rfl rfl
        · cases h
          exact hgo .scanning rfl rfl
    · cases h
  | process throws =>
    simp only [State.step] at h
    split at h
    · rename_i hmain
      cases h
      exact .process hmain
    · cases h
  | throwOut =>
    simp only [State.step] at h
    split at h
    case h_4 => cases h
    all_goals
      rename_i hmain
      cases h
      exact .goto (fun _ => rfl) (by rw [hmain]; nofun) (by rw [hmain]; rfl) rfl nofun
  | gate =>
    simp only [State.step] at h
    split at h
    · rename_i hmain
      cases h
      refine .goto (fun _ => rfl) (by rw [hmain]; nofun) (by rw [hmain]; rfl) ?_ fun hg => ?_
      · split <;> rfl
      · split at hg
        · -- only a complete manifest opens the gate
          rename_i hcomplete
          simp only [State.manifestComplete, Bool.and_eq_true] at hcomplete
          exact .inr hcomplete.1.1
        · cases hg
    · cases h
  | removeLocalExtras =>
    simp only [State.step] at h
    split at h
    · rename_i hmain
      cases h
      exact .goto (fun _ => rfl) (by rw [hmain]; nofun) (by rw [hmain]; rfl) rfl
        fun _ => .inl (by rw [hmain]; rfl)
    · cases h
  | createDirs =>
    simp only [State.step] at h
    split at h
    · rename_i hmain
      cases h
      exact .goto (fun _ => rfl) (by rw [hmain]; nofun) (by rw [hmain]; rfl) rfl
        fun _ => .inl (by rw [hmain]; rfl)
    · cases h

theorem step_keeps {e : Event} (h : s.step cfg e = some s') (hs : Kept s) : Kept s' := by
  cases effect_of_step h with
  | serverSends => exact hs.other rfl fun done hc => hc.serverSends _
  | receive hw => exact hs.other rfl fun done hc => hc.receive hw
  | recvFails => exact hs.other rfl fun done hc => hc.fail _
  | flush hpc => exact hs.other (flush_main _) fun done hc => hc.flush hpc
  | push hpc => exact hs.other rfl fun done hc => hc.push hpc
  | failoverScan hmain =>
    refine hs.main (by rw [hmain]; nofun) fun done hc => .inr ⟨done, hc.failoverScan.goto ?_ rfl nofun⟩
    rw [failoverScan_main, hmain]
    rfl
  | sendFails => exact hs.other rfl fun done hc => hc.markConnDown _
  | @drain n hmain =>
    refine hs.main (by rw [hmain]; nofun) fun done hc => .inr ⟨done, ?_⟩
    obtain ⟨h1, h2, h3, h4, h5, h6, h7⟩ := hc
    have hpause : Conveyed { s with ingestPaused := s.updatePause n } done := ⟨h1, h2, h3, h4, h5, h6, h7⟩
    exact hpause.drain hmain
  | @process rf _ _ hmain =>
    refine hs.main (by rw [hmain]; nofun) fun done hc => ?_
    rcases hc.process hmain with hthrown | hc'
    · exact .inl hthrown
    · exact .inr ⟨done ++ [rf], hc'⟩
  | goto _ hfrom hready hmain hgated =>
    exact hs.main hfrom fun done hc =>
      .inr ⟨done, hc.goto hready hmain fun hg => (hgated hg).elim hc.gated id⟩

theorem kept_of_reach {ok : State → Event → Prop} (h : (machine cfg).Reach ok s) : Kept s := by
  refine h.invariant (.inr ⟨[], Conveyed.start⟩) fun s e hs hc _ => ?_
  obtain ⟨s', heq⟩ := Option.isSome_iff_exists.1 hc
  have hnext : (machine cfg).next s e = s' := by simp [machine, heq]
  rw [hnext]
  exact step_keeps heq hs

/-! ### The server -/

theorem sent_setLane {x : Lane} (hx : x.sent = (s.lanes l).sent) (l' : ℕ) :
    ((s.setLane l x).lanes l').sent = (s.lanes l').sent := by
  by_cases hl : l' = l
  · subst hl
    rw [setLane_lanes_self, hx]
  · rw [setLane_lanes_of_ne x hl]

theorem sent_receive {x : Lane} {f : Frame} : (x.receive l f).sent = x.sent := by
  unfold Lane.receive
  split
  · split <;> rfl
  · rfl

theorem sent_markConnDown {x : Lane} {reason : String} : (x.markConnDown reason).sent = x.sent := by
  unfold Lane.markConnDown
  split <;> rfl

theorem sent_flush (next : Option Frame) (l' : ℕ) : ((s.flush l next).lanes l').sent = (s.lanes l').sent := by
  unfold State.flush
  simp only
  split
  · exact sent_setLane (by rfl) l'
  · exact sent_setLane (by rfl) l'

theorem lanes_failoverScan : (s.failoverScan cfg).lanes = s.lanes := by
  unfold State.failoverScan
  split <;> rfl

theorem lanes_process {rf : IncomingFrame} {rest : List IncomingFrame} {throws : Bool} :
    (s.process rf rest throws).lanes = s.lanes := by
  unfold State.process
  cases hp : s.processIncomingFrame rf throws with
  | none => rfl
  | some s' =>
    cases handled_of_process hp with
    | @entry e _ _ _ =>
      show (s.record e).lanes = s.lanes
      unfold State.record
      split <;> rfl
    | ends => rfl
    | other => rfl

/-- Only the server sends. -/
theorem step_sent {e : Event} (h : s.step cfg e = some s') (l' : ℕ) :
    (s'.lanes l').sent = (s.lanes l').sent ++ e.sends l' := by
  cases effect_of_step h with
  | @serverSends l f =>
    by_cases hl : l' = l
    · subst hl
      simp [Event.sends]
    · simp [Event.sends, setLane_lanes_of_ne _ hl, Ne.symm hl]
  | goto hsends =>
    rw [hsends]
    exact (List.append_nil _).symm
  | receive hw =>
    refine (sent_setLane ?_ l').trans (List.append_nil _).symm
    rw [sent_receive]
  | recvFails => exact (sent_setLane (by rfl) l').trans (List.append_nil _).symm
  | flush hpc => exact (sent_flush _ l').trans (List.append_nil _).symm
  | push hpc => exact (sent_setLane (by rfl) l').trans (List.append_nil _).symm
  | failoverScan hmain => simp [Event.sends, lanes_failoverScan]
  | sendFails => exact (sent_setLane sent_markConnDown l').trans (List.append_nil _).symm
  | @drain n hmain =>
    obtain ⟨p, k, heq⟩ := drain_eq cfg { s with ingestPaused := s.updatePause n }
    simp [Event.sends, heq]
  | process hmain => simp [Event.sends, lanes_process]

/-- What an orderly server has sent: entries and the end on connection `m` alone, and no entry
after the end. -/
structure Announced (m : ℕ) (s : State) : Prop where
  alone : ∀ l, ∀ f ∈ (s.lanes l).sent,
    f.type = MsgType.manifestEntry.toByte ∨ f.type = MsgType.manifestEnd.toByte → l = m
  before : (s.lanes m).sent.Pairwise fun f g =>
    f.type = MsgType.manifestEnd.toByte → g.type ≠ MsgType.manifestEntry.toByte

theorem Announced.start : Announced m State.start where
  alone _ _ hf := nomatch hf
  before := List.Pairwise.nil

theorem step_announced {e : Event} (h : s.step cfg e = some s') (hok : Orderly m s e) (hs : Announced m s) :
    Announced m s' := by
  have hsent := step_sent h
  -- the frame sent now, if there is one, obeys the server's order
  have hnew : ∀ l, ∀ f ∈ e.sends l, (f.type = MsgType.manifestEntry.toByte → l = m ∧
      ∀ g ∈ (s.lanes m).sent, g.type ≠ MsgType.manifestEnd.toByte) ∧
      (f.type = MsgType.manifestEnd.toByte → l = m) := by
    intro l f hf
    cases e with
    | serverSends l' f' =>
      simp only [Event.sends] at hf
      split at hf
      · rename_i hl
        subst hl
        rw [List.mem_singleton.1 hf]
        exact hok
      · cases hf
    | _ => cases hf
  constructor
  case alone =>
    intro l f hf ht
    rw [hsent, List.mem_append] at hf
    rcases hf with hf | hf
    · exact hs.alone l f hf ht
    · rcases ht with ht | ht
      · exact ((hnew l f hf).1 ht).1
      · exact (hnew l f hf).2 ht
  case before =>
    rw [hsent, List.pairwise_append]
    refine ⟨hs.before, ?_, fun f hf g hg hend hentry => ?_⟩
    · cases e with
      | serverSends l' f' =>
        simp only [Event.sends]
        split
        · exact List.pairwise_singleton _ _
        · exact List.Pairwise.nil
      | _ => exact List.Pairwise.nil
    · exact ((hnew m g hg).1 hentry).2 f hf hend

theorem announced_of_reach (h : (machine cfg).Reach (Orderly m) s) : Announced m s := by
  refine h.invariant Announced.start fun s e hs hc hok => ?_
  obtain ⟨s', heq⟩ := Option.isSome_iff_exists.1 hc
  have hnext : (machine cfg).next s e = s' := by simp [machine, heq]
  rw [hnext]
  exact step_announced heq hok hs

/-! ### Where the client's files come from -/

/-- Only the processing of a frame touches the files. -/
theorem step_files {e : Event} (h : s.step cfg e = some s') : s'.remoteFiles = s.remoteFiles ∨
    ∃ rf rest t, s.main = .processing (rf :: rest) ∧ Handled s rf.frame t ∧ s'.remoteFiles = t.remoteFiles := by
  cases effect_of_step h with
  | @process rf rest throws hmain =>
    unfold State.process
    cases hp : s.processIncomingFrame rf throws with
    | none => exact .inl rfl
    | some t => exact .inr ⟨rf, rest, t, hmain, handled_of_process hp, rfl⟩
  | flush hpc =>
    unfold State.flush
    simp only
    split <;> exact .inl rfl
  | failoverScan hmain =>
    unfold State.failoverScan
    split <;> exact .inl rfl
  | serverSends | receive _ | recvFails | push _ | sendFails | drain _ | goto _ _ _ _ _ => exact .inl rfl

/-- An entry for a file of this path was sent. -/
def State.Told (s : State) (p : Bytes) : Prop :=
  ∃ l, ∃ f ∈ (s.lanes l).sent, f.type = MsgType.manifestEntry.toByte ∧
    ∃ e rest, decodeManifestEntry f.payload = .ok (e, rest) ∧ e.isDirectory = false ∧ e.relativePath = p

theorem mem_record {e : FileEntry} {p : Bytes} (h : p ∈ (s.record e).remoteFiles) :
    p ∈ s.remoteFiles ∨ (e.isDirectory = false ∧ e.relativePath = p) := by
  unfold State.record at h
  split at h
  · exact .inl h
  · rename_i hdir
    rcases (AList.mem_insert _).1 h with rfl | h
    · exact .inr ⟨by simpa using hdir, rfl⟩
    · exact .inl h

/-- A frame in the main thread's hands was sent. -/
theorem Conveyed.sent_of_ready (h : Conveyed s done) {rf : IncomingFrame} (hrf : rf ∈ s.main.ready)
    (hman : isManifestFrame rf.frame = true) : rf.frame ∈ (s.lanes rf.connId).sent := by
  have hmem : rf.frame ∈ manifestOf rf.connId s.main.ready := mem_manifestOf.2 ⟨hrf, hman⟩
  have horder : rf.frame ∈ (s.lanes rf.connId).sent.filter isManifestFrame := by
    rw [← h.inOrder rf.connId, State.handedOver, manifestOf_append, manifestOf_append]
    simp [hmem]
  exact (List.mem_filter.1 horder).1

theorem step_told {e : Event} (h : s.step cfg e = some s') (hs : Kept s) (htold : ∀ p ∈ s.remoteFiles, s.Told p) :
    ∀ p ∈ s'.remoteFiles, s'.Told p := by
  have hgrow : ∀ p, s.Told p → s'.Told p := by
    rintro p ⟨l, f, hf, hrest⟩
    refine ⟨l, f, ?_, hrest⟩
    rw [step_sent h]
    exact List.mem_append_left _ hf
  intro p hp
  rcases step_files h with heq | ⟨rf, rest, t, hmain, hh, heq⟩
  · exact hgrow p (htold p (heq ▸ hp))
  rw [heq] at hp
  cases hh with
  | @entry e' left hf hd =>
    rcases mem_record hp with hp | ⟨hdir, rfl⟩
    · exact hgrow p (htold p hp)
    · rcases hs with hthrown | ⟨done, hc⟩
      · rw [hmain] at hthrown
        cases hthrown
      · have hsent : rf.frame ∈ (s.lanes rf.connId).sent := by
          refine hc.sent_of_ready ?_ (by simp [isManifestFrame, hf])
          rw [hmain]
          exact List.mem_cons_self
        exact hgrow _ ⟨rf.connId, rf.frame, hsent, hf, e', left, hd, hdir, rfl⟩
  | ends _ => exact hgrow p (htold p hp)
  | other _ => exact hgrow p (htold p hp)

theorem told_of_reach {ok : State → Event → Prop} (h : (machine cfg).Reach ok s) :
    ∀ p ∈ s.remoteFiles, s.Told p := by
  induction h with
  | init => exact fun p hp => absurd hp (AList.notMem_empty p)
  | @step s e hr hc _ ih =>
    obtain ⟨s', heq⟩ := Option.isSome_iff_exists.1 hc
    have hnext : (machine cfg).next s e = s' := by simp [machine, heq]
    rw [hnext]
    exact step_told heq (kept_of_reach hr) ih

/-! ### The gate -/

/-- Every processed frame of the manifest was sent. -/
theorem Conveyed.front (h : Conveyed s done) (l : ℕ) :
    ∃ later, manifestOf l done ++ later = (s.lanes l).sent.filter isManifestFrame := by
  refine ⟨manifestOf l (s.main.ready ++ s.incomingManifestFrames) ++ (s.lanes l).pending l, ?_⟩
  rw [← h.inOrder l]
  simp [State.handedOver]

/-- Past the gate the end was processed, and it came on the connection of the manifest. -/
theorem Conveyed.end_processed (h : Conveyed s done) (ha : Announced m s) (hg : s.main.gated = true) :
    ∃ fe ∈ manifestOf m done, fe ∈ (s.lanes m).sent ∧ fe.type = MsgType.manifestEnd.toByte := by
  obtain ⟨⟨le, fe⟩, hdone, hend⟩ := h.ended (h.gated hg)
  change fe.type = MsgType.manifestEnd.toByte at hend
  have hfe : fe ∈ manifestOf le done := mem_manifestOf.2 ⟨hdone, by simp [isManifestFrame, hend]⟩
  obtain ⟨later, hfront⟩ := h.front le
  have hmem : fe ∈ (s.lanes le).sent.filter isManifestFrame := by
    rw [← hfront]
    exact List.mem_append_left _ hfe
  have hsent := (List.mem_filter.1 hmem).1
  obtain rfl : le = m := ha.alone le fe hsent (.inr hend)
  exact ⟨fe, hfe, hsent, hend⟩

/-- What was sent before a processed end is processed; after it comes no entry. -/
theorem Conveyed.entry_processed (h : Conveyed s done) (ha : Announced m s) {fe f : Frame}
    (hfe : fe ∈ manifestOf m done) (hend : fe.type = MsgType.manifestEnd.toByte) (hf : f ∈ (s.lanes l).sent)
    (hentry : f.type = MsgType.manifestEntry.toByte) : s.Processed f := by
  obtain rfl : l = m := ha.alone l f hf (.inl hentry)
  obtain ⟨later, hfront⟩ := h.front l
  have hman : f ∈ (s.lanes l).sent.filter isManifestFrame :=
    List.mem_filter.2 ⟨hf, by simp [isManifestFrame, hentry]⟩
  have hbefore := ha.before.filter isManifestFrame
  rw [← hfront] at hman hbefore
  rcases List.mem_append.1 hman with hdone | hlater
  · exact h.processed ⟨l, f⟩ (mem_manifestOf.1 hdone).1 hentry
  · exact absurd hentry ((List.pairwise_append.1 hbefore).2.2 fe hfe f hlater hend)

/-- **No removal on a partial manifest.** Let the server send its manifest on one connection, no
entry after the end. In whatever order the threads run, batches are flushed, queues are drained and
paused and connections fail: when the client removes local files or creates empty directories,
every entry the server has sent is processed and its path recorded. -/
theorem removal_sees_whole_manifest (h : (machine cfg).Reach (Orderly m) s)
    (hmain : s.main = .removing ∨ s.main = .creating) {f : Frame} (hf : f ∈ (s.lanes l).sent)
    (hentry : f.type = MsgType.manifestEntry.toByte) : s.Processed f := by
  have hannounced := announced_of_reach h
  rcases kept_of_reach h with hthrown | ⟨done, hc⟩
  · rw [hthrown] at hmain
    rcases hmain with hmain | hmain <;> cases hmain
  have hgated : s.main.gated = true := by rcases hmain with hmain | hmain <;> rw [hmain] <;> rfl
  -- the end was processed, so no entry can still be on the way
  obtain ⟨fe, hfe, -, hend⟩ := hc.end_processed hannounced hgated
  exact hc.entry_processed hannounced hfe hend hf hentry

/-- The manifest frames of a server that has one directory and one file. -/
def dirEntry : Frame := ⟨MsgType.manifestEntry.toByte, 0, [1, 1, 0, 100, 0, 0, 0, 0, 0, 0, 0, 0, 0, 0, 0, 0, 0, 0, 0, 0]⟩

def fileEntry : Frame := ⟨MsgType.manifestEntry.toByte, 0, [0, 1, 0, 102, 5, 0, 0, 0, 0, 0, 0, 0, 7, 0, 0, 0, 0, 0, 0, 0]⟩

def manifestEnd : Frame := ⟨MsgType.manifestEnd.toByte, 0, []⟩

/-- Two connections. The entries wait in the batch, the end flushes them, and the second connection
fails before the drain. -/
def twoEntries : List Event :=
  [.serverSends 0 dirEntry, .receive 0, .serverSends 0 fileEntry, .serverSends 0 manifestEnd, .receive 0,
    .receive 0, .flush 0, .recvFails 1 "reset", .failoverScan, .drain 0, .process false, .process false,
    .process false, .failoverScan, .leave, .gate]

theorem removal_sees_two_entries :
    (machine ⟨0, 2⟩).Reach (Orderly 0) ((machine ⟨0, 2⟩).run State.start twoEntries) ∧
      ((machine ⟨0, 2⟩).run State.start twoEntries).Processed fileEntry := by
  have hrun : (machine ⟨0, 2⟩).Allows (Orderly 0) State.start twoEntries := by decide
  have hreach := Machine.reach_run hrun
  have hsent : fileEntry ∈ (((machine ⟨0, 2⟩).run State.start twoEntries).lanes 0).sent := by decide
  exact ⟨hreach, removal_sees_whole_manifest hreach (by decide) hsent rfl⟩

end FastClone.Ingest
