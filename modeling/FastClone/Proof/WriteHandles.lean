import FastClone.Spec.WriteHandles
import FastClone.Proof.DiskIo
import Mathlib.Tactic.Ring

/-!
# Write handles are closed behind their writes

`writes_disciplined`: as long as no handle gets `2 ^ 32` writes, the shared counter is the sum of
the writes that are accepted and not reaped, and a handle is closed only when its writes are all
reaped. The gate compares two 32-bit counters, so a handle with more writes may pass it early
(`gate_passes_early`).

The driver's own invariant says that what it delivers are completions of what it accepted, each
once. So a handle's two counters are those of the driver's log for it (`Handle.Sound`), as long as
they have not wrapped around.
-/

namespace FastClone.WriteHandles

open FastClone.DiskIo Runs

variable {cfg : Config} {io : IoDriverConfig} {s : State} {d d' : Driver} {h : ℕ}

/-! ### The log of the driver -/

def acceptedOn (d : Driver) (h : ℕ) : ℕ := d.accepted.countP fun op => op.req.fileId = h

def deliveredOn (d : Driver) (h : ℕ) : ℕ := d.delivered.countP fun c => c.fileId = h

/-- What is accepted and not delivered. -/
def left (d : Driver) : List Op := d.accepted.filter fun op => op.serial ∉ d.delivered.map Done.serial

theorem delivered_perm (hd : d.Inv) :
    ∃ rest, (d.delivered.map Done.ticket ++ rest).Perm (d.accepted.map Op.ticket) := by
  obtain ⟨l, hl⟩ := hd.shelved
  have hparts := hl.parts.map Done.ticket
  simp only [List.map_append] at hparts
  refine ⟨l.map (Done.ticket ∘ Prod.snd) ++ d.discarded.map (Done.ticket ∘ Prod.snd) ++ d.pending, ?_⟩
  refine List.Perm.trans ?_ ((hparts.append_left d.pending).symm.trans hd.custody.conserve)
  simp only [List.map_map, List.append_assoc]
  refine List.Perm.trans ?_ List.perm_append_comm
  simp only [List.append_assoc]
  exact List.perm_append_comm_assoc _ _ _

/-- An operation is told by its number. -/
theorem ticket_of_serial (hd : d.Inv) {op op' : Op} (hop : op ∈ d.accepted) (hop' : op' ∈ d.accepted)
    (hs : op.serial = op'.serial) : op = op' := by
  have hnodup : (d.accepted.map Op.serial).Nodup := by
    rw [hd.custody.numbered]
    exact List.nodup_range
  exact List.inj_on_of_nodup_map hnodup hop hop' hs

/-- **What is accepted is delivered, once and under its own fields, or left.** -/
theorem accepted_perm (hd : d.Inv) :
    (d.accepted.map Op.ticket).Perm (d.delivered.map Done.ticket ++ (left d).map Op.ticket) := by
  obtain ⟨rest, hrest⟩ := delivered_perm hd
  have hnodup := Driver.nodup_accepted hd.custody
  have hsub : ∀ t ∈ d.delivered.map Done.ticket, t ∈ d.accepted.map Op.ticket := fun t ht =>
    hrest.subset (List.mem_append_left _ ht)
  -- the operations whose number is delivered are those delivered
  have hgone : ((d.accepted.filter fun op => op.serial ∈ d.delivered.map Done.serial).map Op.ticket).Perm
      (d.delivered.map Done.ticket) := by
    rw [List.perm_ext_iff_of_nodup]
    · intro t
      simp only [List.mem_map, List.mem_filter, decide_eq_true_eq]
      constructor
      · rintro ⟨op, ⟨hop, c, hc, hserial⟩, rfl⟩
        obtain ⟨op', hop', htick⟩ := List.mem_map.1 (hsub c.ticket (List.mem_map_of_mem hc))
        have hsame : op' = op := ticket_of_serial hd hop' hop ((congrArg Prod.fst htick).trans hserial)
        exact ⟨c, hc, hsame ▸ htick.symm⟩
      · rintro ⟨c, hc, rfl⟩
        obtain ⟨op, hop, htick⟩ := List.mem_map.1 (hsub c.ticket (List.mem_map_of_mem hc))
        exact ⟨op, ⟨hop, c, hc, (congrArg Prod.fst htick).symm⟩, htick⟩
    · exact (hnodup.sublist (List.filter_sublist.map _))
    · exact (hrest.nodup_iff.2 hnodup).of_append_left
  have hsplit := (List.filter_append_perm (fun op => op.serial ∈ d.delivered.map Done.serial) d.accepted).map
    Op.ticket
  rw [List.map_append] at hsplit
  refine hsplit.symm.trans (hgone.append ?_)
  simp only [left, decide_not]
  exact .refl _

theorem countP_accepted (hd : d.Inv) (h : ℕ) :
    acceptedOn d h = deliveredOn d h + (left d).countP fun op => op.req.fileId = h := by
  have hcount := (accepted_perm hd).countP_eq fun t => t.2.fileId = h
  rw [List.countP_append] at hcount
  simp only [List.countP_map] at hcount
  exact hcount

theorem deliveredOn_le (hd : d.Inv) (h : ℕ) : deliveredOn d h ≤ acceptedOn d h := by
  rw [countP_accepted hd h]
  exact Nat.le_add_right _ _

/-- Where as much is delivered as accepted, nothing is left. -/
theorem not_left (hd : d.Inv) (heq : acceptedOn d h = deliveredOn d h) {op : Op} (hop : op ∈ left d) :
    op.req.fileId ≠ h := by
  intro hfile
  have hcount := countP_accepted hd h
  have hpos : 0 < (left d).countP fun op => op.req.fileId = h :=
    List.countP_pos_iff.2 ⟨op, hop, decide_eq_true hfile⟩
  omega

/-- The bytes of a write, and nothing for a read. -/
def weight (t : ℕ × Ident) : ℕ := if t.2.kind = .write then t.2.requested else 0

def acceptedBytes (d : Driver) : ℕ := (d.accepted.map fun op => weight op.ticket).sum

def deliveredBytes (d : Driver) : ℕ := (d.delivered.map fun c => weight c.ticket).sum

theorem acceptedBytes_eq (hd : d.Inv) :
    acceptedBytes d = deliveredBytes d + ((left d).map fun op => weight op.ticket).sum := by
  have hsum := ((accepted_perm hd).map weight).sum_nat
  simp only [List.map_append, List.map_map, List.sum_append] at hsum
  exact hsum

/-! ### What steps add to the log -/

/-- The log of what came in and went out is the same. -/
structure SameLog (d d' : Driver) : Prop where
  accepted : d'.accepted = d.accepted
  delivered : d'.delivered = d.delivered

theorem sameLog_internal {e : DiskIo.Event} (he : e.internal = true) : SameLog d (e.exec io d) := by
  have hkeep : (e.exec io d).accepted = d.accepted ∧ (e.exec io d).cancelled = d.cancelled ∧
      (e.exec io d).delivered = d.delivered := Driver.internal_keeps he
  exact ⟨hkeep.1, hkeep.2.2⟩

theorem sameLog_releaseNow (f : ℕ) : SameLog d (d.releaseNow f) := ⟨rfl, rfl⟩

theorem sameLog_releaseFile (f : ℕ) : SameLog d (d.releaseFile f) := by
  unfold Driver.releaseFile
  simp only
  split <;> exact ⟨rfl, rfl⟩

theorem sameLog_requestCancel : SameLog d d.requestCancel := by
  unfold Driver.requestCancel
  split <;> exact ⟨rfl, rfl⟩

/-- A batch adds requests of its own. -/
theorem accepted_acceptAll (io : IoDriverConfig) (d : Driver) (batch : List IoRequest) :
    ∃ ops, (d.acceptAll io batch).accepted = d.accepted ++ ops ∧ (∀ op ∈ ops, op.req ∈ batch) ∧
      (d.acceptAll io batch).delivered = d.delivered := by
  induction batch generalizing d with
  | nil => exact ⟨[], (List.append_nil _).symm, by simp, rfl⟩
  | cons r batch ih =>
    rw [Driver.acceptAll]
    split
    · exact ⟨[], (List.append_nil _).symm, by simp, rfl⟩
    · obtain ⟨ops, hacc, hops, hdel⟩ := ih (d.accept r)
      obtain ⟨rq, wq, heq⟩ := Driver.accept_eq d r
      rw [heq] at hacc hdel ⊢
      refine ⟨⟨d.accepted.length, r⟩ :: ops, ?_, ?_, hdel⟩
      · rw [hacc, List.append_assoc]
        rfl
      · intro op hop
        rcases List.mem_cons.1 hop with rfl | hop
        · exact List.mem_cons_self
        · exact List.mem_cons_of_mem _ (hops op hop)

/-- What a drain of a file returns is of this file, and was accepted. -/
theorem drained_mem (hd : d.Inv) {c : Done} (hc : c ∈ (d.done.drainCompletionsForFile h).2) :
    c.fileId = h ∧ ∃ op ∈ d.accepted, op.ticket = c.ticket := by
  obtain ⟨l, hl⟩ := hd.shelved
  obtain ⟨c', hdrain, -⟩ := hl.holds.drainCompletionsForFile h
  rw [hdrain] at hc
  obtain ⟨p, hp, rfl⟩ := List.mem_map.1 hc
  obtain ⟨hmem, hfile⟩ := List.mem_filter.1 hp
  refine ⟨of_decide_eq_true hfile, ?_⟩
  have henq : p.2 ∈ d.enqueued := hl.order.subset (List.mem_map_of_mem hmem)
  have hacc : p.2.ticket ∈ d.accepted.map Op.ticket :=
    hd.custody.conserve.subset (List.mem_append_right _ (List.mem_map_of_mem henq))
  exact List.mem_map.1 hacc

/-- A drain adds the completions it returns, all of its own file. -/
theorem deliveredOn_drain (hd : d.Inv) (h' : ℕ) :
    deliveredOn (d.drainCompletionsForFile h) h' =
      deliveredOn d h' + if h' = h then (d.done.drainCompletionsForFile h).2.length else 0 := by
  simp only [deliveredOn, Driver.drainCompletionsForFile, List.countP_append]
  congr 1
  split
  · rename_i heq
    rw [List.countP_eq_length]
    intro c hc
    exact decide_eq_true ((drained_mem hd hc).1.trans heq.symm)
  · rename_i hne
    rw [List.countP_eq_zero]
    intro c hc
    have := (drained_mem hd hc).1
    simp only [decide_eq_true_eq]
    omega

theorem deliveredBytes_drain : deliveredBytes (d.drainCompletionsForFile h) =
    deliveredBytes d + ((d.done.drainCompletionsForFile h).2.map fun c => weight c.ticket).sum := by
  simp [deliveredBytes, Driver.drainCompletionsForFile]

/-- The driver takes a request, or nothing happens. -/
theorem submit_one (io : IoDriverConfig) (d : Driver) (r : IoRequest) :
    d.submit io [r] = d ∨ d.submit io [r] = d.accept r := by
  unfold Driver.submit
  split
  · exact .inl rfl
  · simp only [Driver.acceptAll]
    split
    · exact .inl rfl
    · exact .inr rfl

theorem acceptedOn_accept (r : IoRequest) (h' : ℕ) :
    acceptedOn (d.accept r) h' = acceptedOn d h' + if r.fileId = h' then 1 else 0 := by
  obtain ⟨rq, wq, heq⟩ := Driver.accept_eq d r
  rw [heq]
  simp only [acceptedOn, List.countP_append, List.countP_singleton, decide_eq_true_eq]

theorem acceptedBytes_accept (r : IoRequest) :
    acceptedBytes (d.accept r) = acceptedBytes d + weight (d.accepted.length, r.ident) := by
  obtain ⟨rq, wq, heq⟩ := Driver.accept_eq d r
  rw [heq]
  simp [acceptedBytes, Op.ticket]

theorem delivered_accept (r : IoRequest) : (d.accept r).delivered = d.delivered := by
  obtain ⟨rq, wq, heq⟩ := Driver.accept_eq d r
  rw [heq]

/-- The answer of `submit` says which. -/
theorem charge_of_accepts {offset : ℕ} {data : List UInt8} (ha : s.accepts cfg h offset data = true) :
    s.driver.submit cfg.io [writeRequest h offset data] = s.driver.accept (writeRequest h offset data) := by
  rcases submit_one cfg.io s.driver (writeRequest h offset data) with heq | heq
  · simp only [State.accepts, heq, beq_iff_eq] at ha
    omega
  · exact heq

/-! ### A handle and the log -/

/-- The owner counts the writes of the handle in `submitted` and `completed`. -/
def Phase.counts : Phase → Bool
  | .download | .planning | .planned | .handedOver | .delta | .fileRange | .draining _ => true
  | _ => false

/-- Everything on the handle is reaped. -/
def Phase.settled : Phase → Bool
  | .planned | .handedOver | .closing | .closed => true
  | _ => false

/-- The counters of a handle with `w` writes accepted and `r` reaped. -/
structure Handle.Sound (x : Handle) (w r : ℕ) : Prop where
  unopened : x.phase = .unopened → w = 0
  counts : x.phase.counts = true → x.submitted = UInt32.ofNat w ∧ x.completed = UInt32.ofNat r ∧ w < 2 ^ 32
  whole : ∀ data off inflight ok, x.phase = .whole data off inflight ok →
    w = r + inflight.toNat ∧ inflight.toNat ≤ 8
  settled : x.phase.settled = true → w = r

/-- Nothing is asked of a file that is read. -/
theorem Handle.Sound.reader {x : Handle} (hx : x.phase = .reader) (w r : ℕ) : x.Sound w r where
  unopened h := nomatch hx.symm.trans h
  counts h := by rw [hx] at h; cases h
  whole _ _ _ _ h := nomatch hx.symm.trans h
  settled h := by rw [hx] at h; cases h

/-- The invariant. -/
structure Inv (cfg : Config) (s : State) : Prop where
  reach : (DiskIo.machine cfg.io).Reach (fun _ _ => True) s.driver
  fresh : ∀ h, s.nextId ≤ h → (s.handles h).phase = .unopened
  kinds : ∀ op ∈ s.driver.accepted, (s.handles op.req.fileId).phase = .reader ↔ op.req.kind = .read
  sound : ∀ h, (s.handles h).Sound (acceptedOn s.driver h) (deliveredOn s.driver h)
  outstanding : s.outstandingBytes =
    UInt64.ofNat (acceptedBytes s.driver) - UInt64.ofNat (deliveredBytes s.driver)

theorem Inv.driver (hi : Inv cfg s) : s.driver.Inv := Driver.inv_reach hi.reach

theorem inv_start (cfg : Config) : Inv cfg (.start cfg) where
  reach := .init
  fresh _ _ := rfl
  kinds _ hop := nomatch hop
  sound _ := ⟨fun _ => rfl, nofun, nofun, nofun⟩
  outstanding := by
    show (0 : UInt64) = UInt64.ofNat 0 - UInt64.ofNat 0
    rfl

/-- **The invariant gives the discipline.** -/
theorem Inv.disciplined (hi : Inv cfg s) : s.Disciplined := by
  have hd := hi.driver
  have hleft : ∀ op, op ∈ s.unreaped ↔ op ∈ left s.driver ∧ op.req.kind = .write := by
    intro op
    simp only [State.unreaped, left, List.mem_filter, Bool.decide_and, Bool.and_eq_true, decide_eq_true_eq]
    tauto
  constructor
  case outstanding =>
    have hsum : (s.unreaped.map fun op => op.req.length).sum =
        ((left s.driver).map fun op => weight op.ticket).sum := by
      have hfilter : s.unreaped = (left s.driver).filter fun op => op.req.kind = .write := by
        simp [State.unreaped, left, List.filter_filter]
      rw [hfilter]
      -- a read weighs nothing
      induction left s.driver with
      | nil => rfl
      | cons op ops ih =>
        by_cases hk : op.req.kind = .write
        · simp [hk, ih, weight, Op.ticket, IoRequest.ident]
        · simp [hk, ih, weight, Op.ticket, IoRequest.ident]
    rw [hi.outstanding, acceptedBytes_eq hd, hsum, UInt64.ofNat_add, UInt64.add_comm, UInt64.add_sub_cancel]
  case closed =>
    intro op hop hclosed
    have hsettled := (hi.sound op.req.fileId).settled (by rw [hclosed]; rfl)
    exact not_left hd hsettled ((hleft op).1 hop).1 rfl

/-! ### Steps -/

/-- One handle moves on. The log for the others is the same, up to files that are read. -/
theorem Inv.change (hi : Inv cfg s) {n : UInt64} {x : Handle}
    (hreach : (DiskIo.machine cfg.io).Reach (fun _ _ => True) d)
    (hopen : (s.handles h).phase ≠ .unopened)
    (hothers : ∀ h', h' ≠ h → (s.handles h').phase ≠ .reader →
      acceptedOn d h' = acceptedOn s.driver h' ∧ deliveredOn d h' = deliveredOn s.driver h')
    (hx : x.Sound (acceptedOn d h) (deliveredOn d h))
    (hreader : x.phase = .reader ↔ (s.handles h).phase = .reader)
    (hkinds : ∀ op ∈ d.accepted, op ∈ s.driver.accepted ∨
      ((s.handles op.req.fileId).phase = .reader ↔ op.req.kind = .read))
    (hout : n = UInt64.ofNat (acceptedBytes d) - UInt64.ofNat (deliveredBytes d)) :
    Inv cfg { s with
      driver := d
      outstandingBytes := n
      handles := Function.update s.handles h x } where
  reach := hreach
  fresh h' hle := by
    have hne : h' ≠ h := by
      rintro rfl
      exact hopen (hi.fresh h' hle)
    simpa [hne] using hi.fresh h' hle
  kinds op hop := by
    have hold : (s.handles op.req.fileId).phase = .reader ↔ op.req.kind = .read := by
      rcases hkinds op hop with hmem | hnew
      · exact hi.kinds op hmem
      · exact hnew
    by_cases hf : op.req.fileId = h
    · simp only [hf, Function.update_self]
      rw [hreader, ← hf]
      exact hold
    · simpa [hf] using hold
  sound h' := by
    by_cases hf : h' = h
    · subst hf
      simpa using hx
    · simp only [Function.update_of_ne hf]
      by_cases hr : (s.handles h').phase = .reader
      · exact .reader hr _ _
      · obtain ⟨ha, hdl⟩ := hothers h' hf hr
        rw [ha, hdl]
        exact hi.sound h'
  outstanding := hout

/-- A handle goes to another phase that the log allows. -/
theorem Inv.goto (hi : Inv cfg s) {p : Phase} (hopen : (s.handles h).phase ≠ .unopened)
    (hx : Handle.Sound { s.handles h with phase := p } (acceptedOn s.driver h) (deliveredOn s.driver h))
    (hreader : p = .reader ↔ (s.handles h).phase = .reader) : Inv cfg (s.goto h p) :=
  hi.change hi.reach hopen (fun _ _ _ => ⟨rfl, rfl⟩) hx hreader (fun _ hop => .inl hop) hi.outstanding

/-- A step of the driver that leaves the log of the writes alone. -/
theorem Inv.disk (hi : Inv cfg s) (hreach : (DiskIo.machine cfg.io).Reach (fun _ _ => True) d)
    (hothers : ∀ h', (s.handles h').phase ≠ .reader →
      acceptedOn d h' = acceptedOn s.driver h' ∧ deliveredOn d h' = deliveredOn s.driver h')
    (hkinds : ∀ op ∈ d.accepted, op ∈ s.driver.accepted ∨
      ((s.handles op.req.fileId).phase = .reader ↔ op.req.kind = .read))
    (hbytes : acceptedBytes d = acceptedBytes s.driver ∧ deliveredBytes d = deliveredBytes s.driver) :
    Inv cfg { s with driver := d } where
  reach := hreach
  fresh := hi.fresh
  kinds op hop := by
    rcases hkinds op hop with hmem | hnew
    · exact hi.kinds op hmem
    · exact hnew
  sound h' := by
    by_cases hr : (s.handles h').phase = .reader
    · exact .reader hr _ _
    · obtain ⟨ha, hdl⟩ := hothers h' hr
      rw [ha, hdl]
      exact hi.sound h'
  outstanding := by
    rw [hbytes.1, hbytes.2]
    exact hi.outstanding

theorem Inv.disk_sameLog (hi : Inv cfg s) (hreach : (DiskIo.machine cfg.io).Reach (fun _ _ => True) d)
    (hlog : SameLog s.driver d) : Inv cfg { s with driver := d } := by
  obtain ⟨ha, hdl⟩ := hlog
  refine hi.disk hreach (fun h' _ => ?_) (fun op hop => .inl (ha ▸ hop)) ?_
  · simp [acceptedOn, deliveredOn, ha, hdl]
  · simp [acceptedBytes, deliveredBytes, ha, hdl]

/-- Requests to read files add nothing to the log of the writes. -/
theorem Inv.disk_reads (hi : Inv cfg s) (hreach : (DiskIo.machine cfg.io).Reach (fun _ _ => True) d)
    {ops : List Op} (ha : d.accepted = s.driver.accepted ++ ops) (hdl : d.delivered = s.driver.delivered)
    (hops : ∀ op ∈ ops, op.req.kind = .read ∧ (s.handles op.req.fileId).phase = .reader) :
    Inv cfg { s with driver := d } := by
  refine hi.disk hreach (fun h' hr => ⟨?_, ?_⟩) (fun op hop => ?_) ⟨?_, ?_⟩
  · have hnone : ops.countP (fun op => op.req.fileId = h') = 0 := by
      rw [List.countP_eq_zero]
      intro op hop hf
      exact hr (of_decide_eq_true hf ▸ (hops op hop).2)
    simp [acceptedOn, ha, hnone]
  · simp [deliveredOn, hdl]
  · rw [ha] at hop
    rcases List.mem_append.1 hop with hop | hop
    · exact .inl hop
    · exact .inr (iff_of_true (hops op hop).2 (hops op hop).1)
  · have hzero : (ops.map fun op => weight op.ticket).sum = 0 := by
      refine List.sum_eq_zero_iff_forall_eq_nat.2 fun n hn => ?_
      obtain ⟨op, hop, rfl⟩ := List.mem_map.1 hn
      simp [weight, Op.ticket, IoRequest.ident, (hops op hop).1]
    simp [acceptedBytes, ha, hzero]
  · simp [deliveredBytes, hdl]

/-- Draining a file that is read takes no write out. -/
theorem Inv.disk_drain (hi : Inv cfg s) (hreach : (DiskIo.machine cfg.io).Reach (fun _ _ => True)
    (s.driver.drainCompletionsForFile h)) (hr : (s.handles h).phase = .reader) :
    Inv cfg { s with driver := s.driver.drainCompletionsForFile h } := by
  refine hi.disk hreach (fun h' hr' => ⟨rfl, ?_⟩) (fun op hop => .inl hop) ⟨rfl, ?_⟩
  · have hne : h' ≠ h := by
      rintro rfl
      exact hr' hr
    rw [deliveredOn_drain hi.driver, if_neg hne, Nat.add_zero]
  · have hzero : ((s.driver.done.drainCompletionsForFile h).2.map fun c => weight c.ticket).sum = 0 := by
      refine List.sum_eq_zero_iff_forall_eq_nat.2 fun n hn => ?_
      obtain ⟨c, hc, rfl⟩ := List.mem_map.1 hn
      obtain ⟨hfile, op, hop, htick⟩ := drained_mem hi.driver hc
      have hopfile : op.req.fileId = h := (congrArg (fun t => t.2.fileId) htick).trans hfile
      have hread : op.req.kind = .read := (hi.kinds op hop).1 (by rw [hopfile]; exact hr)
      simp [← htick, weight, Op.ticket, IoRequest.ident, hread]
    rw [deliveredBytes_drain, hzero, Nat.add_zero]

theorem Inv.exec_disk (hi : Inv cfg s) {e : DiskIo.Event} (hb : s.besides e = true) (hc : e.Can cfg.io s.driver) :
    Inv cfg { s with driver := e.exec cfg.io s.driver } := by
  have hreach : (DiskIo.machine cfg.io).Reach (fun _ _ => True) (e.exec cfg.io s.driver) :=
    .step hi.reach hc trivial
  cases e with
  | submit batch =>
    simp only [State.besides, List.all_eq_true, Bool.and_eq_true, decide_eq_true_eq] at hb
    by_cases hcan : s.driver.cancelled = true
    · have hsame : s.driver.submit cfg.io batch = s.driver := if_pos hcan
      exact hi.disk_sameLog hreach ⟨congrArg _ hsame, congrArg _ hsame⟩
    · have hall : s.driver.submit cfg.io batch = s.driver.acceptAll cfg.io batch := if_neg hcan
      obtain ⟨ops, hacc, hops, hdel⟩ := accepted_acceptAll cfg.io s.driver batch
      exact hi.disk_reads hreach ((congrArg _ hall).trans hacc) ((congrArg _ hall).trans hdel)
        fun op hop => hb op.req (hops op hop)
  | drainCompletionsForFile f =>
    simp only [State.besides, decide_eq_true_eq] at hb
    exact hi.disk_drain hreach hb
  | releaseFile f => exact hi.disk_sameLog hreach (sameLog_releaseFile f)
  | releaseNow f => exact hi.disk_sameLog hreach (sameLog_releaseNow f)
  | drainCompletions => cases hb
  | requestCancel => exact hi.disk_sameLog hreach sameLog_requestCancel
  | pick | backendSubmit | reap | finish | enqueuePush | enqueueSettle | enqueueEnd =>
    exact hi.disk_sameLog hreach (sameLog_internal rfl)

theorem Inv.openFile (hi : Inv cfg s) {p : Phase} (hp : p.opens = true) :
    Inv cfg { s.setHandle s.nextId ⟨p, 0, 0, false⟩ with nextId := s.nextId + 1 } := by
  have hnew := hi.fresh s.nextId (Nat.le_refl _)
  have hzero : acceptedOn s.driver s.nextId = 0 := (hi.sound s.nextId).unopened hnew
  have hzero' : deliveredOn s.driver s.nextId = 0 := by
    have := deliveredOn_le hi.driver s.nextId
    omega
  constructor
  case reach => exact hi.reach
  case fresh =>
    intro h' hle
    have hne : h' ≠ s.nextId := fun heq => absurd (heq ▸ hle) (Nat.not_succ_le_self _)
    simpa [State.setHandle, hne] using hi.fresh h' (Nat.le_of_succ_le hle)
  case kinds =>
    intro op hop
    have hne : op.req.fileId ≠ s.nextId := by
      intro heq
      exact List.countP_eq_zero.1 hzero op hop (decide_eq_true heq)
    simpa [State.setHandle, hne] using hi.kinds op hop
  case sound =>
    intro h'
    by_cases hf : h' = s.nextId
    · subst hf
      simp only [State.setHandle, Function.update_self, hzero, hzero']
      refine ⟨fun _ => rfl, fun _ => ⟨rfl, rfl, by decide⟩, fun data off inflight ok hw => ?_, fun _ => rfl⟩
      simp only at hw
      simp only [hw, Phase.opens, Bool.and_eq_true, decide_eq_true_eq] at hp
      rw [hp.1.2]
      exact ⟨rfl, by decide⟩
    · simpa [State.setHandle, hf] using hi.sound h'
  case outstanding => exact hi.outstanding

/-- A write is accepted. -/
theorem Inv.charge (hi : Inv cfg s) {offset : ℕ} {data : List UInt8} {x : Handle}
    (ha : s.accepts cfg h offset data = true) (hopen : (s.handles h).phase ≠ .unopened)
    (hreader : (s.handles h).phase ≠ .reader) (hxr : x.phase ≠ .reader)
    (hx : x.Sound (acceptedOn s.driver h + 1) (deliveredOn s.driver h)) :
    Inv cfg ((s.charge cfg h offset data).setHandle h x) := by
  have hdriver := charge_of_accepts ha
  have hcan : (DiskIo.machine cfg.io).can s.driver (.submit [writeRequest h offset data]) := trivial
  have hreach : (DiskIo.machine cfg.io).Reach (fun _ _ => True)
      (s.driver.submit cfg.io [writeRequest h offset data]) := .step hi.reach hcan trivial
  simp only [State.charge, State.setHandle]
  rw [hdriver] at hreach ⊢
  have hdel : ∀ h', deliveredOn (s.driver.accept (writeRequest h offset data)) h' = deliveredOn s.driver h' := by
    intro h'
    rw [deliveredOn, delivered_accept]
    rfl
  refine hi.change hreach hopen (fun h' hne _ => ⟨?_, hdel h'⟩) ?_ (iff_of_false hxr hreader) (fun op hop => ?_) ?_
  · rw [acceptedOn_accept, if_neg (show ¬ (writeRequest h offset data).fileId = h' from Ne.symm hne), Nat.add_zero]
  · rw [acceptedOn_accept, if_pos (show (writeRequest h offset data).fileId = h from rfl), hdel]
    exact hx
  · obtain ⟨rq, wq, heq⟩ := Driver.accept_eq s.driver (writeRequest h offset data)
    rw [heq] at hop
    rcases List.mem_append.1 hop with hop | hop
    · exact .inl hop
    · rw [List.mem_singleton.1 hop]
      exact .inr (iff_of_false hreader nofun)
  · have hweight : weight (s.driver.accepted.length, (writeRequest h offset data).ident) = data.length := rfl
    have hbytes : deliveredBytes (s.driver.accept (writeRequest h offset data)) = deliveredBytes s.driver := by
      rw [deliveredBytes, delivered_accept]
      rfl
    rw [acceptedBytes_accept, hweight, hbytes, hi.outstanding, UInt64.ofNat_add]
    grind

/-! ### Reaping -/

theorem account_counts {x : Handle} (hx : x.phase.counts = true) (c : IoCompletion) :
    (x.account c).phase = x.phase ∧ (x.account c).submitted = x.submitted ∧
      (x.account c).completed = x.completed + 1 := by
  unfold Handle.account
  split
  · rename_i hw
    rw [hw] at hx
    cases hx
  · exact ⟨rfl, rfl, rfl⟩

/-- The owner counts every completion. -/
theorem foldl_account_counts {x : Handle} (hx : x.phase.counts = true) (cs : List IoCompletion) :
    (cs.foldl Handle.account x).phase = x.phase ∧ (cs.foldl Handle.account x).submitted = x.submitted ∧
      (cs.foldl Handle.account x).completed = x.completed + UInt32.ofNat cs.length := by
  induction cs generalizing x with
  | nil => exact ⟨rfl, rfl, (UInt32.add_zero _).symm⟩
  | cons c cs ih =>
    obtain ⟨hp, hs, hc⟩ := account_counts hx c
    obtain ⟨hp', hs', hc'⟩ := ih (by rw [hp]; exact hx)
    refine ⟨hp'.trans hp, hs'.trans hs, ?_⟩
    rw [List.foldl_cons, hc', hc, List.length_cons, UInt32.ofNat_add]
    grind

/-- The loop of a whole file takes every completion off its window. -/
theorem foldl_account_whole {x : Handle} {data : List UInt8} {off : ℕ} {inflight : UInt32} {ok : Bool}
    (hx : x.phase = .whole data off inflight ok) (cs : List IoCompletion) (hle : cs.length ≤ inflight.toNat) :
    ∃ inflight' ok', (cs.foldl Handle.account x).phase = .whole data off inflight' ok' ∧
      inflight'.toNat + cs.length = inflight.toNat := by
  induction cs generalizing x inflight ok with
  | nil => exact ⟨inflight, ok, hx, rfl⟩
  | cons c cs ih =>
    rw [List.length_cons] at hle
    have hpos : 0 < inflight := by
      rw [UInt32.lt_iff_toNat_lt]
      exact Nat.lt_of_lt_of_le (Nat.succ_pos _) hle
    have hstep : (x.account c).phase = .whole data off (inflight - 1) (ok && !failed c) := by
      simp only [Handle.account, hx, if_pos hpos]
    have hone : (1 : UInt32) ≤ inflight := by
      rw [UInt32.le_iff_toNat_le]
      exact Nat.le_trans (Nat.succ_le_succ (Nat.zero_le _)) hle
    have hsub : (inflight - 1).toNat = inflight.toNat - 1 := UInt32.toNat_sub_of_le _ _ hone
    obtain ⟨inflight', ok', hphase, hcount⟩ := ih hstep (by omega)
    exact ⟨inflight', ok', hphase, by rw [List.length_cons]; omega⟩

/-- A phase that reaps counts or has a window. -/
theorem Phase.reaps_cases {p : Phase} (hp : p.reaps = true) :
    (p.counts = true ∧ p.settled = false) ∨ ∃ data off inflight ok, p = .whole data off inflight ok := by
  cases p with
  | whole data off inflight ok => exact .inr ⟨data, off, inflight, ok, rfl⟩
  | download | planning | delta | fileRange | draining => exact .inl ⟨rfl, rfl⟩
  | unopened | reader | planned | handedOver | closing | closed => cases hp

theorem Phase.counts_open {p : Phase} (hp : p.counts = true) : p ≠ .unopened ∧ p ≠ .reader := by
  constructor <;> rintro rfl <;> cases hp

theorem foldl_sub (n : UInt64) (cs : List IoCompletion) :
    cs.foldl (fun n c => n - UInt64.ofNat c.requested) n = n - UInt64.ofNat (cs.map IoCompletion.requested).sum := by
  induction cs generalizing n with
  | nil => exact (UInt64.sub_zero n).symm
  | cons c cs ih =>
    rw [List.foldl_cons, ih, List.map_cons, List.sum_cons, UInt64.ofNat_add]
    grind

/-- What is reaped on a write handle are writes. -/
theorem weight_drained (hi : Inv cfg s) (hr : (s.handles h).phase ≠ .reader) :
    ((s.driver.done.drainCompletionsForFile h).2.map fun c => weight c.ticket) =
      ((s.driver.done.drainCompletionsForFile h).2.map Done.completion).map IoCompletion.requested := by
  rw [List.map_map]
  refine List.map_congr_left fun c hc => ?_
  obtain ⟨hfile, op, hop, htick⟩ := drained_mem hi.driver hc
  have hopfile : op.req.fileId = h := (congrArg (fun t => t.2.fileId) htick).trans hfile
  have hwrite : op.req.kind = .write := by
    cases hk : op.req.kind with
    | write => rfl
    | read => exact absurd (hopfile ▸ (hi.kinds op hop).2 hk) hr
  have hkind : c.completion.kind = .write := (congrArg (fun t => t.2.kind) htick).symm.trans hwrite
  simp [weight, Done.ticket, IoCompletion.ident, hkind]

theorem Inv.reap (hi : Inv cfg s) (hp : (s.handles h).phase.reaps = true) (hidle : s.driver.enqueuing = none) :
    Inv cfg (s.reapDriverWrites h) := by
  have hcan : (DiskIo.machine cfg.io).can s.driver (.drainCompletionsForFile h) := hidle
  have hreach : (DiskIo.machine cfg.io).Reach (fun _ _ => True) (s.driver.drainCompletionsForFile h) :=
    .step hi.reach hcan trivial
  have hsound := hi.sound h
  have hdel := deliveredOn_drain hi.driver (h := h)
  have hself := hdel h
  rw [if_pos rfl] at hself
  have hle := deliveredOn_le (Driver.inv_reach hreach) h
  have haccept : acceptedOn (s.driver.drainCompletionsForFile h) h = acceptedOn s.driver h := rfl
  -- both kinds of owner note as many completions as the driver returns
  have hx : ∃ x : Handle, ((s.driver.done.drainCompletionsForFile h).2.map Done.completion).foldl Handle.account
      (s.handles h) = x ∧ x.Sound (acceptedOn s.driver h) (deliveredOn (s.driver.drainCompletionsForFile h) h) ∧
      x.phase ≠ .reader ∧ (s.handles h).phase ≠ .reader ∧ (s.handles h).phase ≠ .unopened := by
    refine ⟨_, rfl, ?_⟩
    rcases Phase.reaps_cases hp with ⟨hcounts, hns⟩ | ⟨data, off, inflight, ok, hwhole⟩
    · obtain ⟨hphase, hsub, hcomp⟩ := foldl_account_counts hcounts
        ((s.driver.done.drainCompletionsForFile h).2.map Done.completion)
      obtain ⟨hsubmitted, hcompleted, hsmall⟩ := hsound.counts hcounts
      obtain ⟨hopen, hreader⟩ := Phase.counts_open hcounts
      refine ⟨⟨?_, ?_, ?_, ?_⟩, by rw [hphase]; exact hreader, hreader, hopen⟩
      · intro hun
        exact absurd (hphase.symm.trans hun) hopen
      · intro _
        refine ⟨hsub.trans hsubmitted, ?_, hsmall⟩
        rw [hcomp, hcompleted, hself, List.length_map, UInt32.ofNat_add]
      · intro data off inflight ok hw
        rw [← hphase, hw] at hcounts
        cases hcounts
      · intro hset
        rw [hphase, hns] at hset
        cases hset
    · obtain ⟨hw, hwindow⟩ := hsound.whole data off inflight ok hwhole
      obtain ⟨inflight', ok', hphase, hcount⟩ := foldl_account_whole hwhole
        ((s.driver.done.drainCompletionsForFile h).2.map Done.completion) (by rw [List.length_map]; omega)
      rw [List.length_map] at hcount
      refine ⟨⟨?_, ?_, ?_, ?_⟩, by rw [hphase]; nofun, by rw [hwhole]; nofun, by rw [hwhole]; nofun⟩
      · intro hun
        cases hphase.symm.trans hun
      · intro hc
        rw [hphase] at hc
        cases hc
      · intro data' off' inflight'' ok'' hw'
        cases hphase.symm.trans hw'
        omega
      · intro hset
        rw [hphase] at hset
        cases hset
  obtain ⟨x, heq, hxs, hxr, hreader, hopen⟩ := hx
  unfold State.reapDriverWrites
  simp only
  rw [heq]
  refine hi.change hreach hopen (fun h' hne _ => ⟨rfl, ?_⟩) hxs (iff_of_false hxr hreader) (fun op hop => .inl hop) ?_
  · rw [hdel h', if_neg hne, Nat.add_zero]
  · rw [foldl_sub, deliveredBytes_drain, weight_drained hi hreader, hi.outstanding, UInt64.ofNat_add]
    show _ = UInt64.ofNat (acceptedBytes s.driver) - _
    grind

/-! ### All steps -/

/-- A handle goes on to a phase that has no window. -/
theorem Handle.Sound.goto {x : Handle} {w r : ℕ} {p : Phase} (hx : x.Sound w r) (hopen : p ≠ .unopened)
    (hcounts : p.counts = true → x.phase.counts = true) (hsettled : p.settled = true → w = r)
    (hwhole : ∀ data off inflight ok, p ≠ .whole data off inflight ok) :
    Handle.Sound { x with phase := p } w r where
  unopened h := absurd h hopen
  counts h := hx.counts (hcounts h)
  whole data off inflight ok h := absurd h (hwhole data off inflight ok)
  settled h := hsettled h

/-- A phase after the writes: the handle was opened, not for reading, and has no window. -/
structure Phase.Later (p : Phase) : Prop where
  opened : p ≠ .unopened
  written : p ≠ .reader
  noWindow : ∀ data off inflight ok, p ≠ .whole data off inflight ok

theorem Phase.later_draining (gate : Gate) : (Phase.draining gate).Later := ⟨nofun, nofun, nofun⟩

theorem Phase.later_behind (gate : Gate) : (Phase.behind gate).Later := by
  cases gate <;> exact ⟨nofun, nofun, nofun⟩

theorem Phase.later_handedOver : Phase.handedOver.Later := ⟨nofun, nofun, nofun⟩

theorem Phase.later_delta : Phase.delta.Later := ⟨nofun, nofun, nofun⟩

theorem Phase.later_closed : Phase.closed.Later := ⟨nofun, nofun, nofun⟩

/-- Where the counters have not wrapped around, the gate opens when all is reaped. -/
theorem settled_of_gate {x : Handle} {w r : ℕ} (hx : x.Sound w r) (hc : x.phase.counts = true)
    (hle : r ≤ w) (hgate : ¬ x.completed < x.submitted) : w = r := by
  obtain ⟨hsub, hcomp, hsmall⟩ := hx.counts hc
  rw [hsub, hcomp, UInt32.lt_iff_toNat_lt, UInt32.toNat_ofNat_of_lt' hsmall,
    UInt32.toNat_ofNat_of_lt' (Nat.lt_of_le_of_lt hle hsmall)] at hgate
  omega

theorem Inv.submitDriverWrite (hi : Inv cfg s) {offset : ℕ} {data : List UInt8}
    (hw : (s.handles h).phase.writes = true) (hfit : s.writesOn h + 1 < 2 ^ 32) :
    Inv cfg (s.submitDriverWrite cfg h offset data) := by
  unfold State.submitDriverWrite
  split
  · rename_i ha
    have hcounts : (s.handles h).phase.counts = true ∧ (s.handles h).phase.settled = false := by
      revert hw
      cases (s.handles h).phase <;> first | exact fun _ => ⟨rfl, rfl⟩ | exact nofun
    obtain ⟨hsub, hcomp, -⟩ := (hi.sound h).counts hcounts.1
    obtain ⟨hopen, hreader⟩ := Phase.counts_open hcounts.1
    refine hi.charge ha hopen hreader hreader ⟨fun hun => absurd hun hopen, fun _ => ⟨?_, hcomp, hfit⟩, ?_, ?_⟩
    · rw [hsub, UInt32.ofNat_add]
      rfl
    · intro data' off inflight ok hwhole
      have := hcounts.1
      rw [show (s.handles h).phase = _ from hwhole] at this
      cases this
    · intro hset
      rw [show (s.handles h).phase.settled = _ from hset] at hcounts
      cases hcounts.2
  · exact hi

theorem Inv.submitWhole (hi : Inv cfg s) {data : List UInt8} {off : ℕ} {inflight : UInt32} {ok : Bool}
    (hp : (s.handles h).phase = .whole data off inflight ok) (hwin : inflight < kWindow) :
    Inv cfg (s.submitWhole cfg h data off inflight ok) := by
  unfold State.submitWhole
  simp only
  split
  · rename_i ha
    obtain ⟨hw, -⟩ := (hi.sound h).whole data off inflight ok hp
    have hsmall : inflight.toNat < 8 := UInt32.lt_iff_toNat_lt.1 hwin
    have hadd : (inflight + 1).toNat = inflight.toNat + 1 := by
      rw [UInt32.toNat_add, Nat.mod_eq_of_lt]
      · rfl
      · show inflight.toNat + 1 < 2 ^ 32
        omega
    refine hi.charge ha (by rw [hp]; nofun) (by rw [hp]; nofun) nofun ⟨nofun, nofun, ?_, nofun⟩
    intro data' off' inflight' ok' hw'
    cases hw'
    rw [hadd]
    omega
  · exact hi

theorem Inv.gotoLater (hi : Inv cfg s) {p : Phase} (hp : p.Later)
    (hfrom : (s.handles h).phase ≠ .unopened ∧ (s.handles h).phase ≠ .reader)
    (hcounts : p.counts = true → (s.handles h).phase.counts = true)
    (hsettled : p.settled = true → acceptedOn s.driver h = deliveredOn s.driver h) : Inv cfg (s.goto h p) :=
  hi.goto hfrom.1 ((hi.sound h).goto hp.opened hcounts hsettled hp.noWindow) (iff_of_false hp.written hfrom.2)

/-- What writes a whole file has a window with room. -/
theorem whole_of_can (hc : (Event.submitWhole h).Can cfg s) : ∃ data off inflight ok,
    (s.handles h).phase = .whole data off inflight ok ∧ inflight < kWindow ∧
      (Event.submitWhole h).exec cfg s = s.submitWhole cfg h data off inflight ok := by
  simp only [Event.Can] at hc
  split at hc
  · rename_i data off inflight ok hp
    exact ⟨data, off, inflight, ok, hp, hc.2.2, by simp only [Event.exec, hp]⟩
  · cases hc

/-- What has drained was at a gate, which is open now. -/
theorem draining_of_can (hc : (Event.drained h).Can cfg s) : ∃ gate, (s.handles h).phase = .draining gate ∧
    ¬ (s.handles h).completed < (s.handles h).submitted ∧ (Event.drained h).exec cfg s = s.goto h (.behind gate) := by
  simp only [Event.Can] at hc
  split at hc
  · rename_i gate hp
    exact ⟨gate, hp, hc, by simp only [Event.exec, hp]⟩
  · cases hc

/-- What comes to a gate counts its writes. -/
theorem Phase.gates_counts {p : Phase} {gate : Gate} (hp : p.gates gate = true) : p.counts = true := by
  cases p <;> cases gate <;> first | rfl | cases hp

theorem Phase.closes_open {p : Phase} (hp : p.closes = true) : p ≠ .unopened ∧ p ≠ .reader := by
  constructor <;> rintro rfl <;> cases hp

/-- What is closed has nothing outstanding. -/
theorem settled_of_closes (hi : Inv cfg s) (hcloses : (s.handles h).phase.closes = true) :
    acceptedOn s.driver h = deliveredOn s.driver h := by
  cases hp : (s.handles h).phase with
  | closing | planned | handedOver => exact (hi.sound h).settled (by rw [hp]; rfl)
  | whole data off inflight ok =>
    rw [hp] at hcloses
    obtain ⟨hw, -⟩ := (hi.sound h).whole data off inflight ok hp
    have hzero : ¬ 0 < inflight := by
      intro hpos
      simp [Phase.closes, hpos] at hcloses
    rw [UInt32.lt_iff_toNat_lt] at hzero
    have : inflight.toNat = 0 := Nat.le_zero.1 (Nat.le_of_not_lt hzero)
    omega
  | _ =>
    rw [hp] at hcloses
    cases hcloses

/-- **One step keeps the invariant.** -/
theorem inv_exec (hi : Inv cfg s) {e : Event} (hc : e.Can cfg s) (hfit : Fits s e) : Inv cfg (e.exec cfg s) := by
  cases e with
  | disk e => exact hi.exec_disk hc.1 hc.2
  | openFile p => exact hi.openFile hc
  | submit h offset data => exact hi.submitDriverWrite hc.1 hfit
  | submitWhole h =>
    obtain ⟨data, off, inflight, ok, hp, hwin, hexec⟩ := whole_of_can hc
    rw [hexec]
    exact hi.submitWhole hp hwin
  | reap h => exact hi.reap hc.1 hc.2
  | enter h gate =>
    have hcounts : (s.handles h).phase.counts = true := Phase.gates_counts hc
    exact hi.gotoLater (Phase.later_draining gate) (Phase.counts_open hcounts) (fun _ => hcounts)
      fun hset => absurd hset Bool.false_ne_true
  | drained h =>
    obtain ⟨gate, hp, hopen, hexec⟩ := draining_of_can hc
    have hcounts : (s.handles h).phase.counts = true := by
      rw [hp]
      rfl
    have hsettled := settled_of_gate (hi.sound h) hcounts (deliveredOn_le hi.driver h) hopen
    rw [hexec]
    exact hi.gotoLater (Phase.later_behind gate) (Phase.counts_open hcounts) (fun _ => hcounts) fun _ => hsettled
  | handOver h =>
    have hp : (s.handles h).phase = .planned := hc
    have hcounts : (s.handles h).phase.counts = true := by
      rw [hp]
      rfl
    have hsettled := (hi.sound h).settled (by rw [hp]; rfl)
    exact hi.gotoLater Phase.later_handedOver (Phase.counts_open hcounts) (fun _ => hcounts) fun _ => hsettled
  | adopt h =>
    have hp : (s.handles h).phase = .handedOver := hc
    have hcounts : (s.handles h).phase.counts = true := by
      rw [hp]
      rfl
    exact hi.gotoLater Phase.later_delta (Phase.counts_open hcounts) (fun _ => hcounts)
      fun hset => absurd hset Bool.false_ne_true
  | closeFile h =>
    exact hi.gotoLater Phase.later_closed (Phase.closes_open hc) (fun hcounts => absurd hcounts Bool.false_ne_true)
      fun _ => settled_of_closes hi hc

theorem inv_reach (hr : (machine cfg).Reach Fits s) : Inv cfg s :=
  hr.invariant (inv_start cfg) fun _ _ hi hc hfit => inv_exec hi hc hfit

/-- **Write-handle discipline**, in every run in which no handle with 32-bit counters gets `2 ^ 32`
writes. -/
theorem writes_disciplined (hr : (machine cfg).Reach Fits s) : s.Disciplined := (inv_reach hr).disciplined

/-- A download of two writes: the first is reaped, the second waits when the stream ends. -/
def twoWrites : List Event :=
  [.openFile .download, .submit 1 0 [1, 2], .disk .pick, .disk (.backendSubmit true),
    .disk (.reap [⟨0, writeRequest 1 0 [1, 2]⟩] fun _ => ⟨.ok, 2, []⟩), .disk (.enqueuePush .scheduler 0),
    .disk .enqueueSettle, .disk .enqueueEnd, .reap 1, .submit 1 2 [3], .enter 1 .fileEnd]

theorem two_writes_disciplined :
    (machine ⟨{}, 0⟩).Reach Fits ((machine ⟨{}, 0⟩).run (.start ⟨{}, 0⟩) twoWrites) ∧
      ((machine ⟨{}, 0⟩).run (.start ⟨{}, 0⟩) twoWrites).Disciplined := by
  have hrun : (machine ⟨{}, 0⟩).Allows Fits (.start ⟨{}, 0⟩) twoWrites := by decide
  have hreach := Machine.reach_run hrun
  exact ⟨hreach, writes_disciplined hreach⟩

/-! ### A handle with `2 ^ 32` writes

The handle of a block download gets its frames one byte at a time. After each write the client reaps
what is there, which is what came before; then the driver completes the write. -/

def plain : Config := ⟨{}, 0⟩

/-- `n` writes are accepted, and the driver has nothing left to do. -/
structure Rested (s : State) (n : ℕ) : Prop where
  reach : (machine plain).Reach Fits s
  phase : (s.handles 1).phase = .fileRange
  accepted : s.driver.accepted.length = n
  writes : s.writesOn 1 = n
  cancelled : s.driver.cancelled = false
  work : s.driver.work = 0

/-- Left alone, the driver completes everything. -/
theorem driver_rests (hr : (machine plain).Reach Fits s) (hcan : s.driver.cancelled = false) :
    (machine plain).Leads Fits (fun t => ((machine plain).Reach Fits t ∧ t.handles = s.handles ∧
      t.driver.accepted = s.driver.accepted ∧ t.driver.cancelled = false) ∧ t.driver.work = 0) s := by
  refine Machine.leads_of_measure (I := fun t => (machine plain).Reach Fits t ∧ t.handles = s.handles ∧
    t.driver.accepted = s.driver.accepted ∧ t.driver.cancelled = false) (fun t => t.driver.work)
    (fun t ht hw => ?_) ⟨hr, rfl, rfl, hcan⟩
  obtain ⟨hreach, hhandles, hacc, hcan⟩ := ht
  have hd := (inv_reach hreach).driver
  have hbusy : ∃ e : DiskIo.Event, e.internal ∧ e.Can plain.io t.driver :=
    Driver.exists_internal hd (.inl (by decide)) hw
  obtain ⟨e, hint, hc⟩ := hbusy
  have hkeep : (e.exec plain.io t.driver).accepted = t.driver.accepted ∧
      (e.exec plain.io t.driver).cancelled = t.driver.cancelled ∧
      (e.exec plain.io t.driver).delivered = t.driver.delivered := Driver.internal_keeps hint
  have hbesides : t.besides e = true := by
    cases e <;> first | exact hint | cases hint
  have hcan' : (machine plain).can t (.disk e) := ⟨hbesides, hc⟩
  refine .step hcan' trivial (.here ⟨⟨.step hreach hcan' trivial, hhandles, hkeep.1.trans hacc,
    hkeep.2.1.trans hcan⟩, ?_⟩)
  exact Driver.work_exec hint hc

/-- The next byte: a write, and what is there is reaped. -/
def State.writeByte (s : State) (n : ℕ) : State := (s.submitDriverWrite plain 1 n [0]).reapDriverWrites 1

theorem Rested.accepts {n : ℕ} (hs : Rested s n) : s.accepts plain 1 n [0] = true := by
  have hpending := (Driver.pending_of_work hs.work).1
  have hq : s.driver.writeQ = [] := by
    simp only [Driver.pending, List.append_eq_nil_iff, List.map_eq_nil_iff] at hpending
    exact hpending.1.1.1.2
  have hfull : s.driver.full plain.io (writeRequest 1 n [0]) = false := by
    simp [Driver.full, writeRequest, hq, plain]
  obtain ⟨rq, wq, heq⟩ := Driver.accept_eq s.driver (writeRequest 1 n [0])
  simp [State.accepts, Driver.submit, hs.cancelled, Driver.acceptAll, hfull, heq]

/-- The driver has the write, and its completion is not among those reaped. -/
theorem Rested.writeByte {n : ℕ} (hs : Rested s n) :
    ((s.writeByte n).handles 1).phase = .fileRange ∧
    ((s.writeByte n).handles 1).submitted = (s.handles 1).submitted + 1 ∧
    (s.writeByte n).driver.accepted = s.driver.accepted ++ [⟨n, writeRequest 1 n [0]⟩] ∧
    (s.writeByte n).driver.cancelled = false ∧
    ∀ c ∈ (s.writeByte n).driver.delivered, c.serial < n := by
  have hd := (inv_reach hs.reach).driver
  have hdriver := charge_of_accepts hs.accepts
  obtain ⟨rq, wq, heq⟩ := Driver.accept_eq s.driver (writeRequest 1 n [0])
  have hold : ∀ op ∈ s.driver.accepted, op.serial < n := by
    intro op hop
    have hmem : op.serial ∈ s.driver.accepted.map Op.serial := List.mem_map_of_mem hop
    rw [hd.custody.numbered, hs.accepted] at hmem
    exact List.mem_range.1 hmem
  have hserial : ∀ {c : Done}, (∃ op ∈ s.driver.accepted, op.ticket = c.ticket) → c.serial < n := by
    rintro c ⟨op, hop, htick⟩
    have hsame : op.serial = c.serial := congrArg Prod.fst htick
    rw [← hsame]
    exact hold op hop
  have hsubmit : s.submitDriverWrite plain 1 n [0] = (s.charge plain 1 n [0]).setHandle 1
      { s.handles 1 with submitted := (s.handles 1).submitted + 1 } := if_pos hs.accepts
  rw [State.writeByte, hsubmit]
  have hx := foldl_account_counts (x := { s.handles 1 with submitted := (s.handles 1).submitted + 1 })
    (by rw [hs.phase]; rfl)
  simp only [State.reapDriverWrites, State.setHandle, State.charge, Function.update_self, hdriver, heq]
  refine ⟨(hx _).1.trans hs.phase, (hx _).2.1, ?_, hs.cancelled, ?_⟩
  · show s.driver.accepted ++ [⟨s.driver.accepted.length, _⟩] = _
    rw [hs.accepted]
  · intro c hc
    rcases List.mem_append.1 hc with hc | hc
    · obtain ⟨rest, hrest⟩ := delivered_perm hd
      have hmem : c.ticket ∈ s.driver.accepted.map Op.ticket :=
        hrest.subset (List.mem_append_left _ (List.mem_map_of_mem hc))
      exact hserial (List.mem_map.1 hmem)
    · exact hserial (drained_mem hd hc).2

/-- The two steps of the byte, in a run that need not fit. -/
theorem Rested.reach_writeByte {n : ℕ} {ok : State → Event → Prop} (hs : Rested s n)
    (hr : (machine plain).Reach ok s) (hok : ok s (.submit 1 n [0]))
    (hok' : ok (s.submitDriverWrite plain 1 n [0]) (.reap 1)) : (machine plain).Reach ok (s.writeByte n) := by
  have hsubmit : (machine plain).can s (.submit 1 n [0]) := ⟨by rw [hs.phase]; rfl, by decide⟩
  have heq : s.submitDriverWrite plain 1 n [0] = (s.charge plain 1 n [0]).setHandle 1
      { s.handles 1 with submitted := (s.handles 1).submitted + 1 } := if_pos hs.accepts
  obtain ⟨rq, wq, haccept⟩ := Driver.accept_eq s.driver (writeRequest 1 n [0])
  have hreap : (machine plain).can (s.submitDriverWrite plain 1 n [0]) (.reap 1) := by
    refine ⟨?_, ?_⟩
    · rw [heq]
      simp [State.setHandle, hs.phase, Phase.reaps]
    · rw [heq]
      simp only [State.setHandle, State.charge, charge_of_accepts hs.accepts, haccept]
      exact (Driver.pending_of_work hs.work).2
  exact .step (.step hr hsubmit hok) hreap hok'

/-- One more write, as long as the counter holds it. -/
theorem Rested.next {n : ℕ} (hs : Rested s n) (hn : n + 1 < 2 ^ 32) : ∃ t, Rested t (n + 1) := by
  have hfit : Fits s (.submit 1 n [0]) := by
    show s.writesOn 1 + 1 < 2 ^ 32
    rw [hs.writes]
    exact hn
  have hreach := hs.reach_writeByte hs.reach hfit trivial
  obtain ⟨hphase, -, hacc, hcan, -⟩ := hs.writeByte
  obtain ⟨es, hes, ⟨hreach', hhandles, hacc', hcan'⟩, hwork⟩ := driver_rests hreach hcan
  refine ⟨_, hreach', ?_, ?_, ?_, hcan', hwork⟩
  · rw [hhandles]
    exact hphase
  · rw [hacc', hacc, List.length_append, hs.accepted]
    rfl
  · have hwrites : s.driver.accepted.countP (fun op => op.req.fileId = 1) = n := hs.writes
    rw [State.writesOn, hacc', hacc, List.countP_append, hwrites]
    rfl

theorem exists_rested (n : ℕ) (hn : n < 2 ^ 32) : ∃ s, Rested s n := by
  induction n with
  | zero =>
    refine ⟨_, .step .init (show (machine plain).can _ (.openFile .fileRange) from rfl) trivial, rfl, rfl, rfl, rfl, rfl⟩
  | succ n ih =>
    obtain ⟨s, hs⟩ := ih (by omega)
    exact hs.next hn

/-- With the last write the counter of the writes is 0 again. The gate opens at once, and the
handle is closed with this write in the queue of the driver. -/
theorem gate_passes_early : ¬ ∀ s, (machine plain).Reach (fun _ _ => True) s → s.Disciplined := by
  intro hall
  obtain ⟨s, hs⟩ := exists_rested (2 ^ 32 - 1) (by decide)
  have hreach := hs.reach_writeByte (hs.reach.mono fun _ _ _ => trivial) trivial trivial
  obtain ⟨hphase, hsub, hacc, -, hdel⟩ := hs.writeByte
  generalize s.writeByte (2 ^ 32 - 1) = t at hreach hphase hsub hacc hdel
  have hzero : (t.handles 1).submitted = 0 := by
    have hcount := ((inv_reach hs.reach).sound 1).counts (by rw [hs.phase]; rfl)
    have hwrites : acceptedOn s.driver 1 = 2 ^ 32 - 1 := hs.writes
    rw [hsub, hcount.1, hwrites]
    decide
  have henter : (machine plain).can t (.enter 1 .finalize) := by
    show (t.handles 1).phase.gates .finalize = true
    rw [hphase]
    rfl
  have hgate : (machine plain).can (t.goto 1 (.draining .finalize)) (.drained 1) := by
    simp [machine, Event.Can, State.goto, State.setHandle, hzero]
  have hdrained : (machine plain).next (t.goto 1 (.draining .finalize)) (.drained 1) =
      (t.goto 1 (.draining .finalize)).goto 1 .closing := by
    simp [machine, Event.exec, State.goto, State.setHandle, Phase.behind]
  have hreach' : (machine plain).Reach (fun _ _ => True) ((t.goto 1 (.draining .finalize)).goto 1 .closing) := by
    rw [← hdrained]
    exact (hreach.step henter trivial).step hgate trivial
  have hclose : (machine plain).can ((t.goto 1 (.draining .finalize)).goto 1 .closing) (.closeFile 1) := by
    show Phase.closes _ = true
    simp [State.goto, State.setHandle, Phase.closes]
  have hbad := (hall _ (hreach'.step hclose trivial)).closed ⟨2 ^ 32 - 1, writeRequest 1 (2 ^ 32 - 1) [0]⟩
  refine hbad ?_ ?_
  · refine List.mem_filter.2 ⟨?_, ?_⟩
    · show _ ∈ t.driver.accepted
      rw [hacc]
      exact List.mem_append_right _ (List.mem_singleton.2 rfl)
    · simp only [decide_eq_true_eq]
      refine ⟨rfl, fun hmem => ?_⟩
      obtain ⟨c, hc, hserial⟩ := List.mem_map.1 hmem
      exact absurd hserial (Nat.ne_of_lt (hdel c hc))
  · simp [machine, Event.exec, State.goto, State.setHandle, writeRequest]

end FastClone.WriteHandles
