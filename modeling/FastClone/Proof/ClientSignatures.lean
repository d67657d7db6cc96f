import FastClone.Proof.ClientApart

/-!
# The window of signature requests

`deltaSigInFlight` is to count the `BlockSigRequest`s that are sent and not answered. A
`BlockSigResponse` always gives a slot back, a `DeltaError` and `failoverScan` only for a file
that still waits for its signature (`awaitsSignature`). So a slot leaks where a request of
another file ends in one of these ways; as long as none does, the count stays below the
number of requests that are out on lanes not failed over.
-/

set_option linter.unusedSectionVars false

namespace FastClone.Client

open State Runs Table

variable {P H : Type} [DecidableEq P] [DecidableEq H]

/-! ### Requests that are out -/

/-- The lane is down and the next `failoverScan` fails it over. -/
def Pool.dying (p : Pool) (i : ℕ) : Bool := p[i]?.any fun l => !l.healthy && !l.drained

namespace State

/-- The signature requests that are not answered, on lanes not failed over. -/
def sigOutstanding (s : State P H) : ℕ := s.delta.sigJobs.countP fun j => s.pool.live j.1

/-- The unanswered requests that the next `failoverScan` gives up. -/
def sigLost (s : State P H) : List (ℕ × P) := s.delta.sigJobs.filter fun j => s.pool.dying j.1

/-- A delta file whose signature was asked for and did not arrive. -/
def awaitsSignature (s : State P H) (f : P) : Bool :=
  (s.delta.book.states.lookup f).any (fun st => !st.sigReceived) &&
    decide (f ∈ s.delta.deltaSigRequested)

end State

theorem outstanding_congr {s s' : State P H} (hl : ∀ i, s'.pool.live i = s.pool.live i)
    (hj : s'.delta.sigJobs = s.delta.sigJobs) : s'.sigOutstanding = s.sigOutstanding := by
  unfold sigOutstanding
  rw [hj]
  exact List.countP_congr fun j _ => by rw [hl]

/-! ### Steps on the window -/

namespace State

theorem outstanding_drainCompare (cfg : Config) (s : State P H) (old : Bool)
    (h : s.delta.deltaSigInFlight ≤ s.sigOutstanding) :
    (s.drainCompare cfg old).delta.deltaSigInFlight ≤ (s.drainCompare cfg old).sigOutstanding := by
  unfold drainCompare
  split
  · exact h
  · rename_i r c _
    unfold handleCompareResult
    cases r.2 with
    | transferNow =>
      have hapart := Apart.enterOrSchedule cfg ({ s with compare := c } : State P H) r.1 old
      dsimp only
      rw [hapart.count, outstanding_congr hapart.live hapart.jobs]
      exact h
    | skip => exact h
    | needHash => exact h

/-- A batch of requests goes out on a live lane, or none is counted. -/
theorem outstanding_pump (cfg : Config) (s : State P H) {lane : ℕ} {sendOk : Bool}
    (hl : sendOk = true → s.pool.live lane = true) (reached : ℕ)
    (h : s.delta.deltaSigInFlight ≤ s.sigOutstanding) :
    (s.pumpDeltaSignatures cfg lane sendOk reached).delta.deltaSigInFlight ≤
      (s.pumpDeltaSignatures cfg lane sendOk reached).sigOutstanding := by
  unfold pumpDeltaSignatures
  extract_lets room r
  split
  · exact h
  · split
    · rename_i hsend
      have hall : (r.1.map fun f => (lane, f)).countP (fun j => s.pool.live j.1) = r.1.length := by
        rw [List.countP_map, List.countP_eq_length]
        exact fun f _ => hl hsend
      show s.delta.deltaSigInFlight + r.1.length ≤
        (s.delta.sigJobs ++ r.1.map fun f => (lane, f)).countP fun j => s.pool.live j.1
      rw [List.countP_append, hall]
      exact Nat.add_le_add_right h _
    · show s.delta.deltaSigInFlight ≤ (s.delta.sigJobs ++ (r.1.take reached).map fun f =>
        (lane, f)).countP fun j => (s.pool.markConnDown lane).live j.1
      rw [List.countP_append]
      have hsame : s.delta.sigJobs.countP (fun j => (s.pool.markConnDown lane).live j.1) =
          s.sigOutstanding := List.countP_congr fun j _ => by rw [live_markConnDown]
      omega

/-- An answered request is out no more. -/
theorem outstanding_erase {jobs : List (ℕ × P)} {j : ℕ × P} (hj : j ∈ jobs) (live : ℕ → Bool) :
    jobs.countP (fun j => live j.1) =
      (jobs.erase j).countP (fun j => live j.1) + if live j.1 then 1 else 0 := by
  rw [(List.perm_cons_erase hj).countP_eq, List.countP_cons]

theorem outstanding_blockSigResponse {s : State P H} {conn : ℕ} {rel : P}
    (hj : (conn, rel) ∈ s.delta.sigJobs) (h : s.delta.deltaSigInFlight ≤ s.sigOutstanding) :
    (s.blockSigResponse conn rel).delta.deltaSigInFlight ≤
      (s.blockSigResponse conn rel).sigOutstanding := by
  have herase := outstanding_erase hj s.pool.live
  have hkept : (s.blockSigResponse conn rel).delta.deltaSigInFlight = s.delta.deltaSigInFlight - 1 ∧
      (s.blockSigResponse conn rel).sigOutstanding =
        (s.delta.sigJobs.erase (conn, rel)).countP fun j => s.pool.live j.1 := by
    unfold blockSigResponse
    extract_lets d
    split
    · exact ⟨rfl, rfl⟩
    · split
      · exact ⟨rfl, rfl⟩
      · exact ⟨rfl, rfl⟩
  rw [hkept.1, hkept.2]
  unfold sigOutstanding at h
  split at herase <;> omega

/-- The error of a file gives its slot back if the file waits for its signature. -/
theorem deltaErrorFor_slots (s : State P H) (tagged : Bool) (rel : P) :
    (∀ i, (s.deltaErrorFor tagged rel).pool.live i = s.pool.live i) ∧
      (s.deltaErrorFor tagged rel).delta.sigJobs = s.delta.sigJobs ∧
      (s.deltaErrorFor tagged rel).delta.deltaSigInFlight =
        s.delta.deltaSigInFlight - if !tagged && s.awaitsSignature rel then 1 else 0 := by
  have hcount : (s.deltaErrorFor tagged rel).delta.deltaSigInFlight =
      if deltaErrorReleasesSigSlot tagged (s.delta.book.states.lookup rel).isSome
          ((s.delta.book.states.lookup rel).any RangeState.sigReceived) &&
        decide (rel ∈ s.delta.deltaSigRequested) then s.delta.deltaSigInFlight - 1
      else s.delta.deltaSigInFlight := by
    unfold deltaErrorFor
    extract_lets st wasManaged releases src d
    split <;> rfl
  refine ⟨?_, ?_, ?_⟩
  · intro i
    unfold deltaErrorFor
    extract_lets st wasManaged releases src d
    split <;> rfl
  · unfold deltaErrorFor
    extract_lets st wasManaged releases src d
    split <;> rfl
  · rw [hcount]
    unfold deltaErrorReleasesSigSlot awaitsSignature
    cases tagged <;> cases s.delta.book.states.lookup rel <;>
      by_cases hreq : rel ∈ s.delta.deltaSigRequested <;> simp [hreq]
    rename_i st
    cases st.sigReceived <;> simp

theorem outstanding_deltaError {s : State P H} {k : Key} {rel : P}
    (hj : k.2 = 0 → (k.1, rel) ∈ s.delta.sigJobs)
    (hw : k.2 = 0 → s.pool.live k.1 = true → s.awaitsSignature rel = true)
    (h : s.delta.deltaSigInFlight ≤ s.sigOutstanding) :
    (s.deltaError k rel).delta.deltaSigInFlight ≤ (s.deltaError k rel).sigOutstanding := by
  unfold deltaError
  split
  · rename_i r _
    -- the error of a range: no request is answered and no slot given back
    obtain ⟨hl, hjobs, hcount⟩ := (s.closeStream k).deltaErrorFor_slots true r.rel
    have hclose := Apart.closeStream s k
    have hout : ((s.closeStream k).deltaErrorFor true r.rel).sigOutstanding = s.sigOutstanding :=
      outstanding_congr (fun i => (hl i).trans (hclose.live i)) hjobs
    rw [hcount, hout, hclose.count]
    exact h
  · generalize hs₁ : ({ s with delta := { s.delta with
        sigJobs := if k.2 = 0 then s.delta.sigJobs.erase (k.1, rel) else s.delta.sigJobs } } :
          State P H) = s₁
    obtain ⟨hl, hjobs, hcount⟩ := s₁.deltaErrorFor_slots false rel
    have hwait : s₁.awaitsSignature rel = s.awaitsSignature rel := by rw [← hs₁]; rfl
    have hin : s₁.delta.deltaSigInFlight = s.delta.deltaSigInFlight := by rw [← hs₁]
    have hpool : s₁.pool = s.pool := by rw [← hs₁]
    have hjobs₁ : s₁.delta.sigJobs =
        if k.2 = 0 then s.delta.sigJobs.erase (k.1, rel) else s.delta.sigJobs := by rw [← hs₁]
    have hout : (s₁.deltaErrorFor false rel).sigOutstanding =
        (if k.2 = 0 then s.delta.sigJobs.erase (k.1, rel) else s.delta.sigJobs).countP
          fun j => s.pool.live j.1 := by
      unfold sigOutstanding
      rw [hjobs, hjobs₁]
      exact List.countP_congr fun j _ => by rw [hl, hpool]
    rw [hout, hcount, hin, hwait]
    unfold sigOutstanding at h
    by_cases h0 : k.2 = 0
    · have herase := outstanding_erase (hj h0) s.pool.live
      rw [if_pos h0]
      cases hlive : s.pool.live k.1 with
      | true =>
        rw [hw h0 hlive]
        simp only [hlive, if_true, Bool.not_false, Bool.and_self] at herase ⊢
        omega
      | false =>
        simp only [hlive, Bool.false_eq_true, if_false] at herase
        omega
    · rw [if_neg h0]
      omega

/-! ### Failover -/

/-- The requests, their count and the files that wait are left alone. -/
structure WindowKept (s s' : State P H) : Prop where
  jobs : s'.delta.sigJobs = s.delta.sigJobs
  count : s'.delta.deltaSigInFlight = s.delta.deltaSigInFlight
  awaits : ∀ f, s'.awaitsSignature f = s.awaitsSignature f

theorem WindowKept.refl (s : State P H) : WindowKept s s := ⟨rfl, rfl, fun _ => rfl⟩

theorem WindowKept.trans {s s₁ s' : State P H} (h : WindowKept s s₁) (h' : WindowKept s₁ s') :
    WindowKept s s' :=
  ⟨h'.jobs.trans h.jobs, h'.count.trans h.count, fun f => (h'.awaits f).trans (h.awaits f)⟩

theorem WindowKept.of_delta {s s' : State P H} (h : s'.delta = s.delta) : WindowKept s s' := by
  refine ⟨by rw [h], by rw [h], fun f => ?_⟩
  unfold awaitsSignature
  rw [h]

theorem WindowKept.foldl {α : Type} {step : State P H → α → State P H}
    (h : ∀ s a, WindowKept s (step s a)) (l : List α) (s : State P H) :
    WindowKept s (l.foldl step s) := by
  induction l generalizing s with
  | nil => exact .refl s
  | cons a l ih => exact (h s a).trans (ih (step s a))

theorem windowKept_drainStream (s : State P H) (k : Key) : WindowKept s (s.drainStream k) := by
  unfold drainStream
  split
  · exact .refl s
  · exact .of_delta rfl
  · exact .of_delta (beside_applyOuts [] _ _).delta
  · rename_i r hk
    have hstates : (s.delta.book.requeue r).states = s.delta.book.states := by
      unfold RangeBook.requeue
      split <;> rfl
    refine ⟨rfl, rfl, fun f => ?_⟩
    unfold awaitsSignature
    dsimp only
    rw [hstates]
  · exact .of_delta rfl

theorem pool_drainStreams (keys : List Key) (s : State P H) :
    (keys.foldl drainStream s).pool = s.pool := by
  induction keys generalizing s with
  | nil => rfl
  | cons k keys ih => rw [List.foldl_cons, ih, (s.drainStream_frame k).1]

/-- What one lane of `failoverScan` does to the lanes. -/
theorem drainLane_lanes (order : List Key) (s : State P H) (lane : ℕ) :
    WindowKept s (s.drainLane order lane) ∧
      (∀ j, (s.drainLane order lane).pool.live j =
        (s.pool.live j && !(decide (j = lane) && s.pool.dying j))) ∧
      ∀ j, (s.drainLane order lane).pool.dying j = (s.pool.dying j && decide (j ≠ lane)) := by
  unfold drainLane
  split
  · rename_i hdead
    extract_lets s₁
    have hw : WindowKept s s₁ := WindowKept.foldl windowKept_drainStream _ s
    have hp : s₁.pool = s.pool := pool_drainStreams _ s
    have hlane : s.pool.dying lane = true := hdead
    refine ⟨hw.trans (.of_delta rfl), fun j => ?_, fun j => ?_⟩
    · by_cases hj : j = lane
      · subst hj
        rw [hlane]
        simp only [Pool.live, hp, List.getElem?_modify_eq, decide_true, Bool.and_self, Bool.not_true,
          Bool.and_false]
        cases s.pool[j]? <;> rfl
      · show Pool.live (s₁.pool.modify lane _) j = _
        unfold Pool.live
        rw [hp, List.getElem?_modify]
        simp [hj, Ne.symm hj]
    · by_cases hj : j = lane
      · subst hj
        simp only [Pool.dying, hp, List.getElem?_modify_eq, ne_eq, not_true_eq_false, decide_false,
          Bool.and_false]
        cases s.pool[j]? <;> simp
      · show Pool.dying (s₁.pool.modify lane _) j = _
        unfold Pool.dying
        rw [hp, List.getElem?_modify]
        simp [hj, Ne.symm hj]
  · rename_i hdead
    have hlane : s.pool.dying lane = false := Bool.eq_false_of_not_eq_true hdead
    refine ⟨.refl s, fun j => ?_, fun j => ?_⟩
    · by_cases hj : j = lane
      · subst hj
        simp [hlane]
      · simp [hj]
    · by_cases hj : j = lane
      · subst hj
        simp [hlane]
      · simp [hj]

theorem drainLanes_lanes (order : List Key) (lanes : List ℕ) (s : State P H) :
    WindowKept s (lanes.foldl (drainLane order) s) ∧
      ∀ j, (lanes.foldl (drainLane order) s).pool.live j =
        (s.pool.live j && !(decide (j ∈ lanes) && s.pool.dying j)) := by
  induction lanes generalizing s with
  | nil => exact ⟨.refl s, fun j => by simp⟩
  | cons lane lanes ih =>
    obtain ⟨hw, hl, hd⟩ := drainLane_lanes order s lane
    obtain ⟨hw', hl'⟩ := ih (s.drainLane order lane)
    refine ⟨hw.trans hw', fun j => ?_⟩
    rw [List.foldl_cons, hl', hl, hd]
    by_cases hj : j = lane
    · subst hj
      simp
    · simp [hj]

/-- `requeueSignature` gives back the slot of a file that waits, and lets it wait no more. -/
theorem requeueSignature_slots (s : State P H) (rel : P) :
    (s.requeueSignature rel).pool = s.pool ∧
      (s.requeueSignature rel).delta.sigJobs = s.delta.sigJobs ∧
      (s.requeueSignature rel).delta.deltaSigInFlight =
        s.delta.deltaSigInFlight - (if s.awaitsSignature rel then 1 else 0) ∧
      ∀ f, f ≠ rel → (s.requeueSignature rel).awaitsSignature f = s.awaitsSignature f := by
  unfold requeueSignature
  cases hl : s.delta.book.states.lookup rel with
  | none =>
    have hw : s.awaitsSignature rel = false := by simp [awaitsSignature, hl]
    simp [hw]
  | some st =>
    have hw : s.awaitsSignature rel =
        (!st.sigReceived && decide (rel ∈ s.delta.deltaSigRequested)) := by
      simp [awaitsSignature, hl]
    dsimp only
    rw [hw]
    split
    · rename_i hc
      refine ⟨rfl, rfl, by simp, fun f hf => ?_⟩
      unfold awaitsSignature
      simp [Finset.mem_erase, hf]
    · rename_i hc
      simp

theorem requeueSignatures_slots {l : List P} (hnd : l.Nodup) (s : State P H) :
    (l.foldl requeueSignature s).pool = s.pool ∧
      (l.foldl requeueSignature s).delta.sigJobs = s.delta.sigJobs ∧
      (l.foldl requeueSignature s).delta.deltaSigInFlight =
        s.delta.deltaSigInFlight - l.countP s.awaitsSignature := by
  induction l generalizing s with
  | nil => exact ⟨rfl, rfl, rfl⟩
  | cons rel l ih =>
    obtain ⟨hnot, hnd⟩ := List.nodup_cons.1 hnd
    obtain ⟨hp, hj, hc, hw⟩ := s.requeueSignature_slots rel
    obtain ⟨hp', hj', hc'⟩ := ih hnd (s.requeueSignature rel)
    refine ⟨hp'.trans hp, hj'.trans hj, ?_⟩
    have hsame : l.countP (s.requeueSignature rel).awaitsSignature = l.countP s.awaitsSignature := by
      refine List.countP_congr fun f hf => ?_
      rw [hw f fun he => hnot (he ▸ hf)]
    rw [List.foldl_cons, hc', hc, hsame, List.countP_cons]
    omega

/-- Every lost request belongs to a waiting file of its own, so they are at most as many. -/
theorem sigLost_le {s : State P H} {keys : List P} (hkeys : ∀ f, f ∈ s.delta.book.states → f ∈ keys)
    (hnd : (s.sigLost.map Prod.snd).Nodup) (hw : ∀ j ∈ s.sigLost, s.awaitsSignature j.2 = true) :
    s.sigLost.length ≤ keys.countP s.awaitsSignature := by
  rw [List.countP_eq_length_filter]
  have hsub : s.sigLost.map Prod.snd ⊆ keys.filter s.awaitsSignature := by
    intro f hf
    obtain ⟨j, hj, rfl⟩ := List.mem_map.1 hf
    have hwait := hw j hj
    refine List.mem_filter.2 ⟨hkeys _ ?_, hwait⟩
    unfold awaitsSignature at hwait
    rw [Bool.and_eq_true] at hwait
    obtain ⟨st, hst, -⟩ := (Option.any_eq_true _ _).1 hwait.1
    exact mem_of_lookup hst
  have hlen := (hnd.subperm hsub).length_le
  rwa [List.length_map] at hlen

/-- The requests a scan gives up were out before. -/
theorem outstanding_split {s : State P H} {live : ℕ → Bool}
    (hl : ∀ j, live j = (s.pool.live j && !s.pool.dying j)) :
    s.sigOutstanding = s.delta.sigJobs.countP (fun j => live j.1) + s.sigLost.length := by
  have hdying (i : ℕ) (hi : s.pool.dying i = true) : s.pool.live i = true := by
    unfold Pool.dying at hi
    unfold Pool.live
    cases hp : s.pool[i]? with
    | none =>
      rw [hp] at hi
      cases hi
    | some l =>
      rw [hp, Option.any_some, Bool.and_eq_true] at hi
      exact hi.2
  unfold sigOutstanding sigLost
  rw [← List.countP_eq_length_filter]
  generalize s.delta.sigJobs = jobs
  induction jobs with
  | nil => rfl
  | cons j jobs ih =>
    simp only [List.countP_cons, ih, hl]
    cases hd : s.pool.dying j.1 with
    | true => simp [hdying j.1 hd, Nat.add_assoc]
    | false =>
      simp only [Bool.not_false, Bool.and_true, Bool.false_eq_true, if_false]
      omega

/-- A scan that leaves a healthy lane gives back a slot for every request it gives up. -/
theorem outstanding_failoverScan {s : State P H} {order : List Key} {sigOrder : List P}
    {lost lost' : List ℕ} (hsig : sigOrder.Perm s.delta.book.states.keys)
    (hnd : (s.sigLost.map Prod.snd).Nodup) (hw : ∀ j ∈ s.sigLost, s.awaitsSignature j.2 = true)
    (hup : ∃ i, (s.failoverScan order sigOrder lost lost').pool.healthy i = true)
    (h : s.delta.deltaSigInFlight ≤ s.sigOutstanding) :
    (s.failoverScan order sigOrder lost lost').delta.deltaSigInFlight ≤
      (s.failoverScan order sigOrder lost lost').sigOutstanding := by
  obtain ⟨i, hi⟩ := hup
  rw [(failoverScan_links s order sigOrder lost lost').1, Bool.and_eq_true] at hi
  have hlost : i ∉ lost ++ lost' := of_decide_eq_true hi.2
  obtain ⟨hw₁, hl₁⟩ := drainLanes_lanes order (List.range s.pool.length) s
  -- every dying lane is visited
  have hl₁' (j : ℕ) : ((List.range s.pool.length).foldl (drainLane order) s).pool.live j =
      (s.pool.live j && !s.pool.dying j) := by
    rw [hl₁]
    by_cases hj : j < s.pool.length
    · simp [hj]
    · have hnone : s.pool[j]? = none := List.getElem?_eq_none (Nat.le_of_not_lt hj)
      simp [Pool.live, hnone]
  have hsplit := outstanding_split hl₁'
  have hkeys : ∀ f, f ∈ s.delta.book.states → f ∈ sigOrder := fun f hf => hsig.mem_iff.2 hf
  have hle := sigLost_le hkeys hnd hw
  have hone : ((List.range s.pool.length).foldl (drainLane order) s).pool.healthy i = true := by
    have h₁ : OffHash [] s ((List.range s.pool.length).foldl (drainLane order) s) :=
      OffHash.foldl (offHash_drainLane [] order) _ s
    exact h₁.lanes.kept i List.not_mem_nil hi.1
  unfold failoverScan
  extract_lets newlyDown s₁ s₂ s₃ s₄
  have hup₂ : 0 < s₂.pool.healthyConnCount := by
    have hi₂ : s₂.pool.healthy i = true := by
      show (lost.foldl Pool.markConnDown s₁.pool).healthy i = true
      rw [Pool.healthy_markConnsDown, hone]
      simpa using fun hm => hlost (List.mem_append_left _ hm)
    by_contra hzero
    have hnone := Pool.healthyConnCount_eq_zero.1 (Nat.eq_zero_of_not_pos hzero) i
    rw [hi₂] at hnone
    cases hnone
  have hnodup : sigOrder.Nodup := hsig.nodup_iff.2 s.delta.book.states.nodupKeys
  -- the slots given back cover the requests given up
  have hcore : s₃.delta.deltaSigInFlight ≤ s₃.delta.sigJobs.countP fun j => s₃.pool.live j.1 := by
    have hlive₂ (j : ℕ) : s₂.pool.live j = (s.pool.live j && !s.pool.dying j) :=
      (live_markConnsDown lost s₁.pool j).trans (hl₁' j)
    have hjobs₂ : s₂.delta.sigJobs = s.delta.sigJobs := hw₁.jobs
    have hcount₂ : s₂.delta.deltaSigInFlight = s.delta.deltaSigInFlight := hw₁.count
    have hawait₂ : s₂.awaitsSignature = s.awaitsSignature := funext fun f => hw₁.awaits f
    have hout : s₂.delta.sigJobs.countP (fun j => s₂.pool.live j.1) + s.sigLost.length =
        s.sigOutstanding := by
      rw [hsplit, hjobs₂]
      congr 1
      exact List.countP_congr fun j _ => by rw [hlive₂, hl₁']
    cases hd : newlyDown with
    | true =>
      have hs₃ : s₃ = sigOrder.foldl requeueSignature s₂ := if_pos (by simp [hd, hup₂])
      obtain ⟨hp, hj, hc⟩ := requeueSignatures_slots hnodup s₂
      rw [hs₃, hp, hj, hc, hcount₂, hawait₂]
      omega
    | false =>
      have hs₃ : s₃ = s₂ := if_neg (by simp [hd])
      have hnil : s.sigLost = [] := by
        refine List.filter_eq_nil_iff.2 fun j _ hdy => ?_
        obtain ⟨l, hl, hdead⟩ := (Option.any_eq_true _ _).1 hdy
        have hno := List.any_eq_false.1 hd l (List.mem_of_getElem? hl)
        exact hno hdead
      rw [hnil, List.length_nil] at hout
      rw [hs₃, hcount₂]
      omega
  have hfinal : s₄.delta.deltaSigInFlight ≤ s₄.delta.sigJobs.countP fun j => s₄.pool.live j.1 := by
    have hsame : (s₃.delta.sigJobs.countP fun j => s₄.pool.live j.1) =
        s₃.delta.sigJobs.countP fun j => s₃.pool.live j.1 :=
      List.countP_congr fun j _ => by
        show (lost'.foldl Pool.markConnDown s₃.pool).live j.1 = true ↔ _
        rw [live_markConnsDown]
    show s₃.delta.deltaSigInFlight ≤ _
    rw [← hsame] at hcore
    exact hcore
  split
  · exact hfinal
  · exact hfinal

end State

/-! ### Runs -/

/-- A request goes out on a lane that was not failed over. A request on such a lane that is
answered by an error, or given up by a scan that leaves a healthy lane, belongs to a file that
still waits for its signature; and a scan gives up no two requests of one file. -/
def KeepsSlots (s : State P H) : Event P H → Prop
  | .pumpSignatures lane sendOk _ => sendOk = true → s.pool.live lane = true
  | .deltaError k rel => k.2 = 0 → s.pool.live k.1 = true → s.awaitsSignature rel = true
  | .failoverScan order sigOrder lost lost' =>
    (s.failoverScan order sigOrder lost lost').pool.healthyConnCount ≠ 0 →
      (s.sigLost.map Prod.snd).Nodup ∧ ∀ j ∈ s.sigLost, s.awaitsSignature j.2 = true
  | _ => True

instance (s : State P H) (e : Event P H) : Decidable (KeepsSlots s e) := by
  apply Event.casesOn (motive := fun e => Decidable (KeepsSlots s e)) e <;> intros <;>
    dsimp only [KeepsSlots] <;> infer_instance

/-- While a lane is healthy, no more requests are counted than are out. -/
def SlotsCovered (s : State P H) : Prop :=
  (∃ i, s.pool.healthy i = true) → s.delta.deltaSigInFlight ≤ s.sigOutstanding

theorem slotsCovered_step (cfg : Config) {s : State P H} {e : Event P H} (hs : SlotsCovered s)
    (hcan : Can s e) (hk : KeepsSlots s e) : SlotsCovered (exec cfg s e) := by
  intro hup
  have h : s.delta.deltaSigInFlight ≤ s.sigOutstanding := by
    obtain ⟨i, hi⟩ := hup
    exact hs ⟨i, (exec_onward cfg s e).1.fell i hi⟩
  by_cases he : e.apart = true
  · have hapart := apart_exec cfg s he
    rw [hapart.count, outstanding_congr hapart.live hapart.jobs]
    exact h
  cases e with
  | pumpSignatures lane sendOk reached => exact outstanding_pump cfg s hk reached h
  | blockSigResponse conn rel => exact outstanding_blockSigResponse hcan h
  | deltaError k rel => exact outstanding_deltaError hcan hk h
  | failoverScan order sigOrder lost lost' =>
    have hcount : (s.failoverScan order sigOrder lost lost').pool.healthyConnCount ≠ 0 := by
      intro hzero
      obtain ⟨i, hi⟩ := hup
      have hdead := Pool.healthyConnCount_eq_zero.1 hzero i
      rw [show (s.failoverScan order sigOrder lost lost').pool.healthy i = true from hi] at hdead
      cases hdead
    obtain ⟨hnd, hw⟩ := hk hcount
    exact outstanding_failoverScan hcan.2 hnd hw hup h
  | drainCompare old => exact outstanding_drainCompare cfg s old h
  | loopTest =>
    simp only [exec, State.loopTest]
    split <;> exact h
  | manifestEntry | compareFlush | compareTake | comparePublish => exact h
  | _ => exact absurd rfl he

/-- Two lanes, delta files of any size, a window of one signature request. -/
def oneSlot : Config :=
  { twoLanes with
    deltaEnabled := true
    deltaMinSizeBytes := 0
    maxInFlightDeltaSig := 1 }

/-- The manifest lists one file, which becomes a delta file; its signature is asked for on lane 0. -/
def askSignature : List (Event ℕ ℕ) :=
  [.manifestEntry 0 ⟨2, 0⟩, .manifestEnd, .compareFlush, .compareTake,
    .comparePublish 0 fun _ => .transferNow, .drainCompare true, .pumpSignatures 0 true 0]

/-- Lane 0 dies, the request is given up and sent again on lane 1, where it is answered. -/
def askAgain : List (Event ℕ ℕ) :=
  askSignature ++ [.laneDown 0, .failoverScan [] [0] [] [], .pumpSignatures 1 true 0,
    .blockSigResponse 1 0]

/-- Three files, of which the first is asked for on lane 0; the lane dies, and the scan puts the first
behind the others. -/
def askThree : List (Event ℕ ℕ) :=
  [.manifestEntry 0 ⟨2, 0⟩, .manifestEntry 1 ⟨2, 0⟩, .manifestEntry 2 ⟨2, 0⟩, .manifestEnd, .compareFlush,
    .compareTake, .comparePublish 0 fun _ => .transferNow, .drainCompare true, .drainCompare true,
    .drainCompare true, .pumpSignatures 0 true 0, .laneDown 0, .failoverScan [] [0, 1, 2] [] []]

/-- The answer of lane 0 was received before the lane died, and is handled after the second file was asked
for: it gives that file's slot back. The request of the first one goes out on lane 1 all the same, when the
answers for the others are there, and is answered by an error. -/
def answeredTwice : List (Event ℕ ℕ) :=
  askThree ++ [.pumpSignatures 1 true 0, .blockSigResponse 0 0, .pumpSignatures 1 true 0,
    .blockSigResponse 1 1, .blockSigResponse 1 2, .pumpSignatures 1 true 0, .deltaError (1, 0) 0]

end FastClone.Client
