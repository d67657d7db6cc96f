import FastClone.Lib.Schedules
import FastClone.Proof.SequentialReader

/-!
# The sequential reader waits for something

`next` asks the driver for reads when it is called and when it hands a chunk back, and not while it waits. So
a call during which the driver accepts nothing, with nothing in flight from before, waits for ever
(`next_waits_for_nothing`): it does not try again when there is room.

`next_waits_for_a_read`: **if every call that has nothing in flight and nothing at hand gets a read accepted,
a read is outstanding whenever `next` waits**, and as accepted reads are delivered, every call returns.
-/

namespace FastClone.SequentialReader

open FastClone.DiskIo Runs Spans

/-- Chunks are taken in full, and a call with nothing in flight and nothing at hand gets a read accepted. -/
def Fed (s : State) : Event → Prop
  | .call took => s.reader.error = false → s.reader.nextYieldOffset < s.reader.fileSize → s.reader.inFlight = 0 →
      s.reader.waiting = none → 0 < took
  | .yield took => Full s (.yield took)
  | .reap _ => True

instance (s : State) : DecidablePred (Fed s)
  | .call _ => inferInstanceAs (Decidable (_ → _ → _ → _ → _))
  | .yield took => inferInstanceAs (Decidable (Full s (.yield took)))
  | .reap _ => .isTrue trivial

theorem Fed.full {s : State} {e : Event} (h : Fed s e) : Full s e := by
  cases e with
  | call took => trivial
  | yield took => exact h
  | reap done => trivial

/-! ### The upper end of the window -/

/-- A read that is accepted moves the end of what is submitted. -/
theorem Reader.nextSubmit_refill {r : Reader} (hchunk : 0 < r.chunk) (hsub : r.nextSubmitOffset ≤ r.fileSize)
    {took : ℕ} (htook : took ≤ r.plan.1.length) :
    r.nextSubmitOffset ≤ (r.refill took).nextSubmitOffset ∧
      (0 < took → r.nextSubmitOffset < (r.refill took).nextSubmitOffset) := by
  obtain ⟨htile, -⟩ := Reader.planLoop_spec hchunk _ _ took hsub htook
  unfold Reader.refill
  by_cases hempty : r.plan.1 = []
  · rw [if_pos hempty]
    rw [hempty, List.length_nil] at htook
    exact ⟨le_rfl, fun hpos => by omega⟩
  · rw [if_neg hempty]
    refine ⟨htile.le, fun hpos => ?_⟩
    -- the first accepted read is not empty
    have htaken : (r.plan.1.take took).length = took := by
      rw [List.length_take]
      omega
    cases hlist : r.plan.1.take took with
    | nil =>
      rw [hlist, List.length_nil] at htaken
      omega
    | cons q rest =>
      have hcut : (r.planLoop (r.readAhead - r.inFlight) r.nextSubmitOffset).1.take took = q :: rest := hlist
      rw [hcut] at htile
      obtain ⟨-, hlen, hrest⟩ := htile
      have hle := hrest.le
      show r.nextSubmitOffset < ((r.plan.1[took]?.map IoRequest.offset).getD r.plan.2)
      exact lt_of_lt_of_le (Nat.lt_add_of_pos_right hlen) hle

theorem deliver_nextSubmit (done : List (IoRequest × IoResult)) (s : State) :
    (done.foldl State.deliver s).reader.nextSubmitOffset = s.reader.nextSubmitOffset := by
  induction done generalizing s with
  | nil => rfl
  | cons d done ih => exact ih (s.deliver d)

/-- A window in which nothing is in flight and nothing waits is empty. -/
theorem Live.idle {s : State} (h : Live s) (hflight : s.reader.inFlight = 0) (hc : s.reader.waiting = none) :
    s.reader.nextYieldOffset = s.reader.nextSubmitOffset := by
  have hle := h.fills.le
  by_contra hne
  have hout := h.outstanding_ne_nil (by omega) hc
  rw [h.inFlight] at hflight
  exact hout (List.eq_nil_of_length_eq_zero hflight)

/-! ### What `next` waits for -/

/-- While `next` is called, something is submitted and not handed back. -/
def Ahead (s : State) : Prop := s.inNext = true → s.reader.nextYieldOffset < s.reader.nextSubmitOffset

theorem Ahead.call {fileSize : ℕ} {s : State} (h : Inv fileSize s) {took : ℕ} (htook : took ≤ s.reader.plan.1.length)
    (hfed : Fed s (.call took)) : Ahead (s.call took) := by
  unfold State.call
  by_cases herr : s.reader.error = true
  · rw [if_pos herr]
    exact nofun
  rw [if_neg herr]
  by_cases hend : s.reader.nextYieldOffset ≥ s.reader.fileSize
  · rw [if_pos hend]
    exact nofun
  rw [if_neg hend]
  intro _
  have hsound : s.reader.error = false := Bool.eq_false_iff.2 herr
  have hlive := h.live hsound
  have hle := hlive.fills.le
  obtain ⟨hgrow, hmore⟩ := Reader.nextSubmit_refill h.chunk hlive.submitted htook
  obtain ⟨-, -, hyield, -⟩ := s.reader.refill_keeps took
  show (s.reader.refill took).nextYieldOffset < (s.reader.refill took).nextSubmitOffset
  rw [hyield]
  by_cases hempty : s.reader.inFlight = 0 ∧ s.reader.waiting = none
  · -- the window was empty: the call gets a read accepted
    have hpos := hfed hsound (by omega) hempty.1 hempty.2
    have := hmore hpos
    omega
  · have hahead : s.reader.nextYieldOffset < s.reader.nextSubmitOffset := by
      by_contra hclosed
      have heq : s.reader.nextYieldOffset = s.reader.nextSubmitOffset := by omega
      have hfills := hlive.fills
      rw [heq] at hfills
      have hnil : s.window = [] := hfills.eq_nil
      unfold State.window at hnil
      obtain ⟨hout, hre⟩ := List.append_eq_nil_iff.1 hnil
      apply hempty
      constructor
      · rw [hlive.inFlight, List.map_eq_nil_iff.1 hout, List.length_nil]
      · unfold Reader.waiting
        rw [List.map_eq_nil_iff.1 hre]
        rfl
    omega

theorem reach_ahead {cfg : Config} {s : State} (h : (machine cfg).Reach Fed s) : Inv cfg.fileSize s ∧ Ahead s := by
  induction h with
  | init => exact ⟨Inv.init cfg, fun h => absurd h Bool.false_ne_true⟩
  | step hreach hc hok ih =>
    rename_i s e
    have hfull : (machine cfg).Reach Full s := hreach.mono fun _ _ hf => hf.full
    refine ⟨reach_inv (hfull.step hc hok.full), ?_⟩
    cases e with
    | call took => exact Ahead.call ih.1 hc.2 hok
    | yield took =>
      obtain ⟨c, hwait⟩ := Option.isSome_iff_exists.1 hc.2.1
      show Ahead (Event.exec s (.yield took))
      rw [exec_yield hwait]
      unfold State.yield
      split <;> exact fun h => absurd h Bool.false_ne_true
    | reap done =>
      obtain ⟨-, -, hyield, -⟩ := deliver_foldl done s
      have hsubmit := deliver_nextSubmit done s
      show Ahead (s.reap done)
      unfold State.reap
      dsimp only
      split
      · exact fun h => absurd h Bool.false_ne_true
      · intro _
        rw [hyield, hsubmit]
        exact ih.2 hc.1

/-- Whenever `next` waits, a read is outstanding. -/
theorem outstanding_of_waiting {cfg : Config} {s : State} (h : (machine cfg).Reach Fed s) (hin : s.inNext = true)
    (hc : s.reader.waiting = none) : s.outstanding ≠ [] := by
  obtain ⟨hinv, hahead⟩ := reach_ahead h
  exact (hinv.live (hinv.waits hin).1).outstanding_ne_nil (hahead hin) hc

/-! ### A call returns -/

/-- `next` goes on with its loop while it is called, and what is outstanding is delivered. -/
structure Answered (st : ℕ → State) (ev : ℕ → Option Event) : Prop where
  turns : ∀ k, (st k).inNext = true → ∃ m, k ≤ m ∧ ev m ≠ none
  completes : ∀ k, (st k).inNext = true → ∀ q ∈ (st k).outstanding,
    ∃ m, k ≤ m ∧ ((st m).inNext = false ∨ q ∉ (st m).outstanding)

theorem outstanding_deliver (done : List (IoRequest × IoResult)) (s : State) :
    (done.foldl State.deliver s).outstanding.Sublist s.outstanding := by
  induction done generalizing s with
  | nil => exact List.Sublist.refl _
  | cons d done ih => exact (ih (s.deliver d)).trans List.erase_sublist

/-- A turn of the loop returns, or at most takes from what is outstanding. -/
theorem outstanding_turn {cfg : Config} {s : State} {e : Event} (hc : (machine cfg).can s e) (hin : s.inNext = true) :
    ((machine cfg).next s e).inNext = false ∨ ((machine cfg).next s e).outstanding.Sublist s.outstanding := by
  cases e with
  | call took =>
    have hidle := hc.1
    rw [hin] at hidle
    cases hidle
  | yield took =>
    left
    obtain ⟨c, hwait⟩ := Option.isSome_iff_exists.1 hc.2.1
    show (Event.exec s (.yield took)).inNext = false
    rw [exec_yield hwait]
    unfold State.yield
    split <;> rfl
  | reap done =>
    right
    have hsub := outstanding_deliver done s
    show (s.reap done).outstanding.Sublist s.outstanding
    unfold State.reap
    dsimp only
    split
    · exact hsub
    · exact hsub

/-- Along a schedule in which no call returns, what is outstanding only shrinks. -/
theorem outstanding_shrinks {cfg : Config} {ok : State → Event → Prop} {st : ℕ → State} {ev : ℕ → Option Event}
    (h : (machine cfg).Schedule ok st ev) {k : ℕ} (hin : ∀ m, k ≤ m → (st m).inNext = true) {m : ℕ} (hkm : k ≤ m) :
    (st m).outstanding.Sublist (st k).outstanding := by
  induction hkm with
  | refl => exact List.Sublist.refl _
  | @step j hkj ih =>
    cases he : ev j with
    | none =>
      rw [h.pause j he]
      exact ih
    | some e =>
      obtain ⟨hc, -, hnext⟩ := h.step j e he
      have hstill := hin (j + 1) (Nat.le_succ_of_le hkj)
      rw [hnext] at hstill ⊢
      rcases outstanding_turn hc (hin j hkj) with hleft | hsub
      · rw [hstill] at hleft
        nomatch hleft
      · exact hsub.trans ih

/-- Every call returns. -/
theorem next_returns {cfg : Config} {st : ℕ → State} {ev : ℕ → Option Event}
    (h : (machine cfg).Schedule Fed st ev) (hans : Answered st ev) (k : ℕ) :
    ∃ m, k ≤ m ∧ (st m).inNext = false := by
  by_contra hnever
  have hstays : ∀ m, k ≤ m → (st m).inNext = true := by
    intro m hkm
    cases hm : (st m).inNext with
    | true => rfl
    | false => exact absurd ⟨m, hkm, hm⟩ hnever
  -- the outstanding reads are delivered one after the other
  obtain ⟨m, hkm, hempty⟩ := eventually_zero (μ := fun j => (st j).outstanding.length) (n := k) (by
    intro j hj hpos
    obtain ⟨q, hq⟩ := List.exists_mem_of_length_pos hpos
    obtain ⟨m, hjm, hm⟩ := hans.completes j (hstays j hj) q hq
    have hsub := outstanding_shrinks h (fun i hi => hstays i (le_trans hj hi)) hjm
    refine ⟨m, hjm, lt_of_le_of_ne hsub.length_le fun heq => ?_⟩
    rcases hm with hm | hm
    · rw [hstays m (le_trans hj hjm)] at hm
      cases hm
    · rw [hsub.eq_of_length heq] at hm
      exact hm hq)
  have hnone : (st m).outstanding = [] := List.eq_nil_of_length_eq_zero hempty
  have hwait : (st m).reader.waiting ≠ none :=
    fun hc => outstanding_of_waiting (h.reach m) (hstays m hkm) hc hnone
  -- so the next turn finds the chunk and hands it back
  obtain ⟨j, e, hmj, he, hst⟩ := h.next_event (hans.turns m (hstays m hkm))
  obtain ⟨hc, -, hnext⟩ := h.step j e he
  have hjin := hstays j (le_trans hkm hmj)
  have hstill := hstays (j + 1) (by omega)
  rw [hst] at hc hnext
  cases e with
  | call took =>
    have hidle := hc.1
    rw [← hst, hjin] at hidle
    cases hidle
  | yield took =>
    rw [hnext] at hstill
    obtain ⟨c, hw⟩ := Option.isSome_iff_exists.1 hc.2.1
    have hleft : ((machine cfg).next (st m) (.yield took)).inNext = false := by
      show (Event.exec (st m) (.yield took)).inNext = false
      rw [exec_yield hw]
      unfold State.yield
      split <;> rfl
    rw [hleft] at hstill
    cases hstill
  | reap done => exact hwait hc.2.1

/-- **Something to wait for.** In every run in which every chunk that is taken is an error, an end of file or
read in full, and every call that has nothing in flight and nothing at hand gets a read accepted: whenever
`next` waits, a read is outstanding; and along every schedule in which outstanding reads are delivered, every
call returns. -/
theorem next_waits_for_a_read (cfg : Config) :
    (∀ s, (machine cfg).Reach Fed s → s.inNext = true → s.reader.waiting = none → s.outstanding ≠ []) ∧
    ∀ st ev, (machine cfg).Schedule Fed st ev → Answered st ev →
      ∀ k, (st k).inNext = true → ∃ m, k ≤ m ∧ (st m).inNext = false :=
  ⟨fun _ h hin hc => outstanding_of_waiting h hin hc, fun _ _ h hans k _ => next_returns h hans k⟩

/-- Two accepted reads to wait for. -/
theorem next_waits_for_two : ((machine twoChunks).run (machine twoChunks).init [.call 2]).outstanding ≠ [] :=
  (next_waits_for_a_read twoChunks).1 _ (Machine.reach_run (by decide)) rfl rfl

/-- The first call, while the queue of the driver is full. -/
def queueFull : List Event := [.call 0]

/-- From there on nothing happens but turns that find nothing. -/
theorem queueFull_stays {ok : State → Event → Prop} {es : List Event}
    (hes : (machine twoChunks).Allows ok ((machine twoChunks).run (machine twoChunks).init queueFull) es) :
    (machine twoChunks).run ((machine twoChunks).run (machine twoChunks).init queueFull) es =
      (machine twoChunks).run (machine twoChunks).init queueFull := by
  induction es with
  | nil => rfl
  | cons e es ih =>
    obtain ⟨hc, -, hrest⟩ := hes
    have hsame : (machine twoChunks).next ((machine twoChunks).run (machine twoChunks).init queueFull) e =
        (machine twoChunks).run (machine twoChunks).init queueFull := by
      cases e with
      | call took => nomatch hc.1
      | yield took => nomatch hc.2.1
      | reap done =>
        cases done with
        | nil => rfl
        | cons d done => nomatch hc.2.2.1
    rw [hsame] at hrest
    show (machine twoChunks).run ((machine twoChunks).next _ e) es = _
    rw [hsame]
    exact ih hrest

/-- A call that finds the queue full waits for ever: nothing is in flight and nothing is submitted any more,
whatever happens next. -/
theorem next_waits_for_nothing :
    let s := (machine twoChunks).run (machine twoChunks).init queueFull
    (machine twoChunks).Reach (fun _ _ => True) s ∧ s.inNext = true ∧ s.outstanding = [] ∧
      ∀ es, (machine twoChunks).Allows (fun _ _ => True) s es → (machine twoChunks).run s es = s :=
  ⟨Machine.reach_run (by decide), rfl, rfl, fun _ hes => queueFull_stays hes⟩

end FastClone.SequentialReader
