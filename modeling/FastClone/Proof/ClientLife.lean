import FastClone.Proof.ClientStreams
import FastClone.Spec.FileLife

/-!
# The client moves files as `FileLife` says: functions of the main loop

`State.life s f` is the life of the file `f` as the state `s` has it. Every function of the
main loop either leaves it as it is or makes a move: it takes the file from somewhere and
puts it where it goes next (`Puts`).
-/

set_option linter.unusedSectionVars false

namespace FastClone.Client

open FileLife

variable {P H : Type} [DecidableEq P]

namespace State

/-- The life of a file in a state of the client. -/
def life (s : State P H) (f : P) : Life where
  comparing := s.compare.held f
  held := s.hash.held f + s.delta.book.held f + s.range.book.held f
  out := s.xfer.held f + s.streams.held f + s.io.held f
  asked := decide (f ∈ s.hash.hashRequested)
  scheduled := decide (f ∈ s.xfer.scheduledTransfers)
  known := decide (f ∈ s.remoteFiles)
  strays := s.xfer.strays

/-- The file that was in hand is put somewhere, and no other file is touched. -/
structure Puts (s s' : State P H) (rel : P) : Prop where
  here : Gives (s.life rel) (s'.life rel)
  others : ∀ f, f ≠ rel → s'.life f = s.life f

/-! ### Files that are out -/

theorem life_xfer (s : State P H) (x : Transfers P) (f : P) {n : ℕ}
    (hs : x.scheduledTransfers = s.xfer.scheduledTransfers) (hh : x.held f = s.xfer.held f + n)
    (hst : x.strays = s.xfer.strays) :
    { s with xfer := x }.life f = (s.life f).addOut n := by
  apply Life.ext
  · rfl
  · rfl
  · simp only [life, Life.addOut, hh]
    omega
  · rfl
  · simp only [life, Life.addOut, hs]
  · rfl
  · exact hst

theorem life_retryOrFail (s : State P H) (rel f : P) :
    (s.retryOrFail rel).life f = (s.life f).addOut (if rel = f then 1 else 0) :=
  s.life_xfer _ f (Transfers.scheduled_retryOrFail _ _ _) (Transfers.held_retryOrFail _ _ _ _)
    (Transfers.strays_retryOrFail _ _ _)

theorem life_count (s : State P H) (rel : P) (o : Outcome) (f : P) :
    (s.count (some rel) o).life f = (s.life f).addOut (if rel = f then 1 else 0) :=
  s.life_xfer _ f rfl (Transfers.held_count _ _ _ _) (Transfers.strays_count _ _ _)

theorem life_count_none (s : State P H) (o : Outcome) (f : P) :
    (s.count none o).life f = { s.life f with strays := (s.life f).strays + 1 } := by
  apply Life.ext
  · rfl
  · rfl
  · simp only [life, count, Transfers.held_count_none]
  · rfl
  · rfl
  · rfl
  · exact Transfers.strays_count_none s.xfer o

theorem life_countTransferred (s : State P H) (rel f : P) :
    (s.countTransferred rel).life f = (s.life f).addOut (if rel = f then 1 else 0) :=
  s.life_xfer _ f rfl (Transfers.held_count s.xfer rel .transferred f)
    (Transfers.strays_count s.xfer rel .transferred)

theorem life_applyOut (s : State P H) (o : BatchOut P) (f : P) :
    (s.applyOut o).life f = (s.life f).addOut (if o.rel = f then 1 else 0) := by
  cases o with
  | write task =>
    apply Life.ext
    · rfl
    · rfl
    · have h := IoPool.held_dispatch s.io task f
      simp only [applyOut, life, Life.addOut, h]
      exact (Nat.add_assoc _ _ _).symm
    · rfl
    · rfl
    · rfl
    · rfl
  | fail rel =>
    exact s.life_xfer _ f rfl (Transfers.held_count s.xfer rel .failed f)
      (Transfers.strays_count s.xfer rel .failed)
  | retry rel => exact s.life_retryOrFail rel f

/-- The requests of a batch handler put every file they name out. -/
theorem life_applyOuts (s : State P H) (outs : List (BatchOut P)) (f : P) :
    (s.applyOuts outs).life f = (s.life f).addOut (outsHeld outs f) := by
  unfold applyOuts
  induction outs generalizing s with
  | nil => rfl
  | cons o outs ih =>
    rw [List.foldl_cons, ih, life_applyOut, Life.addOut_addOut]
    simp only [outsHeld, List.map_cons, List.count_cons, beq_iff_eq]
    congr 1
    omega

theorem life_retryAll (s : State P H) (paths : List P) (f : P) :
    (paths.foldl retryOrFail s).life f = (s.life f).addOut (paths.count f) := by
  induction paths generalizing s with
  | nil => rfl
  | cons rel paths ih =>
    rw [List.foldl_cons, ih, life_retryOrFail, Life.addOut_addOut]
    simp only [List.count_cons, beq_iff_eq]
    congr 1
    omega

/-! ### Streams -/

theorem life_streams (s : State P H) (t : Streams P) (pool : Pool) (f : P) {m n : ℕ}
    (h : t.held f + m = s.streams.held f + n) :
    ({ s with
        streams := t
        pool := pool }.life f).addOut m = (s.life f).addOut n := by
  apply Life.ext
  · rfl
  · rfl
  · simp only [life, Life.addOut]
    omega
  · rfl
  · rfl
  · rfl
  · rfl

/-- A closed stream hands back what it held. -/
theorem life_close {s : State P H} {k : Key} {st : Stream P} (h : s.streams.find k = some st)
    (pool : Pool) (f : P) :
    s.life f = ({ s with
      streams := s.streams.close k
      pool := pool }.life f).addOut (st.held f) := by
  have h' := s.life_streams (s.streams.close k) pool f (m := st.held f) (n := 0)
    (by rw [Nat.add_zero]; exact (Streams.held_close h f).symm)
  rw [h']
  rfl

theorem life_closeStream {s : State P H} {k : Key} {st : Stream P} (h : s.streams.find k = some st)
    (f : P) : s.life f = ((s.closeStream k).life f).addOut (st.held f) :=
  life_close h _ f

theorem life_update {s : State P H} {k : Key} {st : Stream P} (h : s.streams.find k = some st)
    (st' : Stream P) (f : P) :
    ({ s with streams := s.streams.update k st' }.life f).addOut (st.held f) =
      (s.life f).addOut (st'.held f) :=
  s.life_streams (s.streams.update k st') s.pool f (Streams.held_update h st' f)

/-- A stream update that holds the same files changes no life. -/
theorem life_update_same {s : State P H} {k : Key} {st st' : Stream P}
    (h : s.streams.find k = some st) (f : P) (hh : st'.held f = st.held f) :
    { s with streams := s.streams.update k st' }.life f = s.life f := by
  have h' := life_update h st' f
  rw [hh] at h'
  exact Life.addOut_inj h'

theorem life_unknownStream (s : State P H) (conn : ℕ) (what : String) (f : P) :
    (s.unknownStream conn what).life f = s.life f := by
  unfold unknownStream
  split <;> rfl

theorem life_lanesDown (s : State P H) (lanes : List ℕ) (f : P) :
    (s.lanesDown lanes).life f = s.life f := rfl

/-! ### Admission -/

/-- A file that becomes a block file: it is managed, and its plan is to be asked for. -/
theorem tryEnterFileRange_eq_some {cfg : Config} {s s' : State P H} {rel : P}
    (h : s.tryEnterFileRange cfg rel = some s') :
    ∃ book, s.range.book.manage rel ((s.size rel).getD 0) = some book ∧
      s' = { s with range :=
        { book := book, pendingFileRangePlans := s.range.pendingFileRangePlans ++ [rel] } } := by
  unfold tryEnterFileRange at h
  split at h
  · obtain ⟨book, hbook, rfl⟩ := Option.map_eq_some_iff.1 h
    exact ⟨book, hbook, rfl⟩
  · cases h

/-- A file that becomes a delta file: its signature was not asked for before, and is to be now. -/
theorem tryEnterDelta_eq_some {cfg : Config} {s s' : State P H} {rel : P} {old : Bool}
    (h : s.tryEnterDelta cfg rel old = some s') :
    rel ∉ s.delta.deltaSigRequested ∧
      ∃ book, s.delta.book.manage rel ((s.size rel).getD 0) = some book ∧
        s' = { s with delta := { s.delta with
          book := book, pendingDeltaSigRequests := s.delta.pendingDeltaSigRequests ++ [rel] } } := by
  unfold tryEnterDelta at h
  split at h
  · rename_i hcond
    simp only [Bool.and_eq_true, decide_eq_true_eq] at hcond
    obtain ⟨book, hbook, rfl⟩ := Option.map_eq_some_iff.1 h
    exact ⟨hcond.1.1.2, book, hbook, rfl⟩
  · cases h

theorem life_scheduleTransfer (s : State P H) (rel f : P) :
    (s.scheduleTransfer rel).life f = if rel = f then (s.life f).schedule else s.life f := by
  by_cases h : rel = f
  · subst h
    simp only [if_true]
    apply Life.ext
    · rfl
    · rfl
    · simp only [life, scheduleTransfer, Life.schedule, Transfers.held_scheduleTransfer, true_and,
        decide_eq_true_eq]
      by_cases hs : rel ∈ s.xfer.scheduledTransfers
      · simp [hs]
      · simp only [hs, not_false_eq_true, if_true, if_false]
        omega
    · rfl
    · simp [life, scheduleTransfer, Life.schedule, Transfers.scheduled_scheduleTransfer]
    · rfl
    · exact Transfers.strays_scheduleTransfer _ _ _
  · simp only [h, if_false]
    have h' : ¬ f = rel := fun e => h e.symm
    apply Life.ext
    · rfl
    · rfl
    · simp [life, scheduleTransfer, Transfers.held_scheduleTransfer, h]
    · rfl
    · simp [life, scheduleTransfer, Transfers.scheduled_scheduleTransfer, h']
    · rfl
    · exact Transfers.strays_scheduleTransfer _ _ _

theorem puts_scheduleTransfer (s : State P H) (rel : P) : Puts s (s.scheduleTransfer rel) rel where
  here := by
    rw [life_scheduleTransfer, if_pos rfl]
    exact .schedule _
  others := fun f hf => by rw [life_scheduleTransfer, if_neg (Ne.symm hf)]

/-- What adds one to the counters puts the file out. -/
theorem puts_of_addOut {s s' : State P H} {rel : P}
    (h : ∀ f, s'.life f = (s.life f).addOut (if rel = f then 1 else 0)) : Puts s s' rel where
  here := by
    rw [h, if_pos rfl]
    exact .out _
  others := fun f hf => by rw [h, if_neg (Ne.symm hf), Life.addOut_zero]

/-- What manages one more file holds it back. -/
theorem puts_of_hold {s s' : State P H} {rel : P}
    (h : ∀ f, s'.life f = if rel = f then (s.life f).addHeld 1 else s.life f) : Puts s s' rel where
  here := by
    rw [h, if_pos rfl]
    exact .hold _
  others := fun f hf => by rw [h, if_neg (Ne.symm hf)]

/-- The same, with the counts: all else stays. -/
theorem puts_of_held {s s' : State P H} {rel : P}
    (hheld : ∀ f, (s'.life f).held = (s.life f).held + if rel = f then 1 else 0)
    (hrest : ∀ f, { s'.life f with held := (s.life f).held } = s.life f) : Puts s s' rel := by
  refine puts_of_hold fun f => ?_
  have hlife : s'.life f = { s.life f with held := (s'.life f).held } := by
    rw [← hrest f]
  rw [hlife, hheld f]
  by_cases hf : rel = f
  · rw [if_pos hf, if_pos hf]
    rfl
  · rw [if_neg hf, if_neg hf]
    rfl

theorem puts_tryEnterFileRange {cfg : Config} {s s' : State P H} {rel : P}
    (h : s.tryEnterFileRange cfg rel = some s') : Puts s s' rel := by
  obtain ⟨book, hb, rfl⟩ := tryEnterFileRange_eq_some h
  refine puts_of_held (fun f => ?_) fun f => rfl
  have hheld := RangeBook.held_manage hb f
  simp only [life, hheld]
  omega

theorem puts_tryEnterDelta {cfg : Config} {s s' : State P H} {rel : P} {old : Bool}
    (h : s.tryEnterDelta cfg rel old = some s') : Puts s s' rel := by
  obtain ⟨-, book, hb, rfl⟩ := tryEnterDelta_eq_some h
  refine puts_of_held (fun f => ?_) fun f => rfl
  have hheld := RangeBook.held_manage hb f
  simp only [life, hheld]
  omega

theorem puts_enterFileRangeOrSchedule (cfg : Config) (s : State P H) (rel : P) :
    Puts s (s.enterFileRangeOrSchedule cfg rel) rel := by
  unfold enterFileRangeOrSchedule
  cases h : s.tryEnterFileRange cfg rel with
  | none => exact s.puts_scheduleTransfer rel
  | some s' => exact puts_tryEnterFileRange h

theorem puts_enterOrSchedule (cfg : Config) (s : State P H) (rel : P) (old : Bool) :
    Puts s (s.enterOrSchedule cfg rel old) rel := by
  unfold enterOrSchedule
  cases h : s.tryEnterDelta cfg rel old with
  | none => exact s.puts_enterFileRangeOrSchedule cfg rel
  | some s' => exact puts_tryEnterDelta h

/-! ### Moves -/

variable {clean : Bool}

/-- A file taken from the compare stage and put somewhere has moved. -/
theorem moves_compared {s s₁ s' : State P H} {rel : P} (hp : Puts s₁ s' rel)
    (h : ∀ f, s.life f = (s₁.life f).addComparing (if rel = f then 1 else 0)) (f : P) :
    Moves clean (s.life f) (s'.life f) := by
  by_cases hf : f = rel
  · subst hf
    rw [h, if_pos rfl]
    exact .single (.compared hp.here)
  · rw [hp.others f hf, h f, if_neg (Ne.symm hf)]
    exact .refl

/-- A file that was held back and is put somewhere has moved. -/
theorem moves_released {s s₁ s' : State P H} {rel : P} (hp : Puts s₁ s' rel)
    (h : ∀ f, s.life f = (s₁.life f).addHeld (if rel = f then 1 else 0)) (f : P) :
    Moves clean (s.life f) (s'.life f) := by
  by_cases hf : f = rel
  · subst hf
    rw [h, if_pos rfl]
    exact .single (.released hp.here)
  · rw [hp.others f hf, h f, if_neg (Ne.symm hf)]
    exact .refl

theorem moves_of_eq {v w : Life} (h : w = v) : Moves clean v w := by
  rw [h]

/-! ### Compare and hash stages -/

theorem moves_manifestEntry (cfg : Config) (s : State P H) (rel : P) (e : FileEntry)
    (hc : clean = true → rel ∉ s.remoteFiles) (f : P) :
    Moves clean (s.life f) ((s.manifestEntry cfg rel e).life f) := by
  by_cases hf : rel = f
  · subst hf
    have h : (s.manifestEntry cfg rel e).life rel =
        { (s.life rel).addComparing 1 with known := true } := by
      apply Life.ext
      · simp [manifestEntry, life, Life.addComparing, CompareStage.held_offer]
      · rfl
      · rfl
      · rfl
      · rfl
      · simp [manifestEntry, life]
      · rfl
    rw [h]
    exact .single (.listed _ fun h => by simp [life, hc h])
  · apply moves_of_eq
    have hf' : ¬ f = rel := fun e => hf e.symm
    apply Life.ext
    · simp [manifestEntry, life, CompareStage.held_offer, hf]
    · rfl
    · rfl
    · rfl
    · rfl
    · simp [manifestEntry, life, hf']
    · rfl

theorem moves_drainCompare (cfg : Config) (s : State P H) (old : Bool) (f : P) :
    Moves clean (s.life f) ((s.drainCompare cfg old).life f) := by
  unfold drainCompare
  cases h : s.compare.drainOne with
  | none => exact .refl
  | some rc =>
    obtain ⟨⟨rel, action⟩, c⟩ := rc
    have hd : ∀ g, s.life g =
        ({ s with compare := c }.life g).addComparing (if rel = g then 1 else 0) := by
      intro g
      have := CompareStage.held_drainOne h g
      simp only [life, Life.addComparing, this]
    cases action with
    | transferNow => exact moves_compared (puts_enterOrSchedule cfg _ rel old) hd f
    | skip => exact moves_compared (puts_of_addOut fun g => life_count _ rel _ g) hd f
    | needHash =>
      simp only [handleCompareResult]
      rw [hd f]
      by_cases hf : rel = f
      · subst hf
        rw [if_pos rfl]
        by_cases hr : rel ∈ s.hash.hashRequested
        · -- the hash was asked for before: the entry is dropped
          rw [HashStage.request_again hr]
          exact .single (.asksAgain _ (by simp [life, hr]))
        · have h1 : { s with
              compare := c
              hash := s.hash.request rel }.life rel =
                { ({ s with compare := c }.life rel).addHeld 1 with asked := true } := by
            apply Life.ext
            · rfl
            · simp only [life, Life.addHeld, HashStage.held_request hr, if_true]
              omega
            · rfl
            · simp [life, HashStage.request, hr]
            · rfl
            · rfl
            · rfl
          exact h1 ▸ .single (.asks _ (by simp [life, hr]))
      · rw [if_neg hf]
        apply moves_of_eq
        have hf' : ¬ f = rel := fun e => hf e.symm
        by_cases hr : rel ∈ s.hash.hashRequested
        · rw [HashStage.request_again hr]
          rfl
        · apply Life.ext
          · rfl
          · simp [life, Life.addComparing, HashStage.held_request hr, hf]
          · rfl
          · simp [life, Life.addComparing, HashStage.request, hr, hf']
          · rfl
          · rfl
          · rfl

theorem life_hash {s : State P H} {h : HashStage P H} (hs : HashStage.Same s.hash h) (f : P) :
    { s with hash := h }.life f = s.life f := by
  simp only [life, hs.held, hs.requested]

theorem life_dispatchHashRequests (cfg : Config) (s : State P H) (lane reached : ℕ) (ok : Bool)
    (f : P) : (s.dispatchHashRequests cfg lane ok reached).life f = s.life f := by
  unfold dispatchHashRequests
  split
  · rfl
  · split
    · exact life_hash (HashStage.same_dispatch _ _ _ _) f
    · exact life_hash (s := s) (HashStage.same_dispatch _ _ _ _) f

/-- Marking a waiting file resolved lets it go. -/
theorem life_resolve {s : State P H} {rel : P} (hr : rel ∈ s.hash.hashRequested)
    (hn : rel ∉ s.hash.hashResolved) (f : P) :
    s.life f =
      ({ s with hash := s.hash.resolve rel }.life f).addHeld (if rel = f then 1 else 0) := by
  have h := HashStage.held_resolve hr hn f
  apply Life.ext
  · rfl
  · simp only [life, Life.addHeld, h]
    omega
  · rfl
  · simp only [life, Life.addHeld, HashStage.resolve_requested]
  · rfl
  · rfl
  · rfl

/-- Admission does not look at the hash stage. -/
theorem enterOrSchedule_hash (cfg : Config) (s : State P H) (rel : P) (old : Bool)
    (h : HashStage P H) :
    { s with hash := h }.enterOrSchedule cfg rel old =
      { s.enterOrSchedule cfg rel old with hash := h } := by
  have hs : State.size { s with hash := h } = s.size := rfl
  simp only [enterOrSchedule, enterFileRangeOrSchedule, tryEnterDelta, tryEnterFileRange, hs]
  split
  · cases s.delta.book.manage rel ((s.size rel).getD 0) with
    | some b => rfl
    | none =>
      split
      · cases s.range.book.manage rel ((s.size rel).getD 0) <;> rfl
      · rfl
  · split
    · cases s.range.book.manage rel ((s.size rel).getD 0) <;> rfl
    · rfl

theorem hash_enterOrSchedule (cfg : Config) (s : State P H) (rel : P) (old : Bool) :
    (s.enterOrSchedule cfg rel old).hash = s.hash := by
  have h := congrArg State.hash (s.enterOrSchedule_hash cfg rel old s.hash)
  exact h

section

variable [DecidableEq H]

/-- A candidate whose hashes are there leaves the hash stage, and is admitted or counted; any
other is left alone. -/
theorem resolveCandidate_eq (cfg : Config) (s : State P H) (rel : P) (old : Bool) :
    s.resolveCandidate cfg rel old = s ∨
      (rel ∈ s.hash.hashRequested ∧ rel ∉ s.hash.hashResolved ∧
        (s.resolveCandidate cfg rel old =
            { s with hash := s.hash.resolve rel }.enterOrSchedule cfg rel old ∨
          s.resolveCandidate cfg rel old =
            { s with hash := s.hash.resolve rel }.count (some rel) .unchanged)) := by
  unfold resolveCandidate
  split
  · exact .inl rfl
  · rename_i hn
    split
    · exact .inl rfl
    · rename_i remote hrem
      split
      · exact .inl rfl
      · rename_i hl
        have hr : rel ∈ s.hash.hashRequested := by
          by_cases hlh : s.hash.localHashes rel = none
          · exact s.hash.failed_sub (by_contra fun hf => hl ⟨hlh, hf⟩)
          · exact s.hash.hashes_sub rel hlh
        refine .inr ⟨hr, hn, ?_⟩
        dsimp only
        split
        · have hh := hash_enterOrSchedule cfg s rel old
          have hs := congrArg (fun h => { s.enterOrSchedule cfg rel old with hash := h.resolve rel }) hh
          exact .inl (hs.trans (s.enterOrSchedule_hash cfg rel old (s.hash.resolve rel)).symm)
        · exact .inr rfl

/-- A candidate that leaves the hash stage is put somewhere. -/
theorem resolveCandidate_cases (cfg : Config) (s : State P H) (rel : P) (old : Bool) :
    s.resolveCandidate cfg rel old = s ∨
      (rel ∈ s.hash.hashRequested ∧ rel ∉ s.hash.hashResolved ∧
        (s.resolveCandidate cfg rel old).hash = s.hash.resolve rel ∧
        Puts { s with hash := s.hash.resolve rel } (s.resolveCandidate cfg rel old) rel) := by
  rcases s.resolveCandidate_eq cfg rel old with h | ⟨hr, hn, h | h⟩
  · exact .inl h
  · rw [h]
    exact .inr ⟨hr, hn, hash_enterOrSchedule cfg _ rel old, puts_enterOrSchedule cfg _ rel old⟩
  · rw [h]
    exact .inr ⟨hr, hn, rfl, puts_of_addOut fun g => life_count _ rel .unchanged g⟩

theorem moves_resolveCandidate (cfg : Config) (s : State P H) (rel : P) (old : Bool) (f : P) :
    Moves clean (s.life f) ((s.resolveCandidate cfg rel old).life f) := by
  rcases s.resolveCandidate_cases cfg rel old with h | ⟨hr, hn, -, hp⟩
  · rw [h]
  · exact moves_released hp (life_resolve hr hn) f

theorem life_readyQueue (s : State P H) (q : List P) (f : P) :
    { s with hash := { s.hash with fallbackReadyQueue := q } }.life f = s.life f := rfl

theorem moves_resolveFallback (cfg : Config) (s : State P H) (old : Bool) (f : P) :
    Moves clean (s.life f) ((s.resolveFallback cfg old).life f) := by
  unfold resolveFallback
  split
  · exact .refl
  · rename_i rel rest _
    rw [← life_readyQueue s rest f]
    exact moves_resolveCandidate cfg _ rel old f

theorem moves_forceTransfer (s : State P H) (rel : P) (hr : rel ∈ s.hash.hashRequested) (f : P) :
    Moves clean (s.life f) ((s.forceTransfer rel).life f) := by
  unfold forceTransfer
  split
  · exact .refl
  · rename_i hn
    have hp := puts_scheduleTransfer { s with hash := s.hash.resolve rel } rel
    exact moves_released hp (life_resolve hr hn) f

theorem requested_resolveCandidate (cfg : Config) (s : State P H) (rel : P) (old : Bool) :
    (s.resolveCandidate cfg rel old).hash.hashRequested = s.hash.hashRequested := by
  rcases s.resolveCandidate_cases cfg rel old with h | ⟨-, -, h, -⟩
  · rw [h]
  · rw [h, HashStage.resolve_requested]

theorem requested_forceTransfer (s : State P H) (rel : P) :
    (s.forceTransfer rel).hash.hashRequested = s.hash.hashRequested := by
  unfold forceTransfer
  split
  · rfl
  · exact HashStage.resolve_requested _ _

theorem moves_sweep (cfg : Config) (s : State P H) (unresolved : List P) (old : P → Bool)
    (hu : ∀ rel ∈ unresolved, rel ∈ s.hash.hashRequested) (f : P) :
    Moves clean (s.life f)
      ((s.sweepUnresolvedFallbackIfQuiescent cfg unresolved old).life f) := by
  unfold sweepUnresolvedFallbackIfQuiescent
  split
  · -- the ready candidates first
    have h1 : ∀ (l : List P) (s : State P H),
        Moves clean (s.life f)
          ((l.foldl (fun s rel => s.resolveCandidate cfg rel (old rel)) s).life f) ∧
        (l.foldl (fun s rel => s.resolveCandidate cfg rel (old rel)) s).hash.hashRequested =
          s.hash.hashRequested := by
      intro l
      induction l with
      | nil => intro s; exact ⟨.refl, rfl⟩
      | cons rel l ih =>
        intro s
        obtain ⟨ih1, ih2⟩ := ih (s.resolveCandidate cfg rel (old rel))
        exact ⟨(moves_resolveCandidate cfg s rel _ f).trans ih1,
          ih2.trans (requested_resolveCandidate cfg s rel _)⟩
    -- then the forced transfers
    have h2 : ∀ (l : List P) (s : State P H), (∀ rel ∈ l, rel ∈ s.hash.hashRequested) →
        Moves clean (s.life f) ((l.foldl forceTransfer s).life f) := by
      intro l
      induction l with
      | nil => intro s _; exact .refl
      | cons rel l ih =>
        intro s hs
        refine (moves_forceTransfer s rel (hs rel List.mem_cons_self) f).trans (ih _ ?_)
        intro r hr
        rw [requested_forceTransfer]
        exact hs r (List.mem_cons_of_mem _ hr)
    obtain ⟨h3, h4⟩ := h1 (s.hash.fallbackReadyQueue ++ unresolved)
      { s with hash := { s.hash with fallbackReadyQueue := [] } }
    refine .trans h3 (h2 unresolved _ fun rel hrel => ?_)
    rw [h4]
    exact hu rel hrel
  · exact .refl

end

end State

end FastClone.Client
