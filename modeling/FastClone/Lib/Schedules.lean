import FastClone.Lib.Runs

/-!
# Infinite runs

A schedule is an infinite run of a machine with pauses, in which other things happen. What the machine
keeps stays true along it (`Schedule.keeps`); where an event is still to come, the next one finds the
machine as it is now (`Schedule.next_event`). `eventually_of_rank` is the progress rule: a rank that comes
down again and again before `Q` holds brings `Q`.
-/

namespace Runs

variable {σ ε : Type} {M : Machine σ ε}

/-- An infinite run from a reachable state; `none` is a pause. -/
structure Machine.Schedule (M : Machine σ ε) (ok : σ → ε → Prop) (st : ℕ → σ) (ev : ℕ → Option ε) : Prop where
  start : M.Reach ok (st 0)
  pause : ∀ k, ev k = none → st (k + 1) = st k
  step : ∀ k e, ev k = some e → M.can (st k) e ∧ ok (st k) e ∧ st (k + 1) = M.next (st k) e

namespace Machine.Schedule

variable {ok : σ → ε → Prop} {st : ℕ → σ} {ev : ℕ → Option ε}

theorem reach (h : M.Schedule ok st ev) (k : ℕ) : M.Reach ok (st k) := by
  induction k with
  | zero => exact h.start
  | succ k ih =>
    cases he : ev k with
    | none =>
      rw [h.pause k he]
      exact ih
    | some e =>
      obtain ⟨hc, hok, hnext⟩ := h.step k e he
      rw [hnext]
      exact ih.step hc hok

/-- A weaker condition on the steps. -/
theorem mono {ok' : σ → ε → Prop} (hok : ∀ s e, ok s e → ok' s e) (h : M.Schedule ok st ev) :
    M.Schedule ok' st ev := by
  refine ⟨h.start.mono hok, h.pause, fun k e he => ?_⟩
  obtain ⟨hc, hk, hnext⟩ := h.step k e he
  exact ⟨hc, hok _ _ hk, hnext⟩

/-- A relation that every step keeps relates each state to all later ones. -/
theorem keeps {R : σ → σ → Prop} (hrefl : ∀ s, R s s) (htrans : ∀ a b c, R a b → R b c → R a c)
    (hstep : ∀ s e, M.Reach ok s → M.can s e → ok s e → R s (M.next s e)) (h : M.Schedule ok st ev)
    {k m : ℕ} (hkm : k ≤ m) : R (st k) (st m) := by
  induction hkm with
  | refl => exact hrefl _
  | @step j _ ih =>
    refine htrans _ _ _ ih ?_
    cases he : ev j with
    | none =>
      rw [h.pause j he]
      exact hrefl _
    | some e =>
      obtain ⟨hc, hok, hnext⟩ := h.step j e he
      rw [hnext]
      exact hstep _ _ (h.reach j) hc hok

/-- The next event, if there is one, finds the state as it is. -/
theorem next_event (h : M.Schedule ok st ev) {k : ℕ} (hev : ∃ m, k ≤ m ∧ ev m ≠ none) :
    ∃ m e, k ≤ m ∧ ev m = some e ∧ st m = st k := by
  obtain ⟨m, hkm, hm⟩ := hev
  -- by induction on the distance to an event
  induction hd : m - k generalizing k with
  | zero =>
    obtain ⟨e, he⟩ := Option.ne_none_iff_exists'.1 hm
    have heq : m = k := by omega
    exact ⟨m, e, hkm, he, congrArg st heq⟩
  | succ d ih =>
    cases hk : ev k with
    | some e => exact ⟨k, e, Nat.le_refl k, hk, rfl⟩
    | none =>
      obtain ⟨m', e, hm', he, hst⟩ := ih (k := k + 1) (by omega) (by omega)
      exact ⟨m', e, by omega, he, hst.trans (h.pause k hk)⟩

end Machine.Schedule

/-- **Progress.** A rank that comes down again and again as long as `Q` has not come brings `Q`. -/
theorem eventually_of_rank {μ : ℕ → ℕ} {Q : ℕ → Prop} {n : ℕ}
    (hfall : ∀ k, n ≤ k → ∃ m, k ≤ m ∧ (Q m ∨ μ m < μ k)) : ∃ m, n ≤ m ∧ Q m := by
  classical
  -- one more than the rank, and 0 where `Q` holds
  obtain ⟨m, hnm, hzero⟩ := eventually_zero (μ := fun k => if Q k then 0 else μ k + 1) (n := n) (by
    intro k hk hpos
    have hnot : ¬ Q k := by
      intro hq
      rw [if_pos hq] at hpos
      exact absurd hpos (Nat.lt_irrefl 0)
    obtain ⟨m, hkm, hm⟩ := hfall k hk
    refine ⟨m, hkm, ?_⟩
    rw [if_neg hnot]
    by_cases hq : Q m
    · rw [if_pos hq]
      omega
    · rw [if_neg hq]
      have hlt := hm.resolve_left hq
      omega)
  refine ⟨m, hnm, ?_⟩
  by_cases hq : Q m
  · exact hq
  · rw [if_neg hq] at hzero
    omega

end Runs
