import Mathlib.Logic.Relation
import Mathlib.Data.Nat.Notation

/-!
# Runs of a machine

A machine takes events one at a time. `Reach ok` is the set of states reached by runs
whose steps all satisfy `ok`; `Reach.invariant` is the induction rule for what holds in
all of them, and `reach_run` produces a reachable state from a list of events. `Leads ok Q`
holds where some run ends in `Q`; `leads_of_measure` is the progress rule for it.
`Allows.purge` is the unwinding rule for runs from which some events are dropped.
-/

namespace Runs

/-- A machine: where it starts, which events can happen, what an event does. -/
structure Machine (σ ε : Type) where
  init : σ
  can : σ → ε → Prop
  next : σ → ε → σ

variable {σ ε : Type} {M : Machine σ ε}

/-- The states reached by runs whose steps all satisfy `ok`. -/
inductive Machine.Reach (M : Machine σ ε) (ok : σ → ε → Prop) : σ → Prop where
  | init : M.Reach ok M.init
  | step {s : σ} {e : ε} : M.Reach ok s → M.can s e → ok s e → M.Reach ok (M.next s e)

/-- What holds at the start and is kept by every allowed step holds in every state reached. -/
theorem Machine.Reach.invariant {ok : σ → ε → Prop} {I : σ → Prop} (h0 : I M.init)
    (hstep : ∀ s e, I s → M.can s e → ok s e → I (M.next s e)) {s : σ} (h : M.Reach ok s) : I s := by
  induction h with
  | init => exact h0
  | step _ hc hok ih => exact hstep _ _ ih hc hok

/-- A weaker condition on the steps reaches more. -/
theorem Machine.Reach.mono {ok ok' : σ → ε → Prop} (hok : ∀ s e, ok s e → ok' s e) {s : σ}
    (h : M.Reach ok s) : M.Reach ok' s := by
  induction h with
  | init => exact .init
  | step _ hc h ih => exact .step ih hc (hok _ _ h)

/-- The state after a list of events. -/
def Machine.run (M : Machine σ ε) (s : σ) (es : List ε) : σ := es.foldl M.next s

/-- Every event of the list can happen when its turn comes, and satisfies `ok` there. -/
def Machine.Allows (M : Machine σ ε) (ok : σ → ε → Prop) : σ → List ε → Prop
  | _, [] => True
  | s, e :: es => M.can s e ∧ ok s e ∧ M.Allows ok (M.next s e) es

instance Machine.decidableAllows (ok : σ → ε → Prop) [∀ s e, Decidable (M.can s e)]
    [∀ s e, Decidable (ok s e)] : ∀ s es, Decidable (M.Allows ok s es)
  | _, [] => .isTrue trivial
  | s, e :: es =>
    have := Machine.decidableAllows ok (M.next s e) es
    inferInstanceAs (Decidable (M.can s e ∧ ok s e ∧ M.Allows ok (M.next s e) es))

/-- A run from a reachable state ends in a reachable state. -/
theorem Machine.Reach.run {ok : σ → ε → Prop} {s : σ} (h : M.Reach ok s) {es : List ε}
    (hes : M.Allows ok s es) : M.Reach ok (M.run s es) := by
  induction es generalizing s with
  | nil => exact h
  | cons e es ih => exact ih (.step h hes.1 hes.2.1) hes.2.2

/-- A run from the start ends in a reachable state. -/
theorem Machine.reach_run {ok : σ → ε → Prop} {es : List ε} (hes : M.Allows ok M.init es) :
    M.Reach ok (M.run M.init es) :=
  Machine.Reach.run .init hes

/-- What every allowed step from a reachable state keeps holds along a run. -/
theorem Machine.Allows.keeps {ok : σ → ε → Prop} {I : σ → Prop}
    (hstep : ∀ s e, M.Reach ok s → I s → M.can s e → ok s e → I (M.next s e)) {s : σ} {es : List ε}
    (h : M.Allows ok s es) (hr : M.Reach ok s) (hI : I s) : I (M.run s es) := by
  induction es generalizing s with
  | nil => exact hI
  | cons e es ih => exact ih h.2.2 (.step hr h.1 h.2.1) (hstep s e hr hI h.1 h.2.1)

theorem Machine.Allows.append {ok : σ → ε → Prop} {s : σ} {es fs : List ε} (h : M.Allows ok s es)
    (h' : M.Allows ok (M.run s es) fs) : M.Allows ok s (es ++ fs) := by
  induction es generalizing s with
  | nil => exact h'
  | cons e es ih => exact ⟨h.1, h.2.1, ih h.2.2 h'⟩

theorem Machine.run_append (s : σ) (es fs : List ε) :
    M.run s (es ++ fs) = M.run (M.run s es) fs := by
  simp [Machine.run]

/-- **Unwinding**: if `R` matches the events that `keep` keeps and does not see the others, then
without the others a run is still a run, and `R` relates the two all along. `R` may depend on
the events that are still to come. -/
theorem Machine.Allows.purge {ok : σ → ε → Prop} {R : List ε → σ → σ → Prop} {keep : ε → Bool}
    (hkeep : ∀ e es s t, R (e :: es) s t → M.can s e → ok s e → keep e = true →
      M.can t e ∧ R es (M.next s e) (M.next t e))
    (hdrop : ∀ e es s t, R (e :: es) s t → M.can s e → ok s e → keep e = false → R es (M.next s e) t)
    {s t : σ} {es : List ε} (h : M.Allows ok s es) (hR : R es s t) :
    M.Allows (fun _ _ => True) t (es.filter keep) ∧
      ∀ es₁ es₂, es = es₁ ++ es₂ → R es₂ (M.run s es₁) (M.run t (es₁.filter keep)) := by
  induction es generalizing s t with
  | nil =>
    refine ⟨trivial, fun es₁ es₂ heq => ?_⟩
    obtain ⟨rfl, rfl⟩ := List.append_eq_nil_iff.1 heq.symm
    exact hR
  | cons e es ih =>
    obtain ⟨hc, hok, hes⟩ := h
    cases hk : keep e with
    | true =>
      obtain ⟨hc', hR'⟩ := hkeep e es s t hR hc hok hk
      obtain ⟨hall, hsim⟩ := ih hes hR'
      refine ⟨?_, fun es₁ es₂ heq => ?_⟩
      · rw [List.filter_cons_of_pos hk]
        exact ⟨hc', trivial, hall⟩
      · cases es₁ with
        | nil => rw [← heq.trans (List.nil_append es₂)]; exact hR
        | cons d es₁ =>
          obtain ⟨rfl, hrest⟩ := List.cons.inj heq
          rw [List.filter_cons_of_pos hk]
          exact hsim es₁ es₂ hrest
    | false =>
      have hk' : ¬ keep e = true := by rw [hk]; nofun
      obtain ⟨hall, hsim⟩ := ih hes (hdrop e es s t hR hc hok hk)
      refine ⟨?_, fun es₁ es₂ heq => ?_⟩
      · rw [List.filter_cons_of_neg hk']
        exact hall
      · cases es₁ with
        | nil => rw [← heq.trans (List.nil_append es₂)]; exact hR
        | cons d es₁ =>
          obtain ⟨rfl, hrest⟩ := List.cons.inj heq
          rw [List.filter_cons_of_neg hk']
          exact hsim es₁ es₂ hrest

/-- A measure that every step lowers bounds their number; free steps may raise it, each by one. -/
theorem Machine.Allows.count_le {ok : σ → ε → Prop} (μ : σ → ℕ) (free : ε → Bool)
    (hpaid : ∀ s e, M.Reach ok s → M.can s e → ok s e → free e = false → μ (M.next s e) < μ s)
    (hfree : ∀ s e, M.Reach ok s → M.can s e → ok s e → free e = true → μ (M.next s e) ≤ μ s + 1)
    {s : σ} {es : List ε} (h : M.Allows ok s es) (hr : M.Reach ok s) :
    μ (M.run s es) + es.countP (fun e => !free e) ≤ μ s + es.countP free := by
  induction es generalizing s with
  | nil => exact Nat.le_refl _
  | cons e es ih =>
    obtain ⟨hc, hok, hes⟩ := h
    have hrest := ih hes (.step hr hc hok)
    have hrun : M.run s (e :: es) = M.run (M.next s e) es := rfl
    rw [hrun, List.countP_cons, List.countP_cons]
    cases he : free e with
    | true =>
      have hup := hfree s e hr hc hok he
      simp only [Bool.not_true, Bool.false_eq_true, if_false, if_true]
      omega
    | false =>
      have hdown := hpaid s e hr hc hok he
      simp only [Bool.not_false, Bool.false_eq_true, if_false, if_true]
      omega

/-- Some run from `s` whose steps satisfy `ok` ends in `Q`. -/
def Machine.Leads (M : Machine σ ε) (ok : σ → ε → Prop) (Q : σ → Prop) (s : σ) : Prop :=
  ∃ es, M.Allows ok s es ∧ Q (M.run s es)

theorem Machine.Leads.here {ok : σ → ε → Prop} {Q : σ → Prop} {s : σ} (h : Q s) : M.Leads ok Q s :=
  ⟨[], trivial, h⟩

theorem Machine.Leads.step {ok : σ → ε → Prop} {Q : σ → Prop} {s : σ} {e : ε} (hc : M.can s e)
    (hok : ok s e) (h : M.Leads ok Q (M.next s e)) : M.Leads ok Q s := by
  obtain ⟨es, hes, hq⟩ := h
  exact ⟨e :: es, ⟨hc, hok, hes⟩, hq⟩

theorem Machine.Leads.bind {ok : σ → ε → Prop} {Q Q' : σ → Prop} {s : σ} (h : M.Leads ok Q s)
    (k : ∀ s', Q s' → M.Leads ok Q' s') : M.Leads ok Q' s := by
  obtain ⟨es, hes, hq⟩ := h
  obtain ⟨fs, hfs, hq'⟩ := k _ hq
  refine ⟨es ++ fs, hes.append hfs, ?_⟩
  rwa [Machine.run_append]

/-- A measure that some run lowers as long as it is not 0 can be brought to 0. -/
theorem Machine.leads_of_measure {ok : σ → ε → Prop} {I : σ → Prop} (μ : σ → ℕ)
    (hstep : ∀ s, I s → μ s ≠ 0 → M.Leads ok (fun s' => I s' ∧ μ s' < μ s) s) {s : σ} (hs : I s) :
    M.Leads ok (fun s' => I s' ∧ μ s' = 0) s := by
  induction hn : μ s using Nat.strongRecOn generalizing s with
  | ind n ih =>
    by_cases h0 : μ s = 0
    · exact .here ⟨hs, h0⟩
    · refine (hstep s hs h0).bind fun s' hs' => ?_
      exact ih (μ s') (hn ▸ hs'.2) hs'.1 rfl

/-- A rank that falls again and again while it is positive is zero at some time. -/
theorem eventually_zero {μ : ℕ → ℕ} {n : ℕ} (hfall : ∀ k, n ≤ k → 0 < μ k → ∃ m, k ≤ m ∧ μ m < μ k) :
    ∃ m, n ≤ m ∧ μ m = 0 := by
  have key : ∀ rank k, n ≤ k → μ k = rank → ∃ m, n ≤ m ∧ μ m = 0 := by
    intro rank
    induction rank using Nat.strongRecOn with
    | _ rank ih =>
      intro k hk hrank
      rcases Nat.eq_zero_or_pos (μ k) with hzero | hpos
      · exact ⟨k, hk, hzero⟩
      · obtain ⟨m, hkm, hlt⟩ := hfall k hk hpos
        exact ih (μ m) (by omega) m (Nat.le_trans hk hkm) rfl
  exact key (μ n) n (Nat.le_refl n) rfl

end Runs
