import FastClone.Proof.ClientFrame
import FastClone.Proof.ClientAccounting

/-!
# The outstanding manifest request

The `ManifestRequest` goes out on the primary lane and has no stream, so no failover path
knows of it: only the loss of every lane ends the run. `manifest_answerable` says that the
loop never waits for a manifest that cannot come as long as the primary does not die
mid-manifest beside a healthy lane; in `lostPrimary` it does.
-/

set_option linter.unusedSectionVars false

namespace FastClone.Client

open State Runs

variable {P H : Type} [DecidableEq P] [DecidableEq H]

/-- The manifest is done, or the lane that carries the request is healthy, or the run is closed. -/
def Answerable (s : State P H) : Prop :=
  s.manifestDone = true ∨ s.pool.healthy 0 = true ∨ s.recvClosed = true

instance (s : State P H) : Decidable (Answerable s) := inferInstanceAs (Decidable (_ ∨ _ ∨ _))

/-- If the event takes the primary down mid-manifest, it takes the last healthy lanes down. -/
def KeepsPrimary (s : State P H) (e : Event P H) : Prop :=
  s.manifestDone = false → 0 ∈ e.lostLanes →
    ∀ i, i < s.pool.length → s.pool.healthy i = true → i ∈ e.lostLanes

instance (s : State P H) (e : Event P H) : Decidable (KeepsPrimary s e) :=
  inferInstanceAs (Decidable (_ → _ → ∀ i, i < _ → _ → _))

theorem Pool.lt_of_healthy {p : Pool} {i : ℕ} (h : p.healthy i = true) : i < p.length := by
  by_contra hi
  have hn : p[i]? = none := List.getElem?_eq_none (by omega)
  rw [Pool.healthy, hn] at h
  cases h

/-- Mid-manifest the primary is healthy or every lane is down. -/
def PrimaryOrNone (s : State P H) : Prop :=
  s.manifestDone = true ∨ s.pool.healthy 0 = true ∨ ∀ i, s.pool.healthy i = false

theorem primaryOrNone_step (cfg : Config) (s : State P H) (e : Event P H) (hs : PrimaryOrNone s)
    (hk : KeepsPrimary s e) : PrimaryOrNone (exec cfg s e) := by
  obtain ⟨hlanes, hdone, -⟩ := exec_onward cfg s e
  rcases hs with hm | h0 | hnone
  · exact .inl (hdone hm)
  · by_cases hlost : 0 ∈ e.lostLanes
    · cases hm : s.manifestDone with
      | true => exact .inl (hdone hm)
      | false =>
        by_cases hlive : ∃ i, (exec cfg s e).pool.healthy i = true
        · obtain ⟨i, hi⟩ := hlive
          have hb := hlanes.fell i hi
          rcases healthy_after cfg s e hi with hn | hkept
          · exact absurd (hk hm hlost i (Pool.lt_of_healthy hb) hb) hn
          · exact .inr (.inl (hkept 0 h0))
        · exact .inr (.inr fun i => Bool.eq_false_of_not_eq_true fun hi => hlive ⟨i, hi⟩)
    · exact .inr (.inl (hlanes.kept 0 hlost h0))
  · refine .inr (.inr fun i => ?_)
    by_contra hi
    have := hlanes.fell i (Bool.eq_true_of_not_eq_false hi)
    rw [hnone i] at this
    cases this

theorem healthy_start (cfg : Config) : (State.start P H cfg).pool.healthy 0 = true := by
  have h0 : 0 < cfg.laneCount := cfg.laneCount_pos
  simp [State.start, Pool.healthy, h0]

theorem reach_primaryOrNone (cfg : Config) {s : State P H}
    (h : (machine P H cfg).Reach KeepsPrimary s) : PrimaryOrNone s := by
  refine h.invariant (.inr (.inl (healthy_start cfg))) ?_
  intro s e hs _ hk
  exact primaryOrNone_step cfg s e hs hk

/-- **The loop never waits for a manifest that cannot come**, in a run in which the primary does
not go down mid-manifest while another lane stays healthy. In every state reached the
request is answerable or every lane is down; the `failoverScan` with which every turn of the
loop starts then marks the run closed, so the state it leaves is answerable; and a closed run
leaves the loop. -/
theorem manifest_answerable (cfg : Config) {s : State P H}
    (h : (machine P H cfg).Reach KeepsPrimary s) :
    (Answerable s ∨ s.pool.healthyConnCount = 0) ∧
      (∀ order sigOrder dying dying', KeepsPrimary s (.failoverScan order sigOrder dying dying') →
        Answerable (s.failoverScan order sigOrder dying dying')) ∧
      (s.recvClosed = true → (exec cfg s .recvDrainedAndClosed).mode = .closed) := by
  have hs := reach_primaryOrNone cfg h
  refine ⟨?_, fun order sigOrder dying dying' hk => ?_, fun hc => ?_⟩
  · rcases hs with hm | h0 | hnone
    · exact .inl (.inl hm)
    · exact .inl (.inr (.inl h0))
    · exact .inr (Pool.healthyConnCount_eq_zero.2 hnone)
  · rcases primaryOrNone_step cfg s (.failoverScan order sigOrder dying dying') hs hk with
      hm | h0 | hnone
    · exact .inl hm
    · exact .inr (.inl h0)
    · obtain ⟨-, -, -, hc, -⟩ := failoverScan_links s order sigOrder dying dying'
      exact .inr (.inr (hc.2 (.inr (Pool.healthyConnCount_eq_zero.2 hnone))))
  · simp only [exec, if_pos hc]

/-- Both lanes die mid-manifest. -/
def lostLanesRun : List (Event ℕ ℕ) := [.manifestEntry 0 ⟨2, 0⟩, .laneDown 1, .laneDown 0]

/-- After the loss of both lanes the scan closes the run. -/
theorem manifest_answerable_lostLanesRun :
    Answerable (((machine ℕ ℕ twoLanes).run (State.start ℕ ℕ twoLanes) lostLanesRun).failoverScan
      [] [] [] []) :=
  (manifest_answerable twoLanes (Machine.reach_run (by decide))).2.1 [] [] [] [] (by decide)

/-- The primary dies after the first manifest entry; lane 1 is up when the scan runs. -/
def lostPrimary : List (Event ℕ ℕ) :=
  [.manifestEntry 0 ⟨2, 0⟩, .laneDown 0, .failoverScan [] [] [] []]

/-- **The manifest is lost with the primary.** The loop goes on with lane 1, the manifest is not
done, its lane is dead and the run is not closed. -/
theorem lost_with_the_primary : ∃ s, (machine ℕ ℕ twoLanes).Reach (fun _ _ => True) s ∧
    s.mode = .running ∧ s.pool.healthy 1 = true ∧ ¬ Answerable s :=
  ⟨(machine ℕ ℕ twoLanes).run (State.start ℕ ℕ twoLanes) lostPrimary,
    Machine.reach_run (by decide), by decide, by decide, by decide⟩

end FastClone.Client
