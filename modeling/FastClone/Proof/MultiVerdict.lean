import FastClone.Proof.OnceVerdict

/-!
# The verdict of `--once-multi`

The thread of a session's last lane folds its failure into `g_omAnyFailure` some steps after
the session has left the idle check. `Owing` says that a failed session without a lane is
either folded or has such a thread; it holds as long as no last lane is lost to a failed
`AuthOk`. If moreover no such thread is left when the verdict is read, the exit code
aggregates every failure (`multi_aggregates_failures`).
-/

namespace FastClone.Sessions

open Runs

variable {cfg : Config} {s s' : State} {c : ℕ} {a : Act}

/-! ### Conditions -/

/-- The session ended cleanly, as its flags say. -/
def State.clean (s : State) (x : ℕ) : Bool := s.completedOk x && !s.hadError x

/-- The session whose verdict a thread has still to fold. -/
def Phase.folds : Phase → Option ℕ
  | .closed x 0 | .swept x 0 | .folding x | .foldOk x => some x
  | _ => none

/-- The thread has a failure to fold. -/
def State.owes (s : State) (p : Phase) : Bool := decide (p = .failing) || p.folds.any fun x => !s.clean x

/-- The verdict is read when no thread has a failure to fold, and the last lane of a failed
Sync session is not lost to a failed `AuthOk`; after a failure was recorded, neither matters. -/
def FoldsInTime (s : State) : Event → Prop
  | .main .load => s.anyFailure = true ∨ ∀ c ∈ s.accepted, s.owes (s.conns c) = false
  | .conn c .sendFail => s.anyFailure = true ∨
      ∀ x ∈ (s.conns c).holds, s.isSync x = true → s.liveConns x = 1 → s.clean x = true
  | _ => True

instance : DecidablePred (FoldsInTime s)
  | .main .load => inferInstanceAs (Decidable (_ ∨ _))
  | .conn c .sendFail => inferInstanceAs (Decidable (_ = true ∨
      ∀ x ∈ (s.conns c).holds, s.isSync x = true → s.liveConns x = 1 → s.clean x = true))
  | .conn _ .claimAuth | .conn _ .claimCheck | .conn _ (.claimJoin _) | .conn _ .refuse | .conn _ (.create _ _)
  | .conn _ .setType | .conn _ .sendOk | .conn _ .readType | .conn _ .claim | .conn _ .endClean
  | .conn _ .endError | .conn _ .close | .conn _ .sweep | .conn _ .check | .conn _ .readOk | .conn _ .readErr
  | .conn _ .exchange | .conn _ .storeCode | .conn _ .storeExit | .conn _ .storeFailure | .conn _ .leave
  | .main (.accept _) | .main .waitSnapshot | .main .waitClock | .main .waitLoad | .main .drain
  | .main .drained | .main .snapshot | .main .decide | .main .exchange | .main .publish | .main .ret
  | .elapse _ => .isTrue trivial

/-! ### Failures are folded or owed -/

/-- A thread that is going to fold the session at `x`, or a failure. -/
def Phase.willFold (x : ℕ) (p : Phase) : Prop := p = .failing ∨ p.folds = some x

theorem Phase.not_willFold {x : ℕ} {p : Phase} (hp : p ≠ .failing) (hf : p.folds = none) : ¬ p.willFold x := by
  rintro (h | h)
  · exact hp h
  · rw [hf] at h
    cases h

structure Owing (s : State) : Prop where
  sync : ∀ x v, s.sessions x = some v → v.made = .sync → v.type = .sync
  created : ∀ c x, s.conns c = .created x → ∃ v, s.sessions x = some v ∧ v.made = .check
  foldOk : ∀ c x, s.conns c = .foldOk x → s.completedOk x = true
  owed : ∀ x v, s.sessions x = some v → v.made = .sync → v.liveConns = 0 →
    (v.completedOk && !v.hadError) = false → s.anyFailure = true ∨ ∃ c, (s.conns c).willFold x

theorem owing_start : Owing .start where
  sync _ _ h := nomatch h
  created _ _ h := nomatch h
  foldOk _ _ h := nomatch h
  owed _ _ h := nomatch h

theorem Effect.anyFailure (he : Effect cfg s c a s') (h : s.anyFailure = true) : s'.anyFailure = true := by
  cases he with
  | endClean =>
    unfold State.endedClean
    split
    · exact h
    · exact h
  | endError =>
    unfold State.endedError
    split
    · exact h
    · exact h
  | storeFailure => rfl
  | _ => exact h

theorem SessionEffect.completedOk {x : ℕ} {v v' : Session} (h : SessionEffect cfg s c a x v v')
    (hok : v.completedOk = true) : v'.completedOk = true := by
  cases h with
  | clean => rfl
  | _ => exact hok

/-- A thread that is to fold a failed session goes on to record the failure. -/
theorem Effect.willFold (he : Effect cfg s c a s') (h : Owing s) (hm : cfg.mode = .onceMulti) {x : ℕ} {v : Session}
    (hv : s.sessions x = some v) (hmade : v.made = .sync) (hbad : (v.completedOk && !v.hadError) = false)
    (hw : (s.conns c).willFold x) : s'.anyFailure = true ∨ (s'.conns c).willFold x := by
  have hty : s.typeOf x ≠ .check := by
    rw [typeOf_of hv, h.sync x v hv hmade]
    nofun
  -- every other phase of the thread has nothing to fold
  have hnone : ∀ {q : Phase}, s.conns c = q → q ≠ .failing → q.folds = none →
      s'.anyFailure = true ∨ (s'.conns c).willFold x := by
    intro q hq hne hf
    rw [hq] at hw
    exact absurd hw (Phase.not_willFold hne hf)
  have hself : ∀ {t : State} {p : Phase}, p.willFold x → (Function.update t.conns c p c).willFold x := by
    intro t p hp
    rwa [Function.update_self]
  cases he with
  | @sweep y r hq =>
    rw [hq] at hw
    rcases hw with hw | hw
    · cases hw
    · refine .inr (hself (.inr ?_))
      cases r with
      | zero => exact hw
      | succ r => cases hw
  | @checkFold y hq _ _ =>
    rw [hq] at hw
    rcases hw with hw | hw
    · cases hw
    · exact .inr (hself (.inr hw))
  | @checkDone y r hq hno _ =>
    rw [hq] at hw
    rcases hw with hw | hw
    · cases hw
    · cases r with
      | zero =>
        cases hw
        exact absurd ⟨hm, hty, rfl⟩ hno
      | succ r => cases hw
  | checkTarget _ hm' =>
    rw [hm] at hm'
    cases hm'
  | @foldOk y hq _ =>
    rw [hq] at hw
    rcases hw with hw | hw
    · cases hw
    · exact .inr (hself (.inr hw))
  | foldBad => exact .inr (hself (.inl rfl))
  | foldErr => exact .inr (hself (.inl rfl))
  | @foldClean y hq herr =>
    have hdone := h.foldOk c y hq
    rw [hq] at hw
    rcases hw with hw | hw
    · cases hw
    · cases hw
      -- the session that it has read is clean
      rw [completedOk_of hv] at hdone
      rw [hadError_of hv] at herr
      rw [hdone, herr] at hbad
      cases hbad
  | storeFailure => exact .inl rfl
  | refused hq =>
    rcases hq with hq | hq | hq <;> exact hnone hq nofun rfl
  | refusedAuth hq => exact hnone hq nofun rfl
  | refusedJoin hq => exact hnone hq nofun rfl
  | passAuth hq => exact hnone hq nofun rfl
  | passCheck hq => exact hnone hq nofun rfl
  | join hq => exact hnone hq nofun rfl
  | createSync hq => exact hnone hq nofun rfl
  | createCheck hq => exact hnone hq nofun rfl
  | setType hq => exact hnone hq nofun rfl
  | sendOk hq => exact hnone hq nofun rfl
  | sendFail hq => exact hnone hq nofun rfl
  | readType hq => exact hnone hq nofun rfl
  | claimNew hq => exact hnone hq nofun rfl
  | claimMatch hq => exact hnone hq nofun rfl
  | claimRefused hq => exact hnone hq nofun rfl
  | serve hq => exact hnone hq nofun rfl
  | endClean hq => exact hnone hq nofun rfl
  | endError hq => exact hnone hq nofun rfl
  | close hq => exact hnone hq nofun rfl
  | sweepNone hq => exact hnone hq nofun rfl
  | judgeOk hq => exact hnone hq nofun rfl
  | judgeBad hq => exact hnone hq nofun rfl
  | judgeErr hq => exact hnone hq nofun rfl
  | exchangeLost hq => exact hnone hq nofun rfl
  | exchangeWon hq => exact hnone hq nofun rfl
  | storeCode hq => exact hnone hq nofun rfl
  | storeExit hq => exact hnone hq nofun rfl
  | leave hq => exact hnone hq nofun rfl

theorem Effect.close_conns (he : Effect cfg s c .close s') {x : ℕ} (hq : s.conns c = .ended x) :
    s'.conns c = .closed x (s.liveConns x - 1) := by
  cases he with
  | close hq' =>
    rw [hq] at hq'
    cases hq'
    exact Function.update_self ..

/-- A thread that comes to `created` has made a Check session. -/
theorem Effect.created (he : Effect cfg s c a s') {x : ℕ} (hq : s'.conns c = .created x) :
    ∃ v, s'.sessions x = some v ∧ v.made = .check := by
  have hself : ∀ {t : State} {p : Phase}, Function.update t.conns c p c = .created x → p = .created x := by
    intro t p hp
    rwa [Function.update_self] at hp
  cases he with
  | createCheck =>
    cases hself hq
    exact ⟨_, Function.update_self .., rfl⟩
  | _ => exact nomatch hself hq

theorem Effect.foldOk_completed (he : Effect cfg s c a s') {x : ℕ} (hq : s'.conns c = .foldOk x) :
    s'.completedOk x = true := by
  have hself : ∀ {t : State} {p : Phase}, Function.update t.conns c p c = .foldOk x → p = .foldOk x := by
    intro t p hp
    rwa [Function.update_self] at hp
  cases he with
  | foldOk _ hdone =>
    cases hself hq
    exact hdone
  | _ => exact nomatch hself hq

/-- **A step of a connection's thread.** -/
theorem Owing.effect (h : Owing s) (hr : Registered s) (hm : cfg.mode = .onceMulti)
    (hok : FoldsInTime s (.conn c a)) (he : Effect cfg s c a s') : Owing s' := by
  refine ⟨?_, ?_, ?_, ?_⟩
  · intro x v' hv' hmade
    cases hv : s.sessions x with
    | none =>
      obtain ⟨id, made, -, rfl⟩ := he.newSession hv hv'
      rfl
    | some v =>
      obtain ⟨w, hw, hse⟩ := he.session hv
      rw [hv'] at hw
      cases hw
      have hty := h.sync x v hv (hse.made.symm.trans hmade)
      cases hse with
      | setType hq =>
        obtain ⟨u, hu, hcheck⟩ := h.created c x hq
        rw [hv] at hu
        cases hu
        exact nomatch hcheck.symm.trans hmade
      | _ => exact hty
  · intro d x hq
    by_cases hd : d = c
    · subst hd
      exact he.created hq
    · rw [he.other hd] at hq
      obtain ⟨v, hv, hmade⟩ := h.created d x hq
      obtain ⟨v', hv', hse⟩ := he.session hv
      exact ⟨v', hv', hse.made.trans hmade⟩
  · intro d x hq
    by_cases hd : d = c
    · subst hd
      exact he.foldOk_completed hq
    · rw [he.other hd] at hq
      have hdone := h.foldOk d x hq
      cases hv : s.sessions x with
      | none =>
        unfold State.completedOk at hdone
        rw [hv] at hdone
        cases hdone
      | some v =>
        obtain ⟨v', hv', hse⟩ := he.session hv
        rw [completedOk_of hv] at hdone
        rw [completedOk_of hv']
        exact hse.completedOk hdone
  · intro x v' hv' hmade hlive hbad
    cases hv : s.sessions x with
    | none =>
      obtain ⟨id, made, -, rfl⟩ := he.newSession hv hv'
      cases hlive
    | some v =>
      obtain ⟨w, hw, hse⟩ := he.session hv
      rw [hv'] at hw
      cases hw
      have hmade' : v.made = .sync := hse.made.symm.trans hmade
      -- a lane of this thread is still counted
      have hcounted : (s.conns c).holds = some x → v.liveConns ≠ 0 := by
        intro hx hzero
        have hpos := hr.holders_pos hx
        rw [← hr.counted x v hv, hzero] at hpos
        exact absurd hpos (Nat.lt_irrefl 0)
      cases hse with
      | same =>
        rcases h.owed x _ hv hmade hlive hbad with hany | ⟨d, hd⟩
        · exact .inl (he.anyFailure hany)
        · by_cases hdc : d = c
          · subst hdc
            rcases he.willFold h hm hv hmade hbad hd with hany | hw
            · exact .inl hany
            · exact .inr ⟨d, hw⟩
          · rw [← he.other hdc] at hd
            exact .inr ⟨d, hd⟩
      | join => exact absurd hlive (Nat.succ_ne_zero _)
      | setType hq =>
        obtain ⟨u, hu, hcheck⟩ := h.created c x hq
        rw [hv] at hu
        cases hu
        exact nomatch hcheck.symm.trans hmade'
      | close hq =>
        change v.liveConns - 1 = 0 at hlive
        rcases hq with ⟨hq, rfl⟩ | ⟨hq, rfl⟩
        · -- the last lane is lost to the failed `AuthOk`: its session is clean
          have hx : (s.conns c).holds = some x := by rw [hq]; rfl
          have hone : s.liveConns x = 1 := by
            have hpos := hcounted hx
            rw [liveConns_of hv]
            omega
          rcases hok with hany | hclean
          · exact .inl (he.anyFailure hany)
          · have hsync : s.isSync x = true := by
              unfold State.isSync
              rw [hv]
              exact decide_eq_true hmade'
            have := hclean x hx hsync hone
            unfold State.clean at this
            rw [completedOk_of hv, hadError_of hv] at this
            exact nomatch this.symm.trans hbad
        · refine .inr ⟨c, .inr ?_⟩
          rw [he.close_conns hq, liveConns_of hv, hlive]
          rfl
      | clean hq => exact absurd hlive (hcounted (by rw [hq]; rfl))
      | error hq => exact absurd hlive (hcounted (by rw [hq]; rfl))

theorem MainEffect.anyFailure {a : MainAct} (he : MainEffect cfg s a s') : s'.anyFailure = s.anyFailure := by
  cases he <;> rfl

/-- Steps that leave sessions and failures alone and at most accept a connection. -/
theorem Owing.same (h : Owing s) (hconns : ∀ d, s'.conns d = s.conns d ∨ s.conns d = .absent ∧ s'.conns d = .handshake)
    (hsess : s'.sessions = s.sessions) (hany : s'.anyFailure = s.anyFailure) : Owing s' := by
  have hback : ∀ {d q}, s'.conns d = q → q ≠ .handshake → s.conns d = q := by
    intro d q hq hne
    rcases hconns d with hd | ⟨-, hd⟩
    · rw [← hd, hq]
    · exact absurd (hq.symm.trans hd) hne
  refine ⟨?_, ?_, ?_, ?_⟩
  · rw [hsess]
    exact h.sync
  · rw [hsess]
    exact fun d x hq => h.created d x (hback hq nofun)
  · intro d x hq
    unfold State.completedOk
    rw [hsess]
    exact h.foldOk d x (hback hq nofun)
  · intro x v hv hmade hlive hbad
    rw [hsess] at hv
    rw [hany]
    refine (h.owed x v hv hmade hlive hbad).imp_right ?_
    rintro ⟨d, hd⟩
    refine ⟨d, ?_⟩
    rcases hconns d with hd' | ⟨habs, -⟩
    · rwa [hd']
    · rw [habs] at hd
      exact absurd hd (Phase.not_willFold nofun rfl)

theorem reach_owing (hm : cfg.mode = .onceMulti) (h : (machine cfg).Reach FoldsInTime s) : Owing s := by
  induction h with
  | init => exact owing_start
  | step hs hc hok ih =>
    rcases step_cases hc with ⟨c, a, rfl, he⟩ | ⟨a, -, he⟩ | ⟨d, -, he⟩
    · exact ih.effect (reach_registered hs) hm hok he
    · exact ih.same he.conns he.sessions he.anyFailure
    · rw [he]
      exact ih.same (fun _ => .inl rfl) rfl rfl

/-! ### The exit code -/

/-- The phases of a verdict of `--once`. -/
def Phase.judges : Phase → Bool
  | .judging _ | .judgedOk _ | .firing _ | .publishing _ | .published => true
  | _ => false

/-- What the exit code is read from. -/
def State.outcome (s : State) : ℕ × Bool × Bool × List Bool × Main :=
  (s.exitCode, s.shouldExit, s.terminalFired, s.failedAtVerdict, s.main)

/-- Under `--once-multi` the connections' threads take no part in the verdict. -/
theorem Effect.outcome (he : Effect cfg s c a s') (hm : cfg.mode = .onceMulti) (hj : (s.conns c).judges = false) :
    s'.outcome = s.outcome ∧ (s'.conns c).judges = false := by
  have hself : ∀ {t : State} {p : Phase}, p.judges = false → (Function.update t.conns c p c).judges = false := by
    intro t p hp
    rwa [Function.update_self]
  have hno : ∀ {q : Phase}, s.conns c = q → q.judges = true → s'.outcome = s.outcome ∧ (s'.conns c).judges = false := by
    intro q hq hq'
    rw [hq, hq'] at hj
    cases hj
  cases he with
  | checkTarget _ hm' =>
    rw [hm] at hm'
    cases hm'
  | endClean =>
    refine ⟨?_, hself rfl⟩
    unfold State.endedClean
    split
    · rfl
    · rfl
  | endError =>
    refine ⟨?_, hself rfl⟩
    unfold State.endedError
    split
    · rfl
    · rfl
  | judgeOk hq => exact hno hq rfl
  | judgeBad hq => exact hno hq rfl
  | judgeErr hq => exact hno hq rfl
  | exchangeLost hq => exact hno hq rfl
  | exchangeWon hq => exact hno hq rfl
  | storeCode hq => exact hno hq rfl
  | storeExit hq => exact hno hq rfl
  | _ => exact ⟨rfl, hself rfl⟩

/-- The code is the session-failed one if a failed session was there when the verdict was read. -/
def Aggregates (s : State) (code : ℕ) : Prop :=
  ∃ failed, s.failedAtVerdict = [failed] ∧ (failed = true → code = kExitOnceSessionFailed) ∧
    (code = kExitOk ∨ code = kExitOnceSessionFailed)

structure Aggregated (s : State) : Prop where
  threads : ∀ c, (s.conns c).judges = false
  unfired : s.terminalFired = false → s.failedAtVerdict = []
  loading : s.main = .loading → s.failedAtVerdict = [] ∧ s.terminalFired = true
  storing : ∀ failed, s.main = .storing failed →
    Aggregates s (if failed then kExitOnceSessionFailed else kExitOk)
  exit : s.shouldExit = true → Aggregates s s.exitCode
  returned : ∀ code, s.main = .returned code → Aggregates s code

theorem aggregated_start : Aggregated .start where
  threads _ := rfl
  unfired _ := rfl
  loading h := nomatch h
  storing _ h := nomatch h
  exit h := nomatch h
  returned _ h := nomatch h

theorem Aggregated.same (h : Aggregated s) (ho : s'.outcome = s.outcome) (ht : ∀ c, (s'.conns c).judges = false) :
    Aggregated s' := by
  simp only [State.outcome, Prod.mk.injEq] at ho
  obtain ⟨hcode, hexit, hterm, hlist, hmain⟩ := ho
  refine ⟨ht, ?_, ?_, ?_, ?_, ?_⟩
  · rw [hterm, hlist]
    exact h.unfired
  · rw [hmain, hlist, hterm]
    exact h.loading
  · unfold Aggregates
    rw [hmain, hlist]
    exact h.storing
  · unfold Aggregates
    rw [hexit, hlist, hcode]
    exact h.exit
  · unfold Aggregates
    rw [hmain, hlist]
    exact h.returned

theorem Aggregated.effect (h : Aggregated s) (hm : cfg.mode = .onceMulti) (he : Effect cfg s c a s') : Aggregated s' := by
  obtain ⟨ho, hj⟩ := he.outcome hm (h.threads c)
  refine h.same ho fun d => ?_
  by_cases hd : d = c
  · rw [hd]
    exact hj
  · rw [he.other hd]
    exact h.threads d

/-- When the verdict is read in time, a failed session has set the flag. -/
theorem Owing.flag (h : Owing s) (hr : Registered s) (hok : FoldsInTime s (.main .load)) (hf : s.someFailed = true) :
    s.anyFailure = true := by
  obtain ⟨x, -, hx⟩ := List.any_eq_true.1 hf
  cases hv : s.sessions x with
  | none => rw [hv] at hx; cases hx
  | some v =>
    rw [hv] at hx
    simp only [Option.any_some, Bool.and_eq_true, decide_eq_true_eq, beq_iff_eq, Bool.not_eq_true'] at hx
    obtain ⟨⟨hmade, hlive⟩, hbad⟩ := hx
    rcases h.owed x v hv hmade hlive hbad with hany | ⟨c, hc⟩
    · exact hany
    · rcases hok with hany | hnone
      · exact hany
      · have hmem : c ∈ s.accepted := by
          rw [hr.accepted]
          intro habs
          rw [habs] at hc
          exact absurd hc (Phase.not_willFold nofun rfl)
        have hclean : s.clean x = false := by
          unfold State.clean
          rw [completedOk_of hv, hadError_of hv]
          exact hbad
        have howes := hnone c hmem
        unfold State.owes at howes
        rcases hc with hc | hc
        · rw [hc] at howes
          cases howes
        · rw [hc, Option.any_some, hclean] at howes
          simp at howes

theorem Aggregated.mainEffect {a : MainAct} (h : Aggregated s) (ho : Owing s) (hr : Registered s)
    (hok : FoldsInTime s (.main a)) (he : MainEffect cfg s a s') : Aggregated s' := by
  have ht : ∀ c, (s'.conns c).judges = false := by
    intro d
    rcases he.conns d with hd | ⟨-, hd⟩
    · rw [hd]
      exact h.threads d
    · rw [hd]
      rfl
  obtain ⟨-, h2, h3, h4, h5, h6⟩ := id h
  cases he with
  | accept => exact h.same rfl ht
  | waitSeen => exact h.same rfl ht
  | waitNone => exact ⟨ht, h2, nofun, nofun, h5, nofun⟩
  | waitEarly => exact ⟨ht, h2, nofun, nofun, h5, nofun⟩
  | waitLate => exact ⟨ht, h2, nofun, nofun, h5, nofun⟩
  | waitDefer => exact ⟨ht, h2, nofun, nofun, h5, nofun⟩
  | waitExpire => exact ⟨ht, h2, nofun, nofun, h5, nofun⟩
  | drain => exact ⟨ht, h2, nofun, nofun, h5, nofun⟩
  | drained => exact ⟨ht, h2, nofun, nofun, h5, nofun⟩
  | snapshot => exact ⟨ht, h2, nofun, nofun, h5, nofun⟩
  | arm => exact ⟨ht, h2, nofun, nofun, h5, nofun⟩
  | due => exact ⟨ht, h2, nofun, nofun, h5, nofun⟩
  | wait => exact ⟨ht, h2, nofun, nofun, h5, nofun⟩
  | cancel => exact ⟨ht, h2, nofun, nofun, h5, nofun⟩
  | exchangeLost => exact ⟨ht, h2, nofun, nofun, h5, nofun⟩
  | exchangeWon _ hf => exact ⟨ht, nofun, fun _ => ⟨h2 hf, rfl⟩, nofun, h5, nofun⟩
  | load hq =>
    obtain ⟨hnil, hterm⟩ := h3 hq
    have hshould : s.shouldExit = true → False := by
      intro hx
      obtain ⟨failed, hlist, -⟩ := h5 hx
      rw [hnil] at hlist
      cases hlist
    refine ⟨ht, ?_, nofun, ?_, fun hx => absurd hx hshould, nofun⟩
    · exact fun hx => nomatch hx.symm.trans hterm
    · intro failed hfailed
      cases hfailed
      refine ⟨s.someFailed, congrArg (· ++ [_]) hnil, fun hsome => ?_, ?_⟩
      · rw [ho.flag hr hok hsome]
        rfl
      · split
        · exact .inr rfl
        · exact .inl rfl
  | publish hq => exact ⟨ht, h2, nofun, nofun, fun _ => h4 _ hq, nofun⟩
  | ret _ _ hx =>
    refine ⟨ht, h2, nofun, nofun, h5, fun code hcode => ?_⟩
    cases hcode
    exact h5 hx

theorem reach_aggregated (hm : cfg.mode = .onceMulti) (h : (machine cfg).Reach FoldsInTime s) : Aggregated s := by
  induction h with
  | init => exact aggregated_start
  | step hs hc hok ih =>
    rcases step_cases hc with ⟨c, a, rfl, he⟩ | ⟨a, rfl, he⟩ | ⟨d, -, he⟩
    · exact ih.effect hm he
    · exact ih.mainEffect (reach_owing hm hs) (reach_registered hs) hok he
    · rw [he]
      exact ih.same rfl ih.threads

/-- **The exit code of `--once-multi` aggregates every failure**, if the failures are folded
in time. -/
theorem multi_aggregates_failures (hm : cfg.mode = .onceMulti) (hs : (machine cfg).Reach FoldsInTime s) :
    ∀ code, s.main = .returned code →
      ∃ failed, s.failedAtVerdict = [failed] ∧ (failed = true → code = kExitOnceSessionFailed) ∧
        (code = kExitOk → failed = false) := by
  intro code hcode
  obtain ⟨failed, hlist, hfail, -⟩ := (reach_aggregated hm hs).returned code hcode
  refine ⟨failed, hlist, hfail, fun hok => ?_⟩
  cases failed with
  | false => rfl
  | true => exact nomatch hok.symm.trans (hfail rfl)

/-- A session of one lane, which ends with an error. -/
def failedLane : List Event :=
  [.main (.accept 0), .conn 0 .claimAuth, .conn 0 (.create 7 42), .conn 0 .sendOk, .conn 0 .readType, .conn 0 .claim,
    .conn 0 .endError, .conn 0 .close]

/-- The fold of the last lane. -/
def foldLane : List Event := [.conn 0 .sweep, .conn 0 .check, .conn 0 .readOk, .conn 0 .storeFailure]

/-- The idle period starts, is over, and the verdict is read. -/
def idleVerdict : List Event :=
  [.main .snapshot, .main .decide, .elapse 5000, .main .snapshot, .main .decide, .main .exchange, .main .load,
    .main .publish, .main .ret]

theorem multi_aggregates_one :
    ((machine ⟨.onceMulti, 5000, 300000⟩).run .start (failedLane ++ foldLane ++ idleVerdict)).main =
        .returned kExitOnceSessionFailed ∧
      ∃ failed,
        ((machine ⟨.onceMulti, 5000, 300000⟩).run .start (failedLane ++ foldLane ++ idleVerdict)).failedAtVerdict = [failed] ∧
          (failed = true → kExitOnceSessionFailed = kExitOnceSessionFailed) ∧
          (kExitOnceSessionFailed = kExitOk → failed = false) :=
  ⟨by decide, multi_aggregates_failures rfl (Machine.reach_run (by decide)) _ (by decide)⟩

/-- The verdict is read after the failed session's last lane has closed and before its thread
folds the failure: the server exits with 0. -/
theorem unfolded_failure_lost :
    ∃ s, (machine ⟨.onceMulti, 5000, 300000⟩).Reach (fun _ _ => True) s ∧ s.main = .returned kExitOk ∧
      s.failedAtVerdict = [true] :=
  ⟨(machine ⟨.onceMulti, 5000, 300000⟩).run .start (failedLane ++ idleVerdict), Machine.reach_run (by decide), by decide,
    by decide⟩

end FastClone.Sessions
