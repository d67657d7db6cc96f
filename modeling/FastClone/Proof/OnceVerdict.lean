import FastClone.Proof.SessionFlags

/-!
# The verdict of `--once`

* `Once` holds in every run: the sessions served as Sync are the claimed one, and the verdict
  is taken at most once, after the count of the claimed session was brought to 0.
* `Truthful` holds as long as no lane joins the claimed session after that, and no session is
  claimed when the server has given up waiting for one: the code that `RunServer` returns then
  tells how the lanes of the session have ended, or that there was none.
-/

namespace FastClone.Sessions

open Runs

variable {cfg : Config} {ok : State → Event → Prop} {s s' : State} {c : ℕ} {a : Act} {p : Phase}

/-! ### Every run -/

/-- The claimed session, and that its count was brought to 0. -/
def State.targetEmptied (s : State) : Prop := ∃ x, s.target = some x ∧ x ∈ s.emptied

def OnceOK (s : State) : Phase → Prop
  | .serving x b => b = false → s.target = some x
  | .ended x => s.typeOf x = .check ∨ s.targetClaimed = true
  | .closed x r | .swept x r => (s.typeOf x = .check ∨ s.targetClaimed = true) ∧ (r = 0 → x ∈ s.emptied)
  | .judging x | .judgedOk x => s.target = some x ∧ x ∈ s.emptied
  | .firing _ => s.targetEmptied
  | _ => True

/-- In an evaluation of the idle grace. -/
def Main.inGrace : Main → Bool
  | .snapped _ _ | .firing | .loading | .storing _ => true
  | _ => false

structure Once (s : State) : Prop where
  claimed : s.targetClaimed = true ↔ s.target ≠ none
  served : ∀ x ∈ s.served, s.target = some x
  phase : ∀ c, OnceOK s (s.conns c)
  firedOnce : s.fired.length = if s.terminalFired then 1 else 0
  firedAfter : s.fired ≠ [] → s.targetEmptied
  noGrace : s.main.inGrace = false

theorem once_start : Once .start where
  claimed := ⟨nofun, fun h => absurd rfl h⟩
  served _ h := absurd h List.not_mem_nil
  phase _ := trivial
  firedOnce := rfl
  firedAfter h := absurd rfl h
  noGrace := rfl

/-- What a thread's place asks for is not lost. -/
theorem OnceOK.mono (h : OnceOK s p) (htype : ∀ x, s.typeOf x = .check → s'.typeOf x = .check)
    (hclaimed : s.targetClaimed = true → s'.targetClaimed = true)
    (htarget : ∀ x, s.target = some x → s'.target = some x) (hemp : s.emptied ⊆ s'.emptied) : OnceOK s' p := by
  have hor : ∀ x, s.typeOf x = .check ∨ s.targetClaimed = true → s'.typeOf x = .check ∨ s'.targetClaimed = true :=
    fun x => Or.imp (htype x) hclaimed
  cases p with
  | serving x b => exact fun hb => htarget x (h hb)
  | ended x => exact hor x h
  | closed x r => exact ⟨hor x h.1, fun hr => hemp (h.2 hr)⟩
  | swept x r => exact ⟨hor x h.1, fun hr => hemp (h.2 hr)⟩
  | judging x => exact ⟨htarget x h.1, hemp h.2⟩
  | judgedOk x => exact ⟨htarget x h.1, hemp h.2⟩
  | firing b =>
    obtain ⟨x, hx, hmem⟩ := h
    exact ⟨x, htarget x hx, hemp hmem⟩
  | _ => trivial

/-- A step that serves nothing new and takes no verdict. -/
theorem Once.move (h : Once s) (hconns : s'.conns = Function.update s.conns c p) (hp : OnceOK s' p)
    (htype : ∀ x, s.typeOf x = .check → s'.typeOf x = .check) (htarget : s'.target = s.target)
    (hclaimed : s'.targetClaimed = s.targetClaimed) (hemp : s.emptied ⊆ s'.emptied) (hserved : s'.served = s.served)
    (hfired : s'.fired = s.fired) (hterm : s'.terminalFired = s.terminalFired) (hmain : s'.main = s.main) :
    Once s' := by
  have hte : s.targetEmptied → s'.targetEmptied := by
    rintro ⟨x, hx, hmem⟩
    exact ⟨x, htarget.trans hx, hemp hmem⟩
  refine ⟨?_, ?_, ?_, ?_, ?_, ?_⟩
  · rw [htarget, hclaimed]
    exact h.claimed
  · rw [htarget, hserved]
    exact h.served
  · intro d
    rw [hconns]
    by_cases hd : d = c
    · rw [hd, Function.update_self]
      exact hp
    · rw [Function.update_of_ne hd]
      exact (h.phase d).mono htype (fun hc => hclaimed.trans hc) (fun x hx => htarget.trans hx) hemp
  · rw [hfired, hterm]
    exact h.firedOnce
  · rw [hfired]
    exact fun hne => hte (h.firedAfter hne)
  · rw [hmain]
    exact h.noGrace

theorem Once.goto (h : Once s) (hp : OnceOK s p) : Once (s.goto c p) := by
  refine h.move rfl ?_ (fun _ => id) rfl rfl (fun _ => id) rfl rfl rfl rfl
  cases p <;> exact hp

theorem emptied_closed (s : State) (c x : ℕ) : s.emptied ⊆ (s.onConnectionClosed c x).emptied := by
  intro y hy
  show y ∈ if s.liveConns x - 1 = 0 then s.emptied ++ [x] else s.emptied
  split
  · exact List.mem_append_left _ hy
  · exact hy

theorem mem_emptied_closed (s : State) (c x : ℕ) (h : s.liveConns x - 1 = 0) :
    x ∈ (s.onConnectionClosed c x).emptied := by
  show x ∈ if s.liveConns x - 1 = 0 then s.emptied ++ [x] else s.emptied
  rw [if_pos h]
  exact List.mem_append_right _ (List.mem_singleton.2 rfl)

/-- The session is claimed, or found claimed, and served. -/
theorem Once.serving (h : Once s) {x : ℕ} (ht : s'.target = some x) (hc : s'.targetClaimed = true)
    (hkeep : ∀ y, s.target = some y → y = x)
    (hsess : s'.sessions = s.sessions) (hemp : s'.emptied = s.emptied) (hserved : s'.served = s.served)
    (hfired : s'.fired = s.fired) (hterm : s'.terminalFired = s.terminalFired) (hmain : s'.main = s.main)
    (hconns : s'.conns = s.conns) : Once (s'.serve c x false) := by
  have htarget : ∀ y, s.target = some y → s'.target = some y := fun y hy => (hkeep y hy) ▸ ht
  refine ⟨?_, ?_, ?_, ?_, ?_, ?_⟩
  · show s'.targetClaimed = true ↔ s'.target ≠ none
    rw [hc, ht]
    exact ⟨fun _ => nofun, fun _ => rfl⟩
  · intro y hy
    change y ∈ s'.served ++ [x] at hy
    show s'.target = some y
    rw [hserved] at hy
    rcases List.mem_append.1 hy with hy | hy
    · exact htarget y (h.served y hy)
    · rw [List.mem_singleton.1 hy, ht]
  · intro d
    rw [serve_conns, hconns]
    by_cases hd : d = c
    · rw [hd, Function.update_self]
      exact fun _ => ht
    · rw [Function.update_of_ne hd]
      refine (h.phase d).mono (fun y hy => ?_) (fun _ => hc) htarget (fun y hy => ?_)
      · show (Option.map _ (s'.sessions y)).getD _ = _
        rw [hsess]
        exact hy
      · show y ∈ s'.emptied
        rw [hemp]
        exact hy
  · show s'.fired.length = _
    rw [hfired, h.firedOnce, ← hterm]
    rfl
  · intro hne
    obtain ⟨y, hy, hmem⟩ := h.firedAfter (hfired ▸ hne)
    exact ⟨y, htarget y hy, hemp ▸ hmem⟩
  · show s'.main.inGrace = false
    rw [hmain]
    exact h.noGrace

/-- **A step of a connection's thread.** -/
theorem Once.effect (h : Once s) (hf : Flagged s) (hm : cfg.mode = .once) (he : Effect cfg s c a s') : Once s' := by
  have hat := h.phase c
  have htype : ∀ x, s.typeOf x = .check → s'.typeOf x = .check := fun x hx => he.typeOf_check hx
  -- a lane that ends has read Check, or serves the claimed session
  have hended : ∀ {x b}, s.conns c = .serving x b → s.typeOf x = .check ∨ s.targetClaimed = true := by
    intro x b hx
    cases b with
    | true => exact .inl (hf.read c x (by rw [hx]; rfl))
    | false =>
      right
      rw [hx] at hat
      rw [h.claimed, hat rfl]
      nofun
  cases he with
  | join => exact h.move rfl trivial htype rfl rfl (fun _ => id) rfl rfl rfl rfl
  | createSync => exact h.move rfl trivial htype rfl rfl (fun _ => id) rfl rfl rfl rfl
  | createCheck => exact h.move rfl trivial htype rfl rfl (fun _ => id) rfl rfl rfl rfl
  | setType => exact h.move rfl trivial htype rfl rfl (fun _ => id) rfl rfl rfl rfl
  | @sendFail x hq => exact h.move rfl trivial htype rfl rfl (emptied_closed s c x) rfl rfl rfl rfl
  | @claimNew x hq _ hc =>
    have hnone : s.target = none := by
      by_contra hne
      rw [h.claimed.2 hne] at hc
      cases hc
    refine h.serving rfl rfl (fun y hy => ?_) rfl rfl rfl rfl rfl rfl rfl
    rw [hnone] at hy
    cases hy
  | @claimMatch x hq _ hc ht =>
    refine h.serving ht hc (fun y hy => ?_) rfl rfl rfl rfl rfl rfl rfl
    rw [ht] at hy
    exact (Option.some.inj hy).symm
  | claimRefused hq _ hc => exact h.goto (.inr hc)
  | @serve x b hq hno =>
    cases b with
    | true => exact h.move rfl nofun (fun _ => id) rfl rfl (fun _ => id) rfl rfl rfl rfl
    | false => exact absurd ⟨hm, rfl⟩ hno
  | @endClean x b hq =>
    have hor := hended hq
    unfold State.endedClean at htype ⊢
    split
    · rename_i hg
      rw [if_pos hg] at htype
      exact h.move rfl (hor.imp_left (htype x)) htype rfl rfl (fun _ => id) rfl rfl rfl rfl
    · exact h.move rfl hor (fun _ => id) rfl rfl (fun _ => id) rfl rfl rfl rfl
  | @endError x b hq =>
    have hor := hended hq
    unfold State.endedError at htype ⊢
    split
    · rename_i hg
      rw [if_pos hg] at htype
      exact h.move rfl (hor.imp_left (htype x)) htype rfl rfl (fun _ => id) rfl rfl rfl rfl
    · exact h.move rfl hor (fun _ => id) rfl rfl (fun _ => id) rfl rfl rfl rfl
  | @close x hq =>
    rw [hq] at hat
    refine h.move rfl ⟨Or.imp_left (htype x) hat, fun hr => ?_⟩ htype rfl rfl (emptied_closed s c x) rfl rfl rfl rfl
    exact mem_emptied_closed s c x hr
  | @sweep x r hq =>
    rw [hq] at hat
    exact h.move rfl hat (fun _ => id) rfl rfl (fun _ => id) rfl rfl rfl rfl
  | sweepNone => exact h.move rfl trivial (fun _ => id) rfl rfl (fun _ => id) rfl rfl rfl rfl
  | checkTarget hq _ _ ht =>
    rw [hq] at hat
    exact h.goto ⟨ht, hat.2 rfl⟩
  | checkFold _ hm' =>
    rw [hm] at hm'
    cases hm'
  | judgeOk hq =>
    rw [hq] at hat
    exact h.goto hat
  | judgeBad hq =>
    rw [hq] at hat
    exact h.goto ⟨_, hat⟩
  | judgeErr hq =>
    rw [hq] at hat
    exact h.goto ⟨_, hat⟩
  | @exchangeWon b hq hfire =>
    rw [hq] at hat
    have hlen : s.fired.length = 0 := by rw [h.firedOnce, hfire]; rfl
    refine ⟨h.claimed, h.served, fun d => ?_, ?_, fun _ => hat, h.noGrace⟩
    · rw [goto_conns]
      by_cases hd : d = c
      · rw [hd, Function.update_self]
        trivial
      · rw [Function.update_of_ne hd]
        exact (h.phase d).mono (fun _ => id) id (fun _ => id) (fun _ => id)
    · show (s.fired ++ [_]).length = 1
      rw [List.length_append, hlen]
      rfl
  | storeCode => exact h.move rfl trivial (fun _ => id) rfl rfl (fun _ => id) rfl rfl rfl rfl
  | storeExit => exact h.move rfl trivial (fun _ => id) rfl rfl (fun _ => id) rfl rfl rfl rfl
  | storeFailure => exact h.move rfl trivial (fun _ => id) rfl rfl (fun _ => id) rfl rfl rfl rfl
  | _ => exact h.goto trivial

/-- In `--once` the main thread accepts, waits for the first session, and returns when it is told
to or has waited too long. -/
theorem Once.mainEffect {a : MainAct} (h : Once s) (hm : cfg.mode = .once) (he : MainEffect cfg s a s') : Once s' := by
  have hno : ∀ {q}, s.main = q → q.inGrace = true → Once s' := by
    intro q hq hgrace
    have hidle := h.noGrace
    rw [hq, hgrace] at hidle
    cases hidle
  obtain ⟨h1, h2, h3, h4, h5, h6⟩ := id h
  cases he with
  | accept => exact h.move rfl trivial (fun _ => id) rfl rfl (fun _ => id) rfl rfl rfl rfl
  | waitSeen => exact ⟨h1, h2, h3, h4, h5, h6⟩
  | snapshot _ hmode =>
    rw [hm] at hmode
    cases hmode
  | arm hq => exact hno hq rfl
  | due hq => exact hno hq rfl
  | wait hq => exact hno hq rfl
  | cancel hq => exact hno hq rfl
  | exchangeLost hq => exact hno hq rfl
  | exchangeWon hq => exact hno hq rfl
  | load hq => exact hno hq rfl
  | publish hq => exact hno hq rfl
  | _ => exact ⟨h1, h2, h3, h4, h5, rfl⟩

/-- **Every run of `--once`** serves one Sync session and takes one verdict, after the
session's count was brought to 0. -/
theorem reach_once (hm : cfg.mode = .once) (h : (machine cfg).Reach ok s) : Once s := by
  have hshot : cfg.mode.oneShot = true := by rw [hm]; rfl
  induction h with
  | init => exact once_start
  | step hs hc _ ih =>
    rcases step_cases hc with ⟨c, a, -, he⟩ | ⟨a, -, he⟩ | ⟨d, -, he⟩
    · exact ih.effect (reach_flagged hshot hs) hm he
    · exact ih.mainEffect hm he
    · obtain ⟨h1, h2, h3, h4, h5, h6⟩ := ih
      rw [he]
      exact ⟨h1, h2, h3, h4, h5, h6⟩

/-! ### Runs without a late join or claim -/

/-- No `SessionJoin` finds the claimed session after its count has been brought to 0. -/
def NoLateJoin (s : State) : Event → Prop
  | .conn c (.claimJoin id) =>
    s.conns c = .handshake → ∀ x ∈ s.find id, s.target = some x → s.liveConns x ≠ 0
  | _ => True

instance : DecidablePred (NoLateJoin s)
  | .conn c (.claimJoin id) => inferInstanceAs
      (Decidable (s.conns c = .handshake → ∀ x ∈ s.find id, s.target = some x → s.liveConns x ≠ 0))
  | .conn _ .claimAuth | .conn _ .claimCheck | .conn _ .refuse | .conn _ (.create _ _) | .conn _ .setType
  | .conn _ .sendOk | .conn _ .sendFail | .conn _ .readType | .conn _ .claim | .conn _ .endClean
  | .conn _ .endError | .conn _ .close | .conn _ .sweep | .conn _ .check | .conn _ .readOk | .conn _ .readErr
  | .conn _ .exchange | .conn _ .storeCode | .conn _ .storeExit | .conn _ .storeFailure | .conn _ .leave
  | .main _ | .elapse _ => .isTrue trivial

/-- The server has given up waiting for a session. -/
def Main.givenUp : Main → Bool
  | .draining _ | .timedOut => true
  | _ => false

/-- About to claim the session as the once target. -/
def Phase.claims : Phase → Bool
  | .typed _ isCheck => !isCheck
  | _ => false

/-- No session is claimed when the server gives up waiting for one, and none after that. -/
def NoLateClaim (s : State) : Event → Prop
  | .main .drain => s.targetClaimed = false
  | .conn c .claim => s.main.givenUp = true → (s.conns c).claims = false
  | _ => True

instance : DecidablePred (NoLateClaim s)
  | .main .drain => inferInstanceAs (Decidable (s.targetClaimed = false))
  | .conn c .claim => inferInstanceAs (Decidable (s.main.givenUp = true → (s.conns c).claims = false))
  | .conn _ .claimAuth | .conn _ .claimCheck | .conn _ (.claimJoin _) | .conn _ .refuse | .conn _ (.create _ _)
  | .conn _ .setType | .conn _ .sendOk | .conn _ .sendFail | .conn _ .readType | .conn _ .endClean
  | .conn _ .endError | .conn _ .close | .conn _ .sweep | .conn _ .check | .conn _ .readOk | .conn _ .readErr
  | .conn _ .exchange | .conn _ .storeCode | .conn _ .storeExit | .conn _ .storeFailure | .conn _ .leave
  | .main (.accept _) | .main .waitSnapshot | .main .waitClock | .main .waitLoad | .main .drained
  | .main .snapshot | .main .decide | .main .exchange | .main .load | .main .publish | .main .ret
  | .elapse _ => .isTrue trivial

/-- Nothing comes too late for the report. -/
def InTime (s : State) (e : Event) : Prop := NoLateJoin s e ∧ NoLateClaim s e

instance : DecidablePred (InTime s) := fun _ => inferInstanceAs (Decidable (_ ∧ _))

/-- The claimed session has no lane any more. -/
def Finished (s : State) (x : ℕ) : Prop :=
  s.target = some x ∧ ∃ v, s.sessions x = some v ∧ v.liveConns = 0 ∧ v.type ≠ .check

/-- The code tells how the lanes of the claimed session had ended when the verdict was taken. -/
def Told (s : State) (code : ℕ) : Prop :=
  ∃ clean error, s.fired = [(clean, error)] ∧ (code = kExitOk ↔ clean = true ∧ error = false)

def TruthOK (s : State) : Phase → Prop
  | .closed x r | .swept x r => r = 0 → s.target = some x → s.typeOf x ≠ .check → Finished s x
  | .judging x => Finished s x
  | .judgedOk x => Finished s x ∧ s.completedOk x = true
  | .firing b => ∃ x, Finished s x ∧ (b = true ↔ s.completedOk x = true ∧ s.hadError x = false)
  | .publishing b => Told s (if b then kExitOk else kExitOnceSessionFailed)
  | .published => Told s s.exitCode
  | _ => True

structure Truthful (s : State) : Prop where
  phase : ∀ c, TruthOK s (s.conns c)
  exit : s.shouldExit = true → Told s s.exitCode
  returned : ∀ code, s.main = .returned code → Told s code
  givenUp : s.main.givenUp = true → s.targetClaimed = false

theorem truthful_start : Truthful .start where
  phase _ := trivial
  exit h := nomatch h
  returned _ h := nomatch h
  givenUp h := nomatch h

theorem completedOk_of {x : ℕ} {v : Session} (h : s.sessions x = some v) : s.completedOk x = v.completedOk := by
  unfold State.completedOk
  rw [h]
  rfl

theorem hadError_of {x : ℕ} {v : Session} (h : s.sessions x = some v) : s.hadError x = v.hadError := by
  unfold State.hadError
  rw [h]
  rfl

/-- What a thread's place asks for, when the session that it is about stays. -/
theorem TruthOK.mono (h : TruthOK s p) (htarget : ∀ x, Finished s x → s'.target = some x)
    (hsess : ∀ x, Finished s x → s'.sessions x = s.sessions x)
    (hback : ∀ x, s'.target = some x → s'.typeOf x ≠ .check → s.target = some x ∧ s.typeOf x ≠ .check ∨
      ∀ r, p ≠ .closed x r ∧ p ≠ .swept x r)
    (hfired : s'.fired = s.fired) (hcode : p = .published → Told s s'.exitCode) : TruthOK s' p := by
  have hfin : ∀ x, Finished s x → Finished s' x := by
    intro x hx
    obtain ⟨-, v, hv, hlive, hty⟩ := id hx
    exact ⟨htarget x hx, v, (hsess x hx).trans hv, hlive, hty⟩
  have hok : ∀ x, Finished s x → s'.completedOk x = s.completedOk x ∧ s'.hadError x = s.hadError x := by
    intro x hx
    unfold State.completedOk State.hadError
    rw [hsess x hx]
    exact ⟨rfl, rfl⟩
  cases p with
  | closed x r =>
    intro hr ht hty
    rcases hback x ht hty with ⟨ht, hty⟩ | hne
    · exact hfin x (h hr ht hty)
    · exact absurd rfl (hne r).1
  | swept x r =>
    intro hr ht hty
    rcases hback x ht hty with ⟨ht, hty⟩ | hne
    · exact hfin x (h hr ht hty)
    · exact absurd rfl (hne r).2
  | judging x => exact hfin x h
  | judgedOk x => exact ⟨hfin x h.1, (hok x h.1).1.trans h.2⟩
  | firing b =>
    obtain ⟨x, hx, hb⟩ := h
    refine ⟨x, hfin x hx, ?_⟩
    rw [(hok x hx).1, (hok x hx).2]
    exact hb
  | publishing b =>
    obtain ⟨clean, error, hf, hb⟩ := h
    exact ⟨clean, error, hfired.trans hf, hb⟩
  | published =>
    obtain ⟨clean, error, hf, hb⟩ := hcode rfl
    exact ⟨clean, error, hfired.trans hf, hb⟩
  | _ => trivial

/-- A finished session is left alone by every step that is no late join. -/
theorem Finished.session (hr : Registered s) (hok : NoLateJoin s (.conn c a)) (he : Effect cfg s c a s') {x : ℕ}
    (h : Finished s x) : s'.sessions x = s.sessions x := by
  obtain ⟨ht, v, hv, hlive, -⟩ := h
  rw [hv]
  refine he.session_frame hv (fun hheld => ?_) (fun id ha hq hx => ?_)
  · have hpos := hr.holders_pos hheld
    rw [← hr.counted x v hv, hlive] at hpos
    exact absurd hpos (Nat.lt_irrefl 0)
  · subst ha
    refine hok hq x hx ht ?_
    rw [liveConns_of hv]
    exact hlive

/-- A step that neither claims nor publishes. -/
theorem Truthful.move (h : Truthful s) (hsess : ∀ x, Finished s x → s'.sessions x = s.sessions x)
    (hconns : s'.conns = Function.update s.conns c p) (hp : TruthOK s' p)
    (htype : ∀ x, s.typeOf x = .check → s'.typeOf x = .check) (htarget : s'.target = s.target)
    (hclaimed : s'.targetClaimed = s.targetClaimed) (hfired : s'.fired = s.fired)
    (hexit : s'.shouldExit = s.shouldExit) (hcode : s'.exitCode = s.exitCode)
    (hmain : s'.main = s.main) : Truthful s' := by
  have htold : ∀ code, Told s code → Told s' code := by
    rintro code ⟨clean, error, hf, hb⟩
    exact ⟨clean, error, hfired.trans hf, hb⟩
  refine ⟨?_, ?_, ?_, ?_⟩
  · intro d
    rw [hconns]
    by_cases hd : d = c
    · rw [hd, Function.update_self]
      exact hp
    · rw [Function.update_of_ne hd]
      refine (h.phase d).mono (fun x hx => htarget.trans hx.1) hsess (fun x ht hty => .inl ⟨?_, ?_⟩) hfired ?_
      · rwa [← htarget]
      · exact fun hc => hty (htype x hc)
      · intro hd'
        have hpub := h.phase d
        rw [hd'] at hpub
        rw [hcode]
        exact hpub
  · rw [hexit, hcode]
    exact fun hx => htold _ (h.exit hx)
  · rw [hmain]
    exact fun code hx => htold _ (h.returned code hx)
  · rw [hmain, hclaimed]
    exact h.givenUp

theorem Truthful.goto (h : Truthful s) (hp : TruthOK s p) : Truthful (s.goto c p) := by
  refine h.move (fun _ _ => rfl) rfl ?_ (fun _ => id) rfl rfl rfl rfl rfl rfl
  cases p <;> exact hp

/-- A new target is claimed: the threads that have closed a session before this one are past it. -/
theorem Truthful.claim (h : Truthful s) (ho : Once s) {x : ℕ} (hc : s.targetClaimed = false)
    (hup : s.main.givenUp = false) :
    Truthful ({ s with target := some x, targetClaimed := true }.serve c x false) := by
  have hnone : s.target = none := by
    by_contra hne
    rw [ho.claimed.2 hne] at hc
    cases hc
  have hno : ∀ y, ¬ Finished s y := by
    rintro y ⟨hy, -⟩
    rw [hnone] at hy
    cases hy
  -- such a session would have been claimed already, unless it is a Check session
  have hpast : ∀ {y}, (s.typeOf y = .check ∨ s.targetClaimed = true) → s.typeOf y ≠ .check → False := by
    intro y hor hty
    rcases hor with hor | hor
    · exact hty hor
    · rw [hc] at hor
      cases hor
  refine ⟨?_, h.exit, h.returned, fun hx => nomatch hx.symm.trans hup⟩
  intro d
  rw [serve_conns]
  by_cases hd : d = c
  · rw [hd, Function.update_self]
    trivial
  · rw [Function.update_of_ne hd]
    refine (h.phase d).mono (fun y hy => absurd hy (hno y)) (fun y hy => absurd hy (hno y)) ?_ rfl ?_
    · intro y _ hty
      right
      intro r
      have hat := ho.phase d
      constructor
      · intro hq
        change s.conns d = .closed y r at hq
        rw [hq] at hat
        exact hpast hat.1 hty
      · intro hq
        change s.conns d = .swept y r at hq
        rw [hq] at hat
        exact hpast hat.1 hty
    · intro hq
      change s.conns d = .published at hq
      have hpub := h.phase d
      rw [hq] at hpub
      exact hpub

/-- The verdict is taken on a finished session. -/
theorem Truthful.fire (h : Truthful s) (ho : Once s) (hf : Flagged s) {b : Bool} (hq : s.conns c = .firing b)
    (hfire : s.terminalFired = false) : Truthful (s.fire.goto c (.publishing b)) := by
  have hnil : s.fired = [] := by
    apply List.length_eq_zero_iff.1
    rw [ho.firedOnce, hfire]
    rfl
  have huntold : ∀ {code}, ¬ Told s code := by
    rintro code ⟨clean, error, hfired, -⟩
    rw [hnil] at hfired
    cases hfired
  refine ⟨?_, fun hx => absurd (h.exit hx) huntold, fun code hx => absurd (h.returned code hx) huntold, h.givenUp⟩
  intro d
  rw [goto_conns]
  by_cases hd : d = c
  · rw [hd, Function.update_self]
    have hat := h.phase c
    rw [hq] at hat
    obtain ⟨x, ⟨ht, v, hv, -, hty⟩, hb⟩ := hat
    refine ⟨_, _, congrArg (· ++ [_]) hnil, ?_⟩
    have hclean := hf.clean x v hv hty
    have herror := hf.error x v hv hty
    rw [completedOk_of hv, hadError_of hv, hclean] at hb
    have herror' : v.hadError = false ↔ ¬ s.someError x := by
      rw [← herror]
      exact (Bool.not_eq_true _).symm.to_iff
    rw [herror'] at hb
    rw [ht]
    simp only [Option.some.injEq, decide_eq_true_eq, decide_eq_false_iff_not]
    have hcode : (if b = true then kExitOk else kExitOnceSessionFailed) = kExitOk ↔ b = true := by
      cases b <;> decide
    rw [hcode, hb]
    rfl
  · rw [Function.update_of_ne hd]
    have hat := h.phase d
    show TruthOK (s.fire.goto c (.publishing b)) (s.conns d)
    cases hp : s.conns d with
    | publishing b' => rw [hp] at hat; exact absurd hat huntold
    | published => rw [hp] at hat; exact absurd hat huntold
    | _ => rw [hp] at hat; exact hat

/-- **A step of a connection's thread that is in time.** -/
theorem Truthful.effect (h : Truthful s) (hr : Registered s) (hf : Flagged s) (ho : Once s)
    (hok : InTime s (.conn c a)) (hm : cfg.mode = .once) (he : Effect cfg s c a s') : Truthful s' := by
  have hat := h.phase c
  have htype : ∀ x, s.typeOf x = .check → s'.typeOf x = .check := fun x hx => he.typeOf_check hx
  have hsess : ∀ x, Finished s x → s'.sessions x = s.sessions x := fun x hx => hx.session hr hok.1 he
  cases he with
  | join => exact h.move hsess rfl trivial htype rfl rfl rfl rfl rfl rfl
  | createSync => exact h.move hsess rfl trivial htype rfl rfl rfl rfl rfl rfl
  | createCheck => exact h.move hsess rfl trivial htype rfl rfl rfl rfl rfl rfl
  | setType => exact h.move hsess rfl trivial htype rfl rfl rfl rfl rfl rfl
  | sendFail => exact h.move hsess rfl trivial htype rfl rfl rfl rfl rfl rfl
  | claimNew hq _ hc =>
    refine h.claim ho hc ?_
    by_contra hup
    have hno := hok.2 (by simpa using hup)
    rw [hq] at hno
    cases hno
  | claimMatch => exact h.move hsess rfl trivial htype rfl rfl rfl rfl rfl rfl
  | serve => exact h.move hsess rfl trivial htype rfl rfl rfl rfl rfl rfl
  | endClean =>
    unfold State.endedClean at hsess htype ⊢
    split
    · rename_i hg
      rw [if_pos hg] at hsess htype
      exact h.move hsess rfl trivial htype rfl rfl rfl rfl rfl rfl
    · exact h.move (fun _ _ => rfl) rfl trivial (fun _ => id) rfl rfl rfl rfl rfl rfl
  | endError =>
    unfold State.endedError at hsess htype ⊢
    split
    · rename_i hg
      rw [if_pos hg] at hsess htype
      exact h.move hsess rfl trivial htype rfl rfl rfl rfl rfl rfl
    · exact h.move (fun _ _ => rfl) rfl trivial (fun _ => id) rfl rfl rfl rfl rfl rfl
  | @close x hq =>
    refine h.move hsess rfl (fun hr0 ht hty => ⟨ht, ?_⟩) htype rfl rfl rfl rfl rfl rfl
    -- the lane that leaves was the last one
    obtain ⟨v, hv⟩ := hr.held c x (by rw [hq]; rfl)
    have hself := change_sessions_self s x (fun v => { v with liveConns := v.liveConns - 1, lastActivity := s.now }) hv
    refine ⟨_, hself, ?_, ?_⟩
    · rw [liveConns_of hv] at hr0
      exact hr0
    · have hcheck : v.type = .check → False := fun hv' => hty (htype x ((typeOf_of hv).trans hv'))
      exact hcheck
  | sweep hq =>
    rw [hq] at hat
    exact h.move hsess rfl hat htype rfl rfl rfl rfl rfl rfl
  | sweepNone => exact h.move hsess rfl trivial htype rfl rfl rfl rfl rfl rfl
  | checkTarget hq _ hty ht =>
    rw [hq] at hat
    exact h.goto (hat rfl ht hty)
  | checkFold _ hm' =>
    rw [hm] at hm'
    cases hm'
  | judgeOk hq hdone =>
    rw [hq] at hat
    exact h.goto ⟨hat, hdone⟩
  | @judgeBad x hq hdone =>
    rw [hq] at hat
    refine h.goto ⟨x, hat, ?_⟩
    rw [hdone]
    exact ⟨nofun, fun hall => nomatch hall.1⟩
  | @judgeErr x hq =>
    rw [hq] at hat
    refine h.goto ⟨x, hat.1, ?_⟩
    rw [hat.2, Bool.not_eq_true']
    exact ⟨fun he => ⟨rfl, he⟩, And.right⟩
  | exchangeWon hq hfire => exact h.fire ho hf hq hfire
  | @storeCode b hq =>
    rw [hq] at hat
    refine ⟨fun d => ?_, fun hx => ?_, h.returned, h.givenUp⟩
    · rw [goto_conns]
      by_cases hd : d = c
      · rw [hd, Function.update_self]
        exact hat
      · rw [Function.update_of_ne hd]
        exact (h.phase d).mono (fun _ hx => hx.1) (fun _ _ => rfl) (fun _ ht hty => .inl ⟨ht, hty⟩) rfl fun _ => hat
    · exact hat
  | storeExit hq =>
    rw [hq] at hat
    refine ⟨fun d => ?_, fun _ => hat, h.returned, h.givenUp⟩
    rw [goto_conns]
    by_cases hd : d = c
    · rw [hd, Function.update_self]
      trivial
    · rw [Function.update_of_ne hd]
      refine (h.phase d).mono (fun _ hx => hx.1) (fun _ _ => rfl) (fun _ ht hty => .inl ⟨ht, hty⟩) rfl fun _ => hat
  | storeFailure => exact h.move hsess rfl trivial htype rfl rfl rfl rfl rfl rfl
  | _ => exact h.goto trivial

/-- What the threads' places ask for does not depend on the main thread. -/
theorem Truthful.main (h : Truthful s) {m : Main} {seen : Bool}
    (hret : ∀ code, m = .returned code → Told s code) (hup : m.givenUp = true → s.targetClaimed = false) :
    Truthful { s with main := m, firstConnSeen := seen } := by
  refine ⟨fun d => ?_, h.exit, hret, hup⟩
  exact (h.phase d).mono (fun _ hx => hx.1) (fun _ _ => rfl) (fun _ ht hty => .inl ⟨ht, hty⟩) rfl
    fun hd => (show TruthOK s .published from hd ▸ h.phase d)

theorem Truthful.mainEffect {a : MainAct} (h : Truthful s) (ho : Once s) (hm : cfg.mode = .once)
    (hok : InTime s (.main a)) (he : MainEffect cfg s a s') : Truthful s' := by
  have hno : ∀ {q}, s.main = q → q.inGrace = true → Truthful s' := by
    intro q hq hgrace
    have hidle := ho.noGrace
    rw [hq, hgrace] at hidle
    cases hidle
  cases he with
  | accept => exact h.move (fun _ _ => rfl) rfl trivial (fun _ => id) rfl rfl rfl rfl rfl rfl
  | waitSeen => exact h.main h.returned h.givenUp
  | drain => exact h.main nofun fun _ => hok.2
  | drained hq => exact h.main nofun fun _ => h.givenUp (by rw [hq]; rfl)
  | snapshot _ hmode =>
    rw [hm] at hmode
    cases hmode
  | arm hq => exact hno hq rfl
  | due hq => exact hno hq rfl
  | wait hq => exact hno hq rfl
  | cancel hq => exact hno hq rfl
  | exchangeLost hq => exact hno hq rfl
  | exchangeWon hq => exact hno hq rfl
  | load hq => exact hno hq rfl
  | publish hq => exact hno hq rfl
  | ret _ _ hx =>
    refine h.main (fun code hcode => ?_) nofun
    cases hcode
    exact h.exit hx
  | _ => exact h.main nofun nofun

/-- **Runs in which nothing comes too late.** -/
theorem reach_truthful (hm : cfg.mode = .once) (h : (machine cfg).Reach InTime s) : Truthful s := by
  have hshot : cfg.mode.oneShot = true := by rw [hm]; rfl
  induction h with
  | init => exact truthful_start
  | step hs hc hok ih =>
    rcases step_cases hc with ⟨c, a, rfl, he⟩ | ⟨a, rfl, he⟩ | ⟨d, -, he⟩
    · exact ih.effect (reach_registered hs) (reach_flagged hshot hs) (reach_once hm hs) hok hm he
    · exact ih.mainEffect (reach_once hm hs) hm hok he
    · rw [he]
      refine ⟨fun c => ?_, ih.exit, ih.returned, ih.givenUp⟩
      exact (ih.phase c).mono (fun _ hx => hx.1) (fun _ _ => rfl) (fun _ ht hty => .inl ⟨ht, hty⟩) rfl
        fun hp => (show TruthOK _ .published from hp ▸ ih.phase c)

/-- A server that has given up has taken no verdict. -/
theorem Truthful.unfired (h : Truthful s) (ho : Once s) (hup : s.main.givenUp = true) : s.fired = [] := by
  by_contra hne
  obtain ⟨x, hx, -⟩ := ho.firedAfter hne
  have hclaimed := ho.claimed.2 (by rw [hx]; nofun)
  rw [h.givenUp hup] at hclaimed
  cases hclaimed

theorem Truthful.exitStatus (h : Truthful s) (ho : Once s) {code : ℕ} (hcode : s.exitStatus = some code) :
    s.fired = [] ∧ code = kExitWaitConnectTimeout ∨ Told s code := by
  unfold State.exitStatus at hcode
  split at hcode
  · rename_i k hk
    cases hcode
    exact .inr (h.returned code hk)
  · rename_i hk
    cases hcode
    exact .inl ⟨h.unfired ho (by rw [hk]; rfl), rfl⟩
  · cases hcode

/-- **`--once` serves one session and reports it truthfully**, as long as no lane joins the
claimed session after its count has been brought to 0, and no session is claimed when the server
has given up waiting for one. -/
theorem once_reports_its_session (hm : cfg.mode = .once) (hs : (machine cfg).Reach InTime s) :
    (∀ x ∈ s.served, ∀ y ∈ s.served, x = y) ∧ s.fired.length ≤ 1 ∧ (s.fired ≠ [] → s.targetEmptied) ∧
      ∀ code, s.exitStatus = some code → s.fired = [] ∧ code = kExitWaitConnectTimeout ∨ Told s code := by
  have ho := reach_once hm hs
  refine ⟨fun x hx y hy => ?_, ?_, ho.firedAfter, fun code => (reach_truthful hm hs).exitStatus ho⟩
  · have htx := ho.served x hx
    rw [ho.served y hy] at htx
    exact (Option.some.inj htx).symm
  · rw [ho.firedOnce]
    split
    · exact Nat.le_refl 1
    · exact Nat.zero_le 1

/-- One lane, which ends cleanly. -/
def oneLane : List Event :=
  [.main (.accept 0), .conn 0 .claimAuth, .conn 0 (.create 7 42), .conn 0 .sendOk, .conn 0 .readType, .conn 0 .claim,
    .conn 0 .endClean, .conn 0 .close, .conn 0 .sweep, .conn 0 .check, .conn 0 .readOk, .conn 0 .readErr,
    .conn 0 .exchange, .conn 0 .storeCode, .conn 0 .storeExit, .main .ret]

/-- A client connects and says nothing. -/
def silentClient : List Event :=
  [.main (.accept 0), .elapse 300000, .main .waitSnapshot, .main .waitClock, .main .waitLoad, .elapse 1000,
    .main .waitSnapshot, .main .waitClock, .main .waitLoad, .main .drain, .conn 0 .refuse, .conn 0 .sweep,
    .conn 0 .leave, .main .drained]

theorem once_reports_one_lane :
    ((machine ⟨.once, 0, 300000⟩).run .start oneLane).exitStatus = some kExitOk ∧
      Told ((machine ⟨.once, 0, 300000⟩).run .start oneLane) kExitOk ∧
      ((machine ⟨.once, 0, 300000⟩).run .start silentClient).exitStatus = some kExitWaitConnectTimeout ∧
      ((machine ⟨.once, 0, 300000⟩).run .start silentClient).fired = [] := by
  have hreach : (machine ⟨.once, 0, 300000⟩).Reach InTime ((machine ⟨.once, 0, 300000⟩).run .start oneLane) :=
    Machine.reach_run (by decide)
  have htold := (once_reports_its_session rfl hreach).2.2.2 kExitOk (by decide)
  exact ⟨by decide, htold.resolve_left (fun h => nomatch h.2), by decide, by decide⟩

/-- One lane ends cleanly and closes; before its thread takes the verdict that it has read,
another lane joins and ends with an error. -/
def lateLane : List Event :=
  [.main (.accept 0), .conn 0 .claimAuth, .conn 0 (.create 7 42), .conn 0 .sendOk, .conn 0 .readType, .conn 0 .claim,
    .conn 0 .endClean, .conn 0 .close, .conn 0 .sweep, .conn 0 .check, .conn 0 .readOk, .conn 0 .readErr,
    .main (.accept 1), .conn 1 (.claimJoin 42), .conn 1 .sendOk, .conn 1 .readType, .conn 1 .claim, .conn 1 .endError,
    .conn 0 .exchange, .conn 0 .storeCode, .conn 0 .storeExit, .main .ret]

/-- The server exits with 0 although a lane had ended with an error when the verdict was taken. -/
theorem late_lane_unreported :
    ∃ s, (machine ⟨.once, 0, 300000⟩).Reach (fun _ _ => True) s ∧ s.main = .returned kExitOk ∧ s.fired = [(true, true)] ∧
      ¬ Told s kExitOk := by
  have hfired : ((machine ⟨.once, 0, 300000⟩).run .start lateLane).fired = [(true, true)] := by decide
  refine ⟨(machine ⟨.once, 0, 300000⟩).run .start lateLane, Machine.reach_run (by decide), by decide, hfired, ?_⟩
  rintro ⟨clean, error, hf, hcode⟩
  rw [hfired] at hf
  cases hf
  exact nomatch (hcode.1 rfl).2

/-- Two clients connect and say nothing; the server gives up and interrupts the second one, and
then the first one is served a session. -/
def lateClient : List Event :=
  [.main (.accept 0), .main (.accept 1), .elapse 301000, .main .waitSnapshot, .main .waitClock, .main .waitLoad,
    .main .drain, .conn 1 .refuse, .conn 1 .sweep, .conn 1 .leave,
    .conn 0 .claimAuth, .conn 0 (.create 7 42), .conn 0 .sendOk, .conn 0 .readType, .conn 0 .claim,
    .conn 0 .endClean, .conn 0 .close, .conn 0 .sweep, .conn 0 .check, .conn 0 .readOk, .conn 0 .readErr,
    .conn 0 .exchange, .conn 0 .storeCode, .conn 0 .storeExit, .conn 0 .leave, .main .drained]

/-- The server exits with the timeout code although its session had ended cleanly. -/
theorem late_client_unreported :
    ∃ s, (machine ⟨.once, 0, 300000⟩).Reach (fun _ _ => True) s ∧ s.exitStatus = some kExitWaitConnectTimeout ∧
      s.fired = [(true, false)] ∧ ¬ Told s kExitWaitConnectTimeout := by
  have hfired : ((machine ⟨.once, 0, 300000⟩).run .start lateClient).fired = [(true, false)] := by decide
  refine ⟨(machine ⟨.once, 0, 300000⟩).run .start lateClient, Machine.reach_run (by decide), by decide, hfired, ?_⟩
  rintro ⟨clean, error, hf, hcode⟩
  rw [hfired] at hf
  cases hf
  exact nomatch hcode.2 ⟨rfl, rfl⟩

end FastClone.Sessions
