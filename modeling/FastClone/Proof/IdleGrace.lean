import FastClone.Proof.SessionFlags

/-!
# The idle grace of `--once-multi`

The main thread samples the registry at ticks. `idle_grace_is_full`: when the verdict fires,
no session was live during the whole grace, provided that no session comes and goes between
two ticks while the timer runs, and none comes between the snapshot and the verdict.
-/

namespace FastClone.Sessions

open Runs

variable {cfg : Config} {s s' : State} {c : ℕ} {a : Act}

/-! ### Conditions -/

/-- Some connection holds a session. -/
def State.busy (s : State) : Prop := ∃ c ∈ s.accepted, (s.conns c).holds.isSome = true

/-- The main thread has found no live session, the timer runs, and the verdict may follow. -/
def State.deciding (s : State) : Bool :=
  match s.main with
  | .firing => true
  | .snapped 0 _ => s.idleSince.isSome
  | _ => false

/-- No session comes between a snapshot and its verdict, the last one does not go while the
timer runs, and tokens are new. -/
def SeenByTicks (s : State) : Event → Prop
  | .conn _ (.create _ id) => s.find id = none ∧ s.deciding = false
  | .conn c (.claimJoin id) => s.conns c = .handshake → s.find id ≠ none → s.deciding = false
  | .conn c .close | .conn c .sendFail =>
    s.idleSince = none ∨ ∃ d ∈ s.accepted, d ≠ c ∧ (s.conns d).holds.isSome = true
  | _ => True

instance : DecidablePred (SeenByTicks s)
  | .conn _ (.create _ id) => inferInstanceAs (Decidable (s.find id = none ∧ s.deciding = false))
  | .conn c (.claimJoin id) =>
    inferInstanceAs (Decidable (s.conns c = .handshake → s.find id ≠ none → s.deciding = false))
  | .conn c .close | .conn c .sendFail => inferInstanceAs
      (Decidable (s.idleSince = none ∨ ∃ d ∈ s.accepted, d ≠ c ∧ (s.conns d).holds.isSome = true))
  | .conn _ .claimAuth | .conn _ .claimCheck | .conn _ .refuse | .conn _ .setType | .conn _ .sendOk
  | .conn _ .readType | .conn _ .claim | .conn _ .endClean | .conn _ .endError | .conn _ .sweep | .conn _ .check
  | .conn _ .readOk | .conn _ .readErr | .conn _ .exchange | .conn _ .storeCode | .conn _ .storeExit
  | .conn _ .storeFailure | .conn _ .leave | .main _ | .elapse _ => .isTrue trivial

/-! ### Steps of the threads -/

/-- What the timer is about. -/
def State.timer (s : State) : Main × Option ℕ × ℕ × List ℕ × List ℕ :=
  (s.main, s.idleSince, s.now, s.firedAt, s.accepted)

theorem Effect.timer (he : Effect cfg s c a s') : s'.timer = s.timer := by
  cases he with
  | endClean =>
    unfold State.endedClean
    split
    · rfl
    · rfl
  | endError =>
    unfold State.endedError
    split
    · rfl
    · rfl
  | _ => rfl

/-- A thread keeps its session up to the close. -/
theorem Effect.keeps_session (he : Effect cfg s c a s') {x : ℕ} (hx : (s.conns c).holds = some x) (hclose : a ≠ .close)
    (hfail : a ≠ .sendFail) : (s'.conns c).holds = some x := by
  have hself : ∀ {t : State} {p q : Phase}, s.conns c = q → p.holds = q.holds →
      (Function.update t.conns c p c).holds = some x := by
    intro t p q hq hp
    rw [Function.update_self, hp, ← hq, hx]
  have hno : ∀ {q : Phase}, s.conns c = q → q.holds = none → (s'.conns c).holds = some x := by
    intro q hq hnone
    rw [hq, hnone] at hx
    cases hx
  cases he with
  | refused hq => rcases hq with hq | hq | hq <;> exact hno hq rfl
  | refusedAuth hq => exact hno hq rfl
  | refusedJoin hq => exact hno hq rfl
  | passAuth hq => exact hno hq rfl
  | passCheck hq => exact hno hq rfl
  | join hq => exact hno hq rfl
  | createSync hq => exact hno hq rfl
  | createCheck hq => exact hno hq rfl
  | setType hq => exact hself hq rfl
  | sendOk hq => exact hself hq rfl
  | sendFail hq => exact absurd rfl hfail
  | readType hq => exact hself hq rfl
  | claimNew hq => exact hself hq rfl
  | claimMatch hq => exact hself hq rfl
  | claimRefused hq => exact hself hq rfl
  | serve hq => exact hself hq rfl
  | endClean hq => exact hself hq rfl
  | endError hq => exact hself hq rfl
  | close hq => exact absurd rfl hclose
  | sweep hq => exact hno hq rfl
  | sweepNone hq => exact hno hq rfl
  | checkTarget hq => exact hno hq rfl
  | checkFold hq => exact hno hq rfl
  | checkDone hq => exact hno hq rfl
  | judgeOk hq => exact hno hq rfl
  | judgeBad hq => exact hno hq rfl
  | judgeErr hq => exact hno hq rfl
  | exchangeLost hq => exact hno hq rfl
  | exchangeWon hq => exact hno hq rfl
  | storeCode hq => exact hno hq rfl
  | storeExit hq => exact hno hq rfl
  | foldOk hq => exact hno hq rfl
  | foldBad hq => exact hno hq rfl
  | foldErr hq => exact hno hq rfl
  | foldClean hq => exact hno hq rfl
  | storeFailure hq => exact hno hq rfl
  | leave hq => exact hno hq rfl

theorem Effect.accepted (he : Effect cfg s c a s') : s'.accepted = s.accepted :=
  congrArg (fun t => t.2.2.2.2) he.timer

/-- No thread comes to a session while the main thread decides. -/
theorem Effect.busy_back (he : Effect cfg s c a s') (hok : SeenByTicks s (.conn c a)) (hd : s.deciding = true)
    (hb : s'.busy) : s.busy := by
  obtain ⟨d, hmem, hholds⟩ := hb
  rw [he.accepted] at hmem
  obtain ⟨x, hx⟩ := Option.isSome_iff_exists.1 hholds
  refine ⟨d, hmem, ?_⟩
  have hno : s.deciding ≠ false := by rw [hd]; nofun
  rcases he.holds d x hx with hold | ⟨id, rfl, hq, hfind, -⟩ | ⟨id, rfl, -⟩
  · rw [hold]
    rfl
  · refine absurd (hok hq ?_) hno
    rw [hfind]
    nofun
  · exact absurd hok.2 hno

/-- While the timer runs, a busy server stays busy. -/
theorem Effect.busy_stays (he : Effect cfg s c a s') (hok : SeenByTicks s (.conn c a)) (hi : s.idleSince ≠ none)
    (hb : s.busy) : s'.busy := by
  obtain ⟨d, hmem, hholds⟩ := hb
  by_cases hdc : d = c
  · subst hdc
    obtain ⟨x, hx⟩ := Option.isSome_iff_exists.1 hholds
    by_cases hlast : a = .close ∨ a = .sendFail
    · -- another connection holds a session
      have hother : ∃ d' ∈ s.accepted, d' ≠ d ∧ (s.conns d').holds.isSome = true := by
        rcases hlast with rfl | rfl
        · exact hok.resolve_left hi
        · exact hok.resolve_left hi
      obtain ⟨d', hmem', hne, hholds'⟩ := hother
      refine ⟨d', he.accepted ▸ hmem', ?_⟩
      rw [he.other hne]
      exact hholds'
    · refine ⟨d, he.accepted ▸ hmem, ?_⟩
      rw [he.keeps_session hx (fun h => hlast (.inl h)) (fun h => hlast (.inr h))]
      rfl
  · refine ⟨d, he.accepted ▸ hmem, ?_⟩
    rw [he.other hdc]
    exact hholds

/-! ### The main thread -/

theorem MainEffect.busy {a : MainAct} (he : MainEffect cfg s a s') : s'.busy ↔ s.busy := by
  unfold State.busy
  cases he with
  | @accept c _ hc =>
    have hat : ∀ d, (Function.update s.conns c .handshake d).holds = (s.conns d).holds := holds_handshake hc
    show (∃ d ∈ s.accepted ++ [c], (Function.update s.conns c .handshake d).holds.isSome = true) ↔ _
    constructor
    · rintro ⟨d, hmem, hd⟩
      rw [hat] at hd
      rcases List.mem_append.1 hmem with hmem | hmem
      · exact ⟨d, hmem, hd⟩
      · rw [List.mem_singleton.1 hmem, hc] at hd
        cases hd
    · rintro ⟨d, hmem, hd⟩
      exact ⟨d, List.mem_append_left _ hmem, by rwa [hat]⟩
  | _ => exact Iff.rfl

/-- A snapshot that counts no session finds no connection that holds one. -/
theorem not_busy_of_inactive (hr : Registered s) (hl : Listed s) (h : s.active.length = 0) : ¬ s.busy := by
  rintro ⟨c, -, hc⟩
  obtain ⟨x, hx⟩ := Option.isSome_iff_exists.1 hc
  obtain ⟨p, hp, rfl⟩ := hl c x hx
  obtain ⟨v, hv, -⟩ := hr.entries p hp
  have hmem : p ∈ s.active := by
    refine List.mem_filter.2 ⟨hp, ?_⟩
    have hpos := hr.holders_pos hx
    rw [← hr.live_eq hv] at hpos
    exact decide_eq_true hpos
  rw [List.length_eq_zero_iff.1 h] at hmem
  exact absurd hmem List.not_mem_nil

/-- While the main thread decides, no session is live. -/
def Quiescent (s : State) : Prop := s.deciding = true → ¬ s.busy

theorem Effect.deciding (he : Effect cfg s c a s') : s'.deciding = s.deciding := by
  have ht := he.timer
  simp only [State.timer, Prod.mk.injEq] at ht
  unfold State.deciding
  rw [ht.1, ht.2.1]

theorem Quiescent.mainEffect {a : MainAct} (h : Quiescent s) (hr : Registered s) (hl : Listed s)
    (he : MainEffect cfg s a s') : Quiescent s' := by
  unfold Quiescent
  rw [he.busy]
  cases he with
  | accept => exact h
  | waitSeen => exact h
  | snapshot =>
    intro hd
    apply not_busy_of_inactive hr hl
    unfold State.deciding at hd
    simp only at hd
    split at hd
    · rename_i hq
      cases hq
    · rename_i k hq
      exact (Main.snapped.inj hq).1
    · cases hd
  | due hm _ hi =>
    intro _
    apply h
    unfold State.deciding
    rw [hm, hi]
    rfl
  | _ => nofun

theorem reach_fresh (h : (machine cfg).Reach SeenByTicks s) : (machine cfg).Reach FreshTokens s := by
  refine h.mono fun s e hok c x id he => ?_
  subst he
  exact hok.1

theorem reach_quiescent (h : (machine cfg).Reach SeenByTicks s) : Quiescent s := by
  induction h with
  | init => nofun
  | step hs hc hok ih =>
    rcases step_cases hc with ⟨c, a, rfl, he⟩ | ⟨a, -, he⟩ | ⟨d, -, he⟩
    · intro hd hb
      rw [he.deciding] at hd
      exact ih hd (he.busy_back hok hd hb)
    · exact ih.mainEffect (reach_registered hs) (reach_listed (reach_fresh hs)) he
    · rw [he]
      exact ih

/-! ### The grace -/

/-- After a moment `τ` at which a session was live: the timer was started later, unless a
session is live still, and a verdict comes a full grace later. -/
structure Since (cfg : Config) (τ : ℕ) (s : State) : Prop where
  past : τ ≤ s.now
  armed : ∀ u, s.idleSince = some u → τ ≤ u ∨ s.busy
  due : s.main = .firing → τ + cfg.graceMs ≤ s.now
  fired : ∀ t ∈ s.firedAt, τ + cfg.graceMs ≤ t

theorem Since.effect {τ : ℕ} (h : Since cfg τ s) (hok : SeenByTicks s (.conn c a)) (he : Effect cfg s c a s') :
    Since cfg τ s' := by
  have ht := he.timer
  simp only [State.timer, Prod.mk.injEq] at ht
  obtain ⟨hmain, hidle, hnow, hfired, -⟩ := ht
  refine ⟨?_, ?_, ?_, ?_⟩
  · rw [hnow]
    exact h.past
  · intro u hu
    rw [hidle] at hu
    refine (h.armed u hu).imp_right fun hb => he.busy_stays hok ?_ hb
    rw [hu]
    nofun
  · rw [hmain, hnow]
    exact h.due
  · rw [hfired]
    exact h.fired

theorem Since.mainEffect {τ : ℕ} {a : MainAct} (h : Since cfg τ s) (hq : Quiescent s) (he : MainEffect cfg s a s') :
    Since cfg τ s' := by
  have hb := he.busy
  obtain ⟨h1, h2, h3, h4⟩ := id h
  have harmed : s'.idleSince = s.idleSince → ∀ u, s'.idleSince = some u → τ ≤ u ∨ s'.busy := by
    intro hi u hu
    rw [hb]
    exact h2 u (hi ▸ hu)
  cases he with
  | accept => exact ⟨h1, harmed rfl, h3, h4⟩
  | waitSeen => exact ⟨h1, harmed rfl, h3, h4⟩
  | waitNone => exact ⟨h1, harmed rfl, nofun, h4⟩
  | waitEarly => exact ⟨h1, harmed rfl, nofun, h4⟩
  | waitLate => exact ⟨h1, harmed rfl, nofun, h4⟩
  | waitDefer => exact ⟨h1, harmed rfl, nofun, h4⟩
  | waitExpire => exact ⟨h1, harmed rfl, nofun, h4⟩
  | drain => exact ⟨h1, harmed rfl, nofun, h4⟩
  | drained => exact ⟨h1, harmed rfl, nofun, h4⟩
  | snapshot => exact ⟨h1, harmed rfl, nofun, h4⟩
  | arm =>
    refine ⟨h1, fun u hu => ?_, nofun, h4⟩
    cases hu
    exact .inl h1
  | @due k u hm _ hi hg =>
    refine ⟨h1, harmed rfl, fun _ => ?_, h4⟩
    -- no session is live now, so the timer was started after `τ`
    have hd : s.deciding = true := by
      unfold State.deciding
      rw [hm, hi]
      rfl
    have hu : τ ≤ u := (h2 u hi).resolve_right (hq hd)
    show τ + cfg.graceMs ≤ s.now
    omega
  | wait => exact ⟨h1, harmed rfl, nofun, h4⟩
  | cancel => exact ⟨h1, nofun, nofun, h4⟩
  | exchangeLost => exact ⟨h1, harmed rfl, nofun, h4⟩
  | exchangeWon hm =>
    refine ⟨h1, harmed rfl, nofun, fun t ht => ?_⟩
    rcases List.mem_append.1 ht with ht | ht
    · exact h4 t ht
    · rw [List.mem_singleton.1 ht]
      exact h3 hm
  | load => exact ⟨h1, harmed rfl, nofun, h4⟩
  | publish => exact ⟨h1, harmed rfl, nofun, h4⟩
  | ret => exact ⟨h1, harmed rfl, nofun, h4⟩

theorem Since.step {τ : ℕ} {e : Event} (h : Since cfg τ s) (hs : (machine cfg).Reach SeenByTicks s)
    (hc : (machine cfg).can s e) (hok : SeenByTicks s e) : Since cfg τ ((machine cfg).next s e) := by
  rcases step_cases hc with ⟨c, a, rfl, he⟩ | ⟨a, -, he⟩ | ⟨d, -, he⟩
  · exact h.effect hok he
  · exact h.mainEffect (reach_quiescent hs) he
  · obtain ⟨h1, h2, h3, h4⟩ := h
    rw [he]
    refine ⟨Nat.le_add_right_of_le h1, h2, fun hm => Nat.le_add_right_of_le (h3 hm), h4⟩

/-- A live session is held by a connection. -/
theorem Registered.busy_of_live (h : Registered s) {x : ℕ} (hx : 0 < s.liveConns x) : s.busy := by
  unfold State.liveConns at hx
  cases hv : s.sessions x with
  | none => rw [hv] at hx; cases hx
  | some v =>
    rw [hv] at hx
    have hpos : 0 < s.holders x := h.counted x v hv ▸ hx
    obtain ⟨c, hmem, hc⟩ := List.countP_pos_iff.1 hpos
    refine ⟨c, hmem, ?_⟩
    rw [of_decide_eq_true hc]
    rfl

/-- **The idle grace is a full idle period**: in a run that meets the conditions, every moment
before the verdict at which a session was live (or had just been created) lies at least the
grace before it. -/
theorem idle_grace_is_full (hs : (machine cfg).Reach SeenByTicks s) (hno : s.firedAt = []) {x : ℕ}
    (hlive : 0 < s.liveConns x) {es : List Event} (hes : (machine cfg).Allows SeenByTicks s es) :
    ∀ t ∈ ((machine cfg).run s es).firedAt, s.now + cfg.graceMs ≤ t := by
  have hbusy := (reach_registered hs).busy_of_live hlive
  have hstart : Since cfg s.now s := by
    refine ⟨Nat.le_refl _, fun _ _ => .inr hbusy, fun hm => ?_, fun t ht => ?_⟩
    · refine absurd hbusy (reach_quiescent hs ?_)
      unfold State.deciding
      rw [hm]
    · rw [hno] at ht
      exact absurd ht List.not_mem_nil
  exact (hes.keeps (fun _ _ hr hI hc hok => hI.step hr hc hok) hs hstart).fired

/-- The connection `c` gets a new session. -/
def comes (c x id : ℕ) : List Event := [.main (.accept c), .conn c .claimAuth, .conn c (.create x id)]

/-- The connection `c` is served, ends cleanly and leaves. -/
def goes (c : ℕ) : List Event :=
  [.conn c .sendOk, .conn c .readType, .conn c .claim, .conn c .endClean, .conn c .close, .conn c .sweep, .conn c .check,
    .conn c .readOk, .conn c .readErr]

def tick : List Event := [.main .snapshot, .main .decide]

/-- One session, and the verdict a grace after the tick that found it gone. -/
theorem idle_grace_after_one :
    let s := (machine ⟨.onceMulti, 5000, 300000⟩).run .start (comes 0 7 42)
    let es := goes 0 ++ tick ++ [.elapse 5000] ++ tick ++ [.main .exchange]
    ((machine ⟨.onceMulti, 5000, 300000⟩).run s es).firedAt = [5000] ∧
      ∀ t ∈ ((machine ⟨.onceMulti, 5000, 300000⟩).run s es).firedAt, 0 + 5000 ≤ t :=
  ⟨by decide, idle_grace_is_full (x := 7) (Machine.reach_run (by decide)) rfl (by decide) (by decide)⟩

/-- A second session comes and goes between two ticks; the verdict does not wait for it. -/
theorem short_session_unseen :
    let s := (machine ⟨.onceMulti, 5000, 300000⟩).run .start (comes 0 7 42 ++ goes 0 ++ tick ++ [.elapse 4000] ++ comes 1 8 43)
    let es := goes 1 ++ [.elapse 1000] ++ tick ++ [.main .exchange]
    (machine ⟨.onceMulti, 5000, 300000⟩).Reach (fun _ _ => True) s ∧ s.firedAt = [] ∧ 0 < s.liveConns 8 ∧ s.now = 4000 ∧
      (machine ⟨.onceMulti, 5000, 300000⟩).Allows (fun _ _ => True) s es ∧
      ((machine ⟨.onceMulti, 5000, 300000⟩).run s es).firedAt = [5000] ∧
      ¬ ∀ t ∈ ((machine ⟨.onceMulti, 5000, 300000⟩).run s es).firedAt, s.now + 5000 ≤ t :=
  ⟨Machine.reach_run (by decide), by decide, by decide, by decide, by decide, by decide, by decide⟩

end FastClone.Sessions
