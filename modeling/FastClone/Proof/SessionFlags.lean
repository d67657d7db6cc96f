import FastClone.Proof.SessionRegistry

/-!
# What the threads do to a session

`SessionEffect` lists what one step can do to a session that exists. In the one-shot modes
the flags of a Sync session then say exactly how its lanes have ended so far
(`reach_flagged`), and a session that no thread holds and none joins does not change
(`Effect.session_frame`).
-/

namespace FastClone.Sessions

open Runs

variable {cfg : Config} {ok : State → Event → Prop} {s s' : State} {c : ℕ} {a : Act}

/-- A step moves no other thread. -/
theorem Effect.conns (he : Effect cfg s c a s') : ∃ p, s'.conns = Function.update s.conns c p := by
  cases he with
  | endClean =>
    unfold State.endedClean
    split
    · exact ⟨_, rfl⟩
    · exact ⟨_, rfl⟩
  | endError =>
    unfold State.endedError
    split
    · exact ⟨_, rfl⟩
    · exact ⟨_, rfl⟩
  | _ => exact ⟨_, rfl⟩

theorem Effect.other (he : Effect cfg s c a s') {d : ℕ} (hd : d ≠ c) : s'.conns d = s.conns d := by
  obtain ⟨p, hp⟩ := he.conns
  rw [hp, Function.update_of_ne hd]

/-! ### One session -/

/-- The session at `x` was made by an `Auth`. -/
def State.isSync (s : State) (x : ℕ) : Bool := (s.sessions x).any fun v => decide (v.made = .sync)

/-- What a step of the thread of `c` does to the session `v` at `x`. -/
inductive SessionEffect (cfg : Config) (s : State) (c : ℕ) (a : Act) (x : ℕ) (v : Session) : Session → Prop where
  | same (hclean : ∀ b, a = .endClean → s.conns c = .serving x b → b = true ∨ cfg.mode.oneShot = false)
      (herror : ∀ b, a = .endError → s.conns c = .serving x b → v.type = .check ∨ cfg.mode.oneShot = false) :
      SessionEffect cfg s c a x v v
  | join {id : ℕ} (h : s.conns c = .handshake) (ha : a = .claimJoin id) (hx : s.find id = some x) :
      SessionEffect cfg s c a x v { v with liveConns := v.liveConns + 1, lastActivity := s.now }
  | setType (h : s.conns c = .created x) (ha : a = .setType) : SessionEffect cfg s c a x v { v with type := .check }
  | close (h : s.conns c = .sending x ∧ a = .sendFail ∨ s.conns c = .ended x ∧ a = .close) :
      SessionEffect cfg s c a x v { v with liveConns := v.liveConns - 1, lastActivity := s.now }
  | clean (h : s.conns c = .serving x false) (ha : a = .endClean) (hm : cfg.mode.oneShot = true) :
      SessionEffect cfg s c a x v { v with completedOk := true }
  | error {b : Bool} (h : s.conns c = .serving x b) (ha : a = .endError) (hm : cfg.mode.oneShot = true)
      (hty : v.type ≠ .check) : SessionEffect cfg s c a x v { v with hadError := true }

theorem SessionEffect.untouched {x : ℕ} {v : Session} (hclean : a ≠ .endClean) (herror : a ≠ .endError) :
    SessionEffect cfg s c a x v v :=
  .same (fun _ ha => absurd ha hclean) (fun _ ha => absurd ha herror)

theorem typeOf_of {x : ℕ} {v : Session} (h : s.sessions x = some v) : s.typeOf x = v.type := by
  unfold State.typeOf
  rw [h]
  rfl

theorem session_of_change {P : Session → Prop} {x y : ℕ} {v : Session} {f : Session → Session}
    (hs : s'.sessions = (s.change y f).sessions) (hv : s.sessions x = some v) (hself : x = y → P (f v))
    (hother : x ≠ y → P v) : ∃ v', s'.sessions x = some v' ∧ P v' := by
  rw [hs]
  by_cases hxy : x = y
  · subst hxy
    exact ⟨_, change_sessions_self s x f hv, hself rfl⟩
  · exact ⟨v, (change_sessions_ne s y f hxy).trans hv, hother hxy⟩

/-- **What a step does to a session.** -/
theorem Effect.session (he : Effect cfg s c a s') {x : ℕ} {v : Session} (hv : s.sessions x = some v) :
    ∃ v', s'.sessions x = some v' ∧ SessionEffect cfg s c a x v v' := by
  cases he with
  | @join y id h hx =>
    refine session_of_change rfl hv ?_ fun _ => .untouched nofun nofun
    rintro rfl
    exact .join h rfl hx
  | @createSync y id h hy =>
    -- the new session has an address of its own
    have hne : x ≠ y := by
      rintro rfl
      rw [hy] at hv
      cases hv
    exact ⟨v, (Function.update_of_ne hne ..).trans hv, .untouched nofun nofun⟩
  | @createCheck y id h hy =>
    have hne : x ≠ y := by
      rintro rfl
      rw [hy] at hv
      cases hv
    exact ⟨v, (Function.update_of_ne hne ..).trans hv, .untouched nofun nofun⟩
  | @setType y h =>
    refine session_of_change rfl hv ?_ fun _ => .untouched nofun nofun
    rintro rfl
    exact .setType h rfl
  | @sendFail y h =>
    refine session_of_change rfl hv ?_ fun _ => .untouched nofun nofun
    rintro rfl
    exact .close (.inl ⟨h, rfl⟩)
  | @close y h =>
    refine session_of_change rfl hv ?_ fun _ => .untouched nofun nofun
    rintro rfl
    exact .close (.inr ⟨h, rfl⟩)
  | @endClean y b h =>
    -- the flag goes up for this thread's session only, and not for a lane that has read Check
    unfold State.endedClean
    split
    · rename_i hg
      obtain ⟨rfl, hm⟩ := hg
      refine session_of_change rfl hv ?_ fun hne => .same (fun b' _ h' => ?_) nofun
      · rintro rfl
        exact .clean h rfl hm
      · rw [h] at h'
        cases h'
        exact absurd rfl hne
    · rename_i hg
      refine ⟨v, hv, .same (fun b' _ h' => ?_) nofun⟩
      rw [h] at h'
      cases h'
      cases b with
      | true => exact .inl rfl
      | false =>
        right
        cases hm : cfg.mode.oneShot with
        | true => exact absurd ⟨rfl, hm⟩ hg
        | false => rfl
  | @endError y b h =>
    unfold State.endedError
    split
    · rename_i hg
      refine session_of_change rfl hv ?_ fun hne => .same nofun fun b' _ h' => ?_
      · rintro rfl
        refine .error h rfl hg.1 ?_
        rw [← typeOf_of hv]
        exact hg.2
      · rw [h] at h'
        cases h'
        exact absurd rfl hne
    · rename_i hg
      refine ⟨v, hv, .same nofun fun b' _ h' => ?_⟩
      rw [h] at h'
      cases h'
      rw [← typeOf_of hv]
      cases hm : cfg.mode.oneShot with
      | true =>
        left
        by_contra hty
        exact hg ⟨hm, hty⟩
      | false => exact .inr rfl
  | _ => exact ⟨v, hv, .untouched nofun nofun⟩

/-- A session that appears was created by this step. -/
theorem Effect.newSession (he : Effect cfg s c a s') {x : ℕ} {v' : Session} (hv : s.sessions x = none)
    (hv' : s'.sessions x = some v') :
    ∃ id made, a = .create x id ∧ v' = ⟨id, made, .sync, 1, s.now, false, false⟩ := by
  have hchange : ∀ y f, (s.change y f).sessions x = none := by
    intro y f
    by_cases hxy : x = y
    · subst hxy
      show Function.update s.sessions x _ x = none
      rw [Function.update_self, hv]
      rfl
    · rw [change_sessions_ne s y f hxy, hv]
  cases he with
  | @createSync y id h hy =>
    by_cases hxy : x = y
    · subst hxy
      have hself := hv'.symm.trans (Function.update_self ..)
      cases hself
      exact ⟨id, .sync, rfl, rfl⟩
    · exact nomatch hv'.symm.trans ((Function.update_of_ne hxy ..).trans hv)
  | @createCheck y id h hy =>
    by_cases hxy : x = y
    · subst hxy
      have hself := hv'.symm.trans (Function.update_self ..)
      cases hself
      exact ⟨id, .check, rfl, rfl⟩
    · exact nomatch hv'.symm.trans ((Function.update_of_ne hxy ..).trans hv)
  | join => exact nomatch hv'.symm.trans (hchange _ _)
  | setType => exact nomatch hv'.symm.trans (hchange _ _)
  | sendFail => exact nomatch hv'.symm.trans (hchange _ _)
  | close => exact nomatch hv'.symm.trans (hchange _ _)
  | endClean =>
    unfold State.endedClean at hv'
    split at hv'
    · exact nomatch hv'.symm.trans (hchange _ _)
    · exact nomatch hv'.symm.trans hv
  | endError =>
    unfold State.endedError at hv'
    split at hv'
    · exact nomatch hv'.symm.trans (hchange _ _)
    · exact nomatch hv'.symm.trans hv
  | _ => exact nomatch hv'.symm.trans hv

/-- **A session that no thread holds and none joins stays as it is.** -/
theorem Effect.session_frame (he : Effect cfg s c a s') {x : ℕ} {v : Session} (hv : s.sessions x = some v)
    (hheld : (s.conns c).holds ≠ some x) (hjoin : ∀ id, a = .claimJoin id → s.conns c = .handshake → s.find id ≠ some x) :
    s'.sessions x = some v := by
  obtain ⟨v', hv', hse⟩ := he.session hv
  cases hse with
  | same => exact hv'
  | join h ha hx => exact absurd hx (hjoin _ ha h)
  | setType h => exact absurd (by rw [h]; rfl) hheld
  | close h =>
    rcases h with ⟨h, -⟩ | ⟨h, -⟩
    · exact absurd (by rw [h]; rfl) hheld
    · exact absurd (by rw [h]; rfl) hheld
  | clean h => exact absurd (by rw [h]; rfl) hheld
  | error h => exact absurd (by rw [h]; rfl) hheld

theorem MainEffect.sessions {a : MainAct} (he : MainEffect cfg s a s') : s'.sessions = s.sessions := by
  cases he <;> rfl

theorem SessionEffect.type_check {x : ℕ} {v v' : Session} (h : SessionEffect cfg s c a x v v') (hty : v.type = .check) :
    v'.type = .check := by
  cases h with
  | setType => rfl
  | _ => exact hty

theorem SessionEffect.made {x : ℕ} {v v' : Session} (h : SessionEffect cfg s c a x v v') : v'.made = v.made := by
  cases h <;> rfl

section Raised

variable {x : ℕ} {v v' : Session}

/-- Only a clean end sets `completedOk`. -/
theorem SessionEffect.completedOk_same (h : SessionEffect cfg s c a x v v') (ha : a ≠ .endClean) :
    v'.completedOk = v.completedOk := by
  cases h with
  | clean _ hend _ => exact absurd hend ha
  | _ => rfl

/-- Only an end with an error sets `hadError`. -/
theorem SessionEffect.hadError_same (h : SessionEffect cfg s c a x v v') (ha : a ≠ .endError) :
    v'.hadError = v.hadError := by
  cases h with
  | error _ hend _ _ => exact absurd hend ha
  | _ => rfl

/-- In the one-shot modes a lane that has not read Check raises `completedOk` by its clean end. -/
theorem SessionEffect.completedOk_iff (h : SessionEffect cfg s c a x v v') (hm : cfg.mode.oneShot = true)
    (hread : ∀ b, s.conns c = .serving x b → b = false) :
    v'.completedOk = true ↔ v.completedOk = true ∨ a = .endClean ∧ ∃ b, s.conns c = .serving x b := by
  by_cases ha : a = .endClean
  · cases h with
    | same hclean _ =>
      refine (or_iff_left ?_).symm
      rintro ⟨-, b, hb⟩
      rcases hclean b ha hb with rfl | hno
      · cases hread true hb
      · cases hm.symm.trans hno
    | join _ hact _ => cases ha.symm.trans hact
    | setType _ hact => cases ha.symm.trans hact
    | close hact =>
      rcases hact with ⟨-, hact⟩ | ⟨-, hact⟩
      · cases ha.symm.trans hact
      · cases ha.symm.trans hact
    | clean hq _ _ => exact ⟨fun _ => .inr ⟨ha, false, hq⟩, fun _ => rfl⟩
    | error _ hact _ _ => cases ha.symm.trans hact
  · rw [h.completedOk_same ha]
    exact (or_iff_left fun hend => ha hend.1).symm

/-- In the one-shot modes a lane of a sync session raises `hadError` by its end with an error. -/
theorem SessionEffect.hadError_iff (h : SessionEffect cfg s c a x v v') (hm : cfg.mode.oneShot = true)
    (hty : v.type ≠ .check) :
    v'.hadError = true ↔ v.hadError = true ∨ a = .endError ∧ ∃ b, s.conns c = .serving x b := by
  by_cases ha : a = .endError
  · cases h with
    | same _ herror =>
      refine (or_iff_left ?_).symm
      rintro ⟨-, b, hb⟩
      rcases herror b ha hb with hcheck | hno
      · exact hty hcheck
      · cases hm.symm.trans hno
    | join _ hact _ => cases ha.symm.trans hact
    | setType _ hact => cases ha.symm.trans hact
    | close hact =>
      rcases hact with ⟨-, hact⟩ | ⟨-, hact⟩
      · cases ha.symm.trans hact
      · cases ha.symm.trans hact
    | clean _ hact _ => cases ha.symm.trans hact
    | error hq _ _ _ => exact ⟨fun _ => .inr ⟨ha, _, hq⟩, fun _ => rfl⟩
  · rw [h.hadError_same ha]
    exact (or_iff_left fun hend => ha hend.1).symm

end Raised

/-! ### Flags -/

/-- A lane of the session at `x` has ended cleanly, or with an error. -/
def State.someClean (s : State) (x : ℕ) : Prop := ∃ e ∈ s.cleanEnds, e.2 = x

def State.someError (s : State) (x : ℕ) : Prop := ∃ e ∈ s.errorEnds, e.2 = x

theorem mem_snoc_snd {l : List (ℕ × ℕ)} {p : ℕ × ℕ} {x : ℕ} :
    (∃ e ∈ l ++ [p], e.2 = x) ↔ (∃ e ∈ l, e.2 = x) ∨ p.2 = x := by
  simp only [List.mem_append, List.mem_singleton, or_and_right, exists_or, exists_eq_left]

theorem Effect.someClean (he : Effect cfg s c a s') (x : ℕ) :
    s'.someClean x ↔ s.someClean x ∨ a = .endClean ∧ ∃ b, s.conns c = .serving x b := by
  have hsame : s'.cleanEnds = s.cleanEnds → a ≠ .endClean →
      (s'.someClean x ↔ s.someClean x ∨ a = .endClean ∧ ∃ b, s.conns c = .serving x b) := by
    intro hl ha
    unfold State.someClean
    rw [hl]
    exact ⟨.inl, fun h => h.resolve_right fun h' => ha h'.1⟩
  cases he with
  | @endClean y b h =>
    show (∃ e ∈ s.cleanEnds ++ [(c, y)], e.2 = x) ↔ _
    rw [mem_snoc_snd]
    refine or_congr_right ?_
    rw [h]
    constructor
    · rintro rfl
      exact ⟨rfl, b, rfl⟩
    · rintro ⟨-, b', hb⟩
      cases hb
      rfl
  | endError =>
    refine hsame ?_ nofun
    unfold State.endedError
    split
    · rfl
    · rfl
  | _ => exact hsame rfl nofun

theorem Effect.someError (he : Effect cfg s c a s') (x : ℕ) :
    s'.someError x ↔ s.someError x ∨ a = .endError ∧ ∃ b, s.conns c = .serving x b := by
  have hsame : s'.errorEnds = s.errorEnds → a ≠ .endError →
      (s'.someError x ↔ s.someError x ∨ a = .endError ∧ ∃ b, s.conns c = .serving x b) := by
    intro hl ha
    unfold State.someError
    rw [hl]
    exact ⟨.inl, fun h => h.resolve_right fun h' => ha h'.1⟩
  cases he with
  | @endError y b h =>
    show (∃ e ∈ s.errorEnds ++ [(c, y)], e.2 = x) ↔ _
    rw [mem_snoc_snd]
    refine or_congr_right ?_
    rw [h]
    constructor
    · rintro rfl
      exact ⟨rfl, b, rfl⟩
    · rintro ⟨-, b', hb⟩
      cases hb
      rfl
  | endClean =>
    refine hsame ?_ nofun
    unfold State.endedClean
    split
    · rfl
    · rfl
  | _ => exact hsame rfl nofun

/-- The session type that a thread has read as Check. -/
def Phase.readCheck : Phase → Option ℕ
  | .typed x true | .serving x true => some x
  | _ => none

/-- In the one-shot modes: what the threads know of a session, and what its flags say. -/
structure Flagged (s : State) : Prop where
  read : ∀ c x, (s.conns c).readCheck = some x → s.typeOf x = .check
  ends : ∀ x, s.someClean x ∨ s.someError x → ∃ v, s.sessions x = some v
  clean : ∀ x v, s.sessions x = some v → v.type ≠ .check → (v.completedOk = true ↔ s.someClean x)
  error : ∀ x v, s.sessions x = some v → v.type ≠ .check → (v.hadError = true ↔ s.someError x)

theorem flagged_start : Flagged .start where
  read _ _ h := nomatch h
  ends _ h := by rcases h with ⟨_, h, -⟩ | ⟨_, h, -⟩ <;> exact absurd h List.not_mem_nil
  clean _ _ h := nomatch h
  error _ _ h := nomatch h

theorem typeOf_check {x : ℕ} (h : s.typeOf x = .check) : ∃ v, s.sessions x = some v ∧ v.type = .check := by
  unfold State.typeOf at h
  cases hv : s.sessions x with
  | none => rw [hv] at h; cases h
  | some v =>
    rw [hv] at h
    exact ⟨v, rfl, h⟩

theorem Effect.typeOf_check (he : Effect cfg s c a s') {x : ℕ} (h : s.typeOf x = .check) : s'.typeOf x = .check := by
  obtain ⟨v, hv, hty⟩ := Sessions.typeOf_check h
  obtain ⟨v', hv', hse⟩ := he.session hv
  rw [typeOf_of hv']
  exact hse.type_check hty

theorem Effect.readCheck (he : Effect cfg s c a s') {x : ℕ} (h : (s'.conns c).readCheck = some x) :
    (s.conns c).readCheck = some x ∨ s.typeOf x = .check := by
  have hself : ∀ {t : State} {p : Phase}, (Function.update t.conns c p c).readCheck = p.readCheck := by
    intro t p
    rw [Function.update_self]
  cases he with
  | @readType y hq =>
    rw [goto_conns, hself] at h
    unfold Phase.readCheck at h
    by_cases hty : s.typeOf y = .check
    · simp only [hty, decide_true] at h
      cases h
      exact .inr hty
    · simp only [hty, decide_false] at h
      cases h
  | @serve y b hq =>
    rw [serve_conns, hself] at h
    left
    rw [hq]
    cases b with
    | true => exact h
    | false => cases h
  | endClean => rw [goto_conns, hself] at h; cases h
  | endError => rw [goto_conns, hself] at h; cases h
  | claimNew => rw [serve_conns, hself] at h; cases h
  | claimMatch => rw [serve_conns, hself] at h; cases h
  | _ => rw [goto_conns, hself] at h; cases h

/-- No lane of a session that does not exist has ended. -/
theorem Flagged.not_ended (h : Flagged s) {x : ℕ} (hv : s.sessions x = none) : ¬ s.someClean x ∧ ¬ s.someError x := by
  have hno : ¬ ∃ v, s.sessions x = some v := by
    rintro ⟨v, hv'⟩
    exact nomatch hv.symm.trans hv'
  exact ⟨fun hx => hno (h.ends x (.inl hx)), fun hx => hno (h.ends x (.inr hx))⟩

/-- A thread that serves a sync session has not read Check. -/
theorem Flagged.serving (h : Flagged s) {x : ℕ} {v : Session} (hv : s.sessions x = some v) (hty : v.type ≠ .check)
    (b : Bool) (hb : s.conns c = .serving x b) : b = false := by
  cases b with
  | false => rfl
  | true =>
    have hcheck := h.read c x (by rw [hb]; rfl)
    rw [typeOf_of hv] at hcheck
    exact absurd hcheck hty

theorem Flagged.effect (h : Flagged s) (hr : Registered s) (hm : cfg.mode.oneShot = true)
    (he : Effect cfg s c a s') : Flagged s' := by
  have hserving : ∀ {x b}, s.conns c = .serving x b → ∃ v, s.sessions x = some v := by
    intro x b hx
    exact hr.held c x (by rw [hx]; rfl)
  refine ⟨?_, ?_, ?_, ?_⟩
  · intro d x hd
    apply he.typeOf_check
    by_cases hdc : d = c
    · subst hdc
      rcases he.readCheck hd with hold | hty
      · exact h.read d x hold
      · exact hty
    · rw [he.other hdc] at hd
      exact h.read d x hd
  · intro x hx
    have hex : ∃ v, s.sessions x = some v := by
      rw [he.someClean, he.someError] at hx
      rcases hx with (hx | ⟨-, b, hb⟩) | (hx | ⟨-, b, hb⟩)
      · exact h.ends x (.inl hx)
      · exact hserving hb
      · exact h.ends x (.inr hx)
      · exact hserving hb
    obtain ⟨v, hv⟩ := hex
    obtain ⟨v', hv', -⟩ := he.session hv
    exact ⟨v', hv'⟩
  · intro x v' hv' hty
    rw [he.someClean]
    cases hv : s.sessions x with
    | none =>
      -- a new session has no lane yet
      obtain ⟨id, made, rfl, rfl⟩ := he.newSession hv hv'
      exact ⟨nofun, fun hor => hor.elim (fun hx => absurd hx (h.not_ended hv).1) fun hx => nomatch hx.1⟩
    | some v =>
      obtain ⟨w, hw, hse⟩ := he.session hv
      cases hv'.symm.trans hw
      have hbefore : v.type ≠ .check := fun hcheck => hty (hse.type_check hcheck)
      rw [hse.completedOk_iff hm (h.serving hv hbefore), h.clean x v hv hbefore]
  · intro x v' hv' hty
    rw [he.someError]
    cases hv : s.sessions x with
    | none =>
      obtain ⟨id, made, rfl, rfl⟩ := he.newSession hv hv'
      exact ⟨nofun, fun hor => hor.elim (fun hx => absurd hx (h.not_ended hv).2) fun hx => nomatch hx.1⟩
    | some v =>
      obtain ⟨w, hw, hse⟩ := he.session hv
      cases hv'.symm.trans hw
      have hbefore : v.type ≠ .check := fun hcheck => hty (hse.type_check hcheck)
      rw [hse.hadError_iff hm hbefore, h.error x v hv hbefore]

/-- What the threads and the flags depend on stays. -/
theorem Flagged.same (h : Flagged s) (hconns : ∀ d, (s'.conns d).readCheck = (s.conns d).readCheck)
    (hsess : s'.sessions = s.sessions) (hclean : s'.cleanEnds = s.cleanEnds) (herror : s'.errorEnds = s.errorEnds) :
    Flagged s' := by
  obtain ⟨h1, h2, h3, h4⟩ := h
  refine ⟨?_, ?_, ?_, ?_⟩
  · intro d x hd
    unfold State.typeOf
    rw [hsess]
    exact h1 d x (hconns d ▸ hd)
  · unfold State.someClean State.someError
    rw [hsess, hclean, herror]
    exact h2
  · unfold State.someClean
    rw [hsess, hclean]
    exact h3
  · unfold State.someError
    rw [hsess, herror]
    exact h4

theorem MainEffect.conns {a : MainAct} (he : MainEffect cfg s a s') (d : ℕ) :
    s'.conns d = s.conns d ∨ s.conns d = .absent ∧ s'.conns d = .handshake := by
  cases he with
  | @accept c _ hc =>
    by_cases hd : d = c
    · subst hd
      exact .inr ⟨hc, Function.update_self ..⟩
    · exact .inl (Function.update_of_ne hd ..)
  | _ => exact .inl rfl

theorem Flagged.mainEffect {a : MainAct} (h : Flagged s) (he : MainEffect cfg s a s') : Flagged s' := by
  refine h.same (fun d => ?_) he.sessions ?_ ?_
  · rcases he.conns d with hd | ⟨hd, hd'⟩
    · rw [hd]
    · rw [hd, hd']
      rfl
  · cases he <;> rfl
  · cases he <;> rfl

/-- **The flags of a session say how its lanes have ended**, in every state of every run. -/
theorem reach_flagged (hm : cfg.mode.oneShot = true) (h : (machine cfg).Reach ok s) : Flagged s := by
  induction h with
  | init => exact flagged_start
  | step hs hc _ ih =>
    rcases step_cases hc with ⟨c, a, -, he⟩ | ⟨a, -, he⟩ | ⟨d, -, he⟩
    · exact ih.effect (reach_registered hs) hm he
    · exact ih.mainEffect he
    · rw [he]
      exact ih.same (fun _ => rfl) rfl rfl rfl

end FastClone.Sessions
