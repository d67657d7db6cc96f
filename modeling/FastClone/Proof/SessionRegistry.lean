import FastClone.Proof.SessionSteps

/-!
# The session registry

* `Registered`: the live count of a session is the number of connections that hold it, and
  every connection is counted at most once and taken off at most once.
* `reach_registered`: this holds in every state of every run.
* `entry_stays`: no step removes the entry of a session that a connection holds.
-/

namespace FastClone.Sessions

open Runs

/-! ### Counting connections -/

/-- Changing one place of a function changes a count by at most that place. -/
theorem countP_update {α β : Type} [DecidableEq α] (f : α → β) (q : β → Bool) (c : α) (v : β) :
    ∀ {l : List α}, l.Nodup → c ∈ l →
      l.countP (fun a => q (Function.update f c v a)) + (if q (f c) then 1 else 0) =
        l.countP (fun a => q (f a)) + if q v then 1 else 0 := by
  intro l
  induction l with
  | nil => intro _ h; exact absurd h List.not_mem_nil
  | cons a l ih =>
    intro hn hc
    obtain ⟨ha, hn⟩ := List.nodup_cons.1 hn
    rw [List.countP_cons, List.countP_cons]
    by_cases hac : a = c
    · subst hac
      have hsame : l.countP (fun b => q (Function.update f a v b)) = l.countP (fun b => q (f b)) := by
        apply List.countP_congr
        intro b hb
        have hne : b ≠ a := fun h => ha (h ▸ hb)
        rw [Function.update_of_ne hne]
      rw [hsame, Function.update_self]
      omega
    · have hcl : c ∈ l := by
        rcases List.mem_cons.1 hc with h | h
        · exact absurd h.symm hac
        · exact h
      have := ih hn hcl
      rw [Function.update_of_ne hac]
      omega

/-- The session that a thread holds: counted for it and not closed yet. -/
def Phase.holds : Phase → Option ℕ
  | .created x | .sending x | .resolved x | .typed x _ | .serving x _ | .ended x => some x
  | _ => none

/-- Before a session is resolved. -/
def Phase.fresh : Phase → Bool
  | .absent | .handshake | .authPassed | .checkPassed => true
  | _ => false

theorem Phase.holds_of_fresh {p : Phase} (h : p.fresh = true) : p.holds = none := by
  cases p <;> first | rfl | cases h

/-- A connection in its handshake holds what one that is not there holds: nothing. -/
theorem holds_handshake {s : State} {c : ℕ} (hc : s.conns c = .absent) (d : ℕ) :
    (Function.update s.conns c .handshake d).holds = (s.conns d).holds := by
  by_cases hd : d = c
  · rw [hd, Function.update_self, hc]
    rfl
  · rw [Function.update_of_ne hd]

/-- The number of connections that hold the session at `x`. -/
def State.holders (s : State) (x : ℕ) : ℕ := s.accepted.countP fun c => decide ((s.conns c).holds = some x)

/-! ### The invariant -/

structure Registered (s : State) : Prop where
  nodup : s.accepted.Nodup
  accepted : ∀ c, c ∈ s.accepted ↔ s.conns c ≠ .absent
  counted : ∀ x v, s.sessions x = some v → v.liveConns = s.holders x
  held : ∀ c x, (s.conns c).holds = some x → ∃ v, s.sessions x = some v
  entries : ∀ e ∈ s.byId, ∃ v, s.sessions e.2 = some v ∧ v.sessionId = e.1
  keys : (s.byId.map Prod.fst).Nodup
  balance : ∀ c, s.opens c = s.closes c + if (s.conns c).holds.isSome then 1 else 0
  atMostOnce : ∀ c, s.opens c ≤ 1
  unopened : ∀ c, (s.conns c).fresh = true → s.opens c = 0

theorem registered_start : Registered .start where
  nodup := List.nodup_nil
  accepted _ := ⟨fun h => absurd h List.not_mem_nil, fun h => absurd rfl h⟩
  counted _ _ h := nomatch h
  held _ _ h := nomatch h
  entries _ h := absurd h List.not_mem_nil
  keys := List.nodup_nil
  balance _ := rfl
  atMostOnce _ := Nat.zero_le _
  unopened _ _ := rfl

/-- What a session's entry and count depend on. -/
def Session.entry (v : Session) : ℕ × ℕ := (v.sessionId, v.liveConns)

theorem holders_goto {s : State} (h : Registered s) {c : ℕ} (hc : s.conns c ≠ .absent) (p : Phase) (x : ℕ) :
    (s.goto c p).holders x + (if (s.conns c).holds = some x then 1 else 0) =
      s.holders x + if p.holds = some x then 1 else 0 := by
  have hcount := countP_update s.conns (fun p => decide (p.holds = some x)) c p h.nodup ((h.accepted c).2 hc)
  simp only [decide_eq_true_eq] at hcount
  exact hcount

section Steps

variable {s s' : State} {c : ℕ} {p : Phase}

/-- When one of the threads goes on, the same ones are there. -/
theorem Registered.accepted_update (h : Registered s) (hc : s.conns c ≠ .absent) (hp : p ≠ .absent) (d : ℕ) :
    d ∈ s.accepted ↔ Function.update s.conns c p d ≠ .absent := by
  rw [h.accepted]
  by_cases hd : d = c
  · rw [hd, Function.update_self]
    exact ⟨fun _ => hp, fun _ => hc⟩
  · rw [Function.update_of_ne hd]

/-- A step that leaves the thread's session and all counts alone. -/
theorem Registered.quiet (h : Registered s) (hc : s.conns c ≠ .absent) (hp : p ≠ .absent)
    (hconns : s'.conns = Function.update s.conns c p) (hacc : s'.accepted = s.accepted)
    (hsess : ∀ x, (s'.sessions x).map Session.entry = (s.sessions x).map Session.entry)
    (hby : s'.byId.Sublist s.byId) (hopens : s'.opens = s.opens) (hcloses : s'.closes = s.closes)
    (hholds : p.holds = (s.conns c).holds) (hfresh : p.fresh = true → (s.conns c).fresh = true) :
    Registered s' := by
  have hback : ∀ {x v'}, s'.sessions x = some v' → ∃ v, s.sessions x = some v ∧ v.entry = v'.entry := by
    intro x v' hv'
    have hx := hsess x
    rw [hv'] at hx
    cases hv : s.sessions x with
    | none => rw [hv] at hx; cases hx
    | some v =>
      rw [hv] at hx
      exact ⟨v, rfl, (Option.some.inj hx).symm⟩
  have hforth : ∀ {x v}, s.sessions x = some v → ∃ v', s'.sessions x = some v' ∧ v'.entry = v.entry := by
    intro x v hv
    have hx := hsess x
    rw [hv] at hx
    cases hv' : s'.sessions x with
    | none => rw [hv'] at hx; cases hx
    | some v' =>
      rw [hv'] at hx
      exact ⟨v', rfl, Option.some.inj hx⟩
  have hat : ∀ d, (s'.conns d).holds = (s.conns d).holds := by
    intro d
    rw [hconns]
    by_cases hd : d = c
    · rw [hd, Function.update_self, hholds]
    · rw [Function.update_of_ne hd]
  refine ⟨?_, ?_, ?_, ?_, ?_, ?_, ?_, ?_, ?_⟩
  · rw [hacc]
    exact h.nodup
  · rw [hacc, hconns]
    exact h.accepted_update hc hp
  · -- the counts are the old ones, and so are the holders
    intro x v' hv'
    obtain ⟨v, hv, hentry⟩ := hback hv'
    have hlive : v'.liveConns = v.liveConns := (congrArg Prod.snd hentry).symm
    rw [hlive, h.counted x v hv]
    unfold State.holders
    rw [hacc]
    exact List.countP_congr fun d _ => by rw [hat d]
  · intro d x hd
    rw [hat] at hd
    obtain ⟨v, hv⟩ := h.held d x hd
    obtain ⟨v', hv', -⟩ := hforth hv
    exact ⟨v', hv'⟩
  · intro e he
    obtain ⟨v, hv, hid⟩ := h.entries e (hby.subset he)
    obtain ⟨v', hv', hentry⟩ := hforth hv
    exact ⟨v', hv', (congrArg Prod.fst hentry).trans hid⟩
  · exact h.keys.sublist (hby.map Prod.fst)
  · intro d
    rw [hopens, hcloses, hat]
    exact h.balance d
  · intro d
    rw [hopens]
    exact h.atMostOnce d
  · -- a thread before its session was before it already
    intro d hd
    rw [hopens]
    apply h.unopened
    rw [hconns] at hd
    by_cases hdc : d = c
    · rw [hdc, Function.update_self] at hd
      rw [hdc]
      exact hfresh hd
    · rwa [Function.update_of_ne hdc] at hd

/-- A thread's own moves, which may also change what the registry does not depend on. -/
theorem Registered.move (h : Registered s) {q : Phase} (hconns : s'.conns = Function.update s.conns c p)
    (hq : s.conns c = q) (hqa : q ≠ .absent) (hpa : p ≠ .absent)
    (hholds : p.holds = q.holds) (hfresh : q.fresh = true ∨ p.fresh = false) (hacc : s'.accepted = s.accepted)
    (hsess : ∀ x, (s'.sessions x).map Session.entry = (s.sessions x).map Session.entry)
    (hby : s'.byId.Sublist s.byId) (hopens : s'.opens = s.opens) (hcloses : s'.closes = s.closes) :
    Registered s' := by
  subst hq
  refine h.quiet hqa hpa hconns hacc hsess hby hopens hcloses hholds ?_
  intro hpf
  rcases hfresh with hf | hf
  · exact hf
  · rw [hpf] at hf
    cases hf

theorem Registered.goto (h : Registered s) {q : Phase} (hq : s.conns c = q) (hqa : q ≠ .absent) (hpa : p ≠ .absent)
    (hholds : p.holds = q.holds) (hfresh : q.fresh = true ∨ p.fresh = false) : Registered (s.goto c p) :=
  h.move rfl hq hqa hpa hholds hfresh rfl (fun _ => rfl) (List.Sublist.refl _) rfl rfl

/-- A flag of a session is set. -/
theorem entry_change (s : State) (x : ℕ) {f : Session → Session} (hf : ∀ v, (f v).entry = v.entry) (y : ℕ) :
    ((s.change x f).sessions y).map Session.entry = (s.sessions y).map Session.entry := by
  by_cases hy : y = x
  · subst hy
    show (Function.update s.sessions y _ y).map _ = _
    rw [Function.update_self, Option.map_map]
    congr 1
    funext v
    exact hf v
  · rw [change_sessions_ne _ _ _ hy]

/-- The thread of `c` takes a count of the session at `x`, new or joined. -/
theorem Registered.opened (h : Registered s) {x : ℕ} (hfresh : (s.conns c).fresh = true)
    (hc : s.conns c ≠ .absent) (hp : p.holds = some x) (hconns : s'.conns = Function.update s.conns c p)
    (hacc : s'.accepted = s.accepted) (hopens : s'.opens = Function.update s.opens c (s.opens c + 1))
    (hcloses : s'.closes = s.closes)
    (hself : ∃ v', s'.sessions x = some v' ∧ v'.liveConns = s.holders x + 1)
    (hother : ∀ y, y ≠ x → s'.sessions y = s.sessions y)
    (hentries : ∀ e ∈ s'.byId, ∃ v', s'.sessions e.2 = some v' ∧ v'.sessionId = e.1)
    (hkeys : (s'.byId.map Prod.fst).Nodup) : Registered s' := by
  have hnone := Phase.holds_of_fresh hfresh
  have hpne : p ≠ .absent := by
    rintro rfl
    cases hp
  have hholders : ∀ y, s'.holders y = s.holders y + if y = x then 1 else 0 := by
    intro y
    have hcount := holders_goto h hc p y
    have hsame : s'.holders y = (s.goto c p).holders y := by
      unfold State.holders
      rw [hacc, hconns]
      rfl
    rw [hsame]
    rw [hnone, hp, if_neg (by simp)] at hcount
    by_cases hy : y = x
    · subst hy
      simpa using hcount
    · have hxy : ¬ (some x = some y) := fun heq => hy (Option.some.inj heq).symm
      rw [if_neg hxy] at hcount
      rw [if_neg hy]
      exact hcount
  refine ⟨?_, ?_, ?_, ?_, hentries, hkeys, ?_, ?_, ?_⟩
  · rw [hacc]
    exact h.nodup
  · rw [hacc, hconns]
    exact h.accepted_update hc hpne
  · -- the session at `x` has one holder more, and counts it
    intro y v' hv'
    rw [hholders]
    by_cases hy : y = x
    · subst hy
      obtain ⟨w, hw, hlive⟩ := hself
      rw [hv'] at hw
      cases hw
      rw [hlive, if_pos rfl]
    · rw [hother y hy] at hv'
      rw [h.counted y v' hv', if_neg hy, Nat.add_zero]
  · intro d y hd
    by_cases hy : y = x
    · subst hy
      obtain ⟨w, hw, -⟩ := hself
      exact ⟨w, hw⟩
    · rw [hother y hy]
      rw [hconns] at hd
      by_cases hdc : d = c
      · rw [hdc, Function.update_self, hp] at hd
        exact absurd (Option.some.inj hd).symm hy
      · rw [Function.update_of_ne hdc] at hd
        exact h.held d y hd
  · -- the thread of `c` held nothing, so this is the open that is not closed
    intro d
    have hbal := h.balance d
    rw [hopens, hcloses, hconns]
    by_cases hd : d = c
    · subst hd
      rw [hnone] at hbal
      simp only [Function.update_self, hp, Option.isSome_some, if_true, Option.isSome_none, Bool.false_eq_true,
        if_false] at hbal ⊢
      omega
    · rw [Function.update_of_ne hd, Function.update_of_ne hd]
      exact hbal
  · intro d
    rw [hopens]
    by_cases hd : d = c
    · subst hd
      have hzero := h.unopened d hfresh
      rw [Function.update_self]
      omega
    · rw [Function.update_of_ne hd]
      exact h.atMostOnce d
  · intro d hd
    rw [hconns] at hd
    by_cases hdc : d = c
    · exfalso
      rw [hdc, Function.update_self] at hd
      rw [Phase.holds_of_fresh hd] at hp
      cases hp
    · rw [hopens, Function.update_of_ne hdc]
      rw [Function.update_of_ne hdc] at hd
      exact h.unopened d hd

/-- `OnConnectionClosed` for the session that the thread of `c` holds. -/
theorem Registered.closed (h : Registered s) {x : ℕ} (hx : (s.conns c).holds = some x)
    (hp : p.holds = none) (hpf : p.fresh = false) : Registered ((s.onConnectionClosed c x).goto c p) := by
  have hc : s.conns c ≠ .absent := by
    intro habs
    rw [habs] at hx
    cases hx
  have hpne : p ≠ .absent := by
    rintro rfl
    cases hpf
  obtain ⟨v, hv⟩ := h.held c x hx
  have hself : ((s.onConnectionClosed c x).goto c p).sessions x =
      some { v with liveConns := v.liveConns - 1, lastActivity := s.now } := change_sessions_self s x _ hv
  have hother : ∀ y, y ≠ x → ((s.onConnectionClosed c x).goto c p).sessions y = s.sessions y :=
    fun y hy => change_sessions_ne s x _ hy
  have hholders : ∀ y, ((s.onConnectionClosed c x).goto c p).holders y + (if y = x then 1 else 0) = s.holders y := by
    intro y
    have hcount := holders_goto h hc p y
    rw [hx, hp, if_neg (show ¬ none = some y by simp), Nat.add_zero] at hcount
    have hsame : ((s.onConnectionClosed c x).goto c p).holders y = (s.goto c p).holders y := rfl
    rw [hsame, ← hcount]
    congr 1
    by_cases hy : y = x
    · rw [if_pos hy, if_pos (congrArg some hy.symm)]
    · rw [if_neg hy, if_neg fun heq => hy (Option.some.inj heq).symm]
  refine ⟨h.nodup, ?_, ?_, ?_, ?_, h.keys, ?_, h.atMostOnce, ?_⟩
  · rw [goto_conns, closed_conns]
    exact h.accepted_update hc hpne
  · -- the count of `x` was its holders, of which there is one less
    intro y v' hv'
    have hcount := hholders y
    by_cases hy : y = x
    · subst hy
      rw [hself] at hv'
      cases hv'
      show v.liveConns - 1 = _
      rw [if_pos rfl] at hcount
      rw [h.counted y v hv]
      omega
    · rw [hother y hy] at hv'
      rw [if_neg hy] at hcount
      rw [h.counted y v' hv']
      omega
  · intro d y hd
    have hold : (s.conns d).holds = some y := by
      rw [goto_conns, closed_conns] at hd
      by_cases hdc : d = c
      · rw [hdc, Function.update_self, hp] at hd
        cases hd
      · rwa [Function.update_of_ne hdc] at hd
    by_cases hy : y = x
    · subst hy
      exact ⟨_, hself⟩
    · rw [hother y hy]
      exact h.held d y hold
  · intro e he
    obtain ⟨w, hw, hid⟩ := h.entries e he
    by_cases hy : e.2 = x
    · rw [hy] at hw ⊢
      rw [hv] at hw
      cases hw
      exact ⟨_, hself, hid⟩
    · rw [hother _ hy]
      exact ⟨w, hw, hid⟩
  · -- the close answers the open of `c`
    intro d
    have hbal := h.balance d
    show s.opens d = Function.update s.closes c (s.closes c + 1) d + _
    rw [goto_conns, closed_conns]
    by_cases hd : d = c
    · subst hd
      rw [hx] at hbal
      rw [Function.update_self, Function.update_self, hp, hbal]
      rfl
    · rw [Function.update_of_ne hd, Function.update_of_ne hd]
      exact hbal
  · intro d hd
    rw [goto_conns, closed_conns] at hd
    by_cases hdc : d = c
    · rw [hdc, Function.update_self, hpf] at hd
      cases hd
    · rw [Function.update_of_ne hdc] at hd
      exact h.unopened d hd

/-- The entry that a lookup finds. -/
theorem mem_of_find {id x : ℕ} (h : s.find id = some x) : (id, x) ∈ s.byId := by
  unfold State.find at h
  revert h
  induction s.byId with
  | nil => intro h; cases h
  | cons e l ih =>
    intro h
    obtain ⟨k, y⟩ := e
    rw [List.lookup_cons] at h
    by_cases hk : id = k
    · subst hk
      simp only [BEq.rfl] at h
      cases h
      exact List.mem_cons_self
    · have hne : (id == k) = false := by simpa using hk
      rw [hne] at h
      exact List.mem_cons_of_mem _ (ih h)

theorem Registered.created (h : Registered s) {x id : ℕ} {q : Phase} (hq : s.conns c = q) (hqa : q ≠ .absent)
    (hqf : q.fresh = true) (hx : s.sessions x = none) (made : SessionType) (hp : p.holds = some x) :
    Registered ((s.createSession c x id made).goto c p) := by
  subst hq
  have hnew : s.holders x = 0 := by
    apply List.countP_eq_zero.2
    intro d _ hd
    obtain ⟨v, hv⟩ := h.held d x (by simpa using hd)
    rw [hx] at hv
    cases hv
  have hold : ∀ e ∈ s.byId, e.2 ≠ x := by
    intro e he hex
    obtain ⟨v, hv, -⟩ := h.entries e he
    rw [hex, hx] at hv
    cases hv
  refine h.opened hqf hqa hp rfl rfl rfl rfl ⟨_, Function.update_self .., ?_⟩
    (fun y hy => Function.update_of_ne hy ..) ?_ ?_
  · rw [hnew]
  · intro e he
    have hcases : e ∈ s.byId ∨ e = (id, x) := by
      change e ∈ (if s.find id = none then s.byId ++ [(id, x)] else s.byId) at he
      split at he
      · rcases List.mem_append.1 he with he | he
        · exact .inl he
        · exact .inr (List.mem_singleton.1 he)
      · exact .inl he
    rcases hcases with he | rfl
    · obtain ⟨v, hv, hid⟩ := h.entries e he
      exact ⟨v, (Function.update_of_ne (hold e he) ..).trans hv, hid⟩
    · exact ⟨_, Function.update_self .., rfl⟩
  · show ((if s.find id = none then s.byId ++ [(id, x)] else s.byId).map Prod.fst).Nodup
    split
    · rename_i hfind
      rw [List.map_append, List.map_singleton]
      refine List.nodup_append.2 ⟨h.keys, List.pairwise_singleton _ _, ?_⟩
      rintro a ha b hb rfl
      rw [List.mem_singleton.1 hb] at ha
      -- the token of the new entry is not in the table
      obtain ⟨e, he, hid⟩ := List.mem_map.1 ha
      have hnone := List.lookup_eq_none_iff.1 hfind e he
      rw [hid] at hnone
      simp at hnone
    · exact h.keys

theorem Registered.joined (h : Registered s) {x id : ℕ} (hq : s.conns c = .handshake) (hx : s.find id = some x) :
    Registered ((s.joinSession c x).goto c (.sending x)) := by
  obtain ⟨v, hv, -⟩ := h.entries _ (mem_of_find hx)
  have hself : ((s.joinSession c x).goto c (.sending x)).sessions x =
      some { v with liveConns := v.liveConns + 1, lastActivity := s.now } := change_sessions_self s x _ hv
  refine h.opened (by rw [hq]; rfl) (by rw [hq]; nofun) rfl rfl rfl rfl rfl ⟨_, hself, ?_⟩
    (fun y hy => change_sessions_ne s x _ hy) ?_ h.keys
  · rw [h.counted x v hv]
  · intro e he
    obtain ⟨w, hw, hid⟩ := h.entries e he
    by_cases hy : e.2 = x
    · rw [hy] at hw ⊢
      rw [hv] at hw
      cases hw
      exact ⟨_, hself, hid⟩
    · exact ⟨w, (change_sessions_ne s x _ hy).trans hw, hid⟩

/-- **A step of a connection's thread.** -/
theorem Registered.effect {cfg : Config} {a : Act} (h : Registered s) (he : Effect cfg s c a s') : Registered s' := by
  cases he with
  | refused hq =>
    rcases hq with hq | hq | hq
    · exact h.goto hq nofun nofun rfl (.inr rfl)
    · exact h.goto hq nofun nofun rfl (.inr rfl)
    · exact h.goto hq nofun nofun rfl (.inr rfl)
  | refusedAuth hq => exact h.goto hq nofun nofun rfl (.inr rfl)
  | refusedJoin hq => exact h.goto hq nofun nofun rfl (.inr rfl)
  | passAuth hq => exact h.goto hq nofun nofun rfl (.inl rfl)
  | passCheck hq => exact h.goto hq nofun nofun rfl (.inl rfl)
  | join hq hx => exact h.joined hq hx
  | createSync hq hx => exact h.created hq nofun rfl hx .sync rfl
  | createCheck hq hx => exact h.created hq nofun rfl hx .check rfl
  | setType hq =>
    exact h.move rfl hq nofun nofun rfl (.inr rfl) rfl (entry_change s _ fun _ => rfl) (List.Sublist.refl _) rfl rfl
  | sendOk hq => exact h.goto hq nofun nofun rfl (.inr rfl)
  | sendFail hq => exact h.closed (by rw [hq]; rfl) rfl rfl
  | readType hq => exact h.goto hq nofun nofun rfl (.inr rfl)
  | claimNew hq =>
    exact h.move rfl hq nofun nofun rfl (.inr rfl) rfl (fun _ => rfl) (List.Sublist.refl _) rfl rfl
  | claimMatch hq =>
    exact h.move rfl hq nofun nofun rfl (.inr rfl) rfl (fun _ => rfl) (List.Sublist.refl _) rfl rfl
  | claimRefused hq => exact h.goto hq nofun nofun rfl (.inr rfl)
  | serve hq =>
    exact h.move rfl hq nofun nofun rfl (.inr rfl) rfl (fun _ => rfl) (List.Sublist.refl _) rfl rfl
  | @endClean x b hq =>
    unfold State.endedClean
    split
    · exact h.move rfl hq nofun nofun rfl (.inr rfl) rfl (entry_change s x fun _ => rfl) (List.Sublist.refl _) rfl rfl
    · exact h.move rfl hq nofun nofun rfl (.inr rfl) rfl (fun _ => rfl) (List.Sublist.refl _) rfl rfl
  | @endError x b hq =>
    unfold State.endedError
    split
    · exact h.move rfl hq nofun nofun rfl (.inr rfl) rfl (entry_change s x fun _ => rfl) (List.Sublist.refl _) rfl rfl
    · exact h.move rfl hq nofun nofun rfl (.inr rfl) rfl (fun _ => rfl) (List.Sublist.refl _) rfl rfl
  | close hq => exact h.closed (by rw [hq]; rfl) rfl rfl
  | sweep hq =>
    exact h.move rfl hq nofun nofun rfl (.inr rfl) rfl (fun _ => rfl) List.filter_sublist rfl rfl
  | sweepNone hq =>
    exact h.move rfl hq nofun nofun rfl (.inr rfl) rfl (fun _ => rfl) List.filter_sublist rfl rfl
  | checkTarget hq => exact h.goto hq nofun nofun rfl (.inr rfl)
  | checkFold hq => exact h.goto hq nofun nofun rfl (.inr rfl)
  | checkDone hq => exact h.goto hq nofun nofun rfl (.inr rfl)
  | judgeOk hq => exact h.goto hq nofun nofun rfl (.inr rfl)
  | judgeBad hq => exact h.goto hq nofun nofun rfl (.inr rfl)
  | judgeErr hq => exact h.goto hq nofun nofun rfl (.inr rfl)
  | exchangeLost hq => exact h.goto hq nofun nofun rfl (.inr rfl)
  | exchangeWon hq =>
    exact h.move rfl hq nofun nofun rfl (.inr rfl) rfl (fun _ => rfl) (List.Sublist.refl _) rfl rfl
  | storeCode hq =>
    exact h.move rfl hq nofun nofun rfl (.inr rfl) rfl (fun _ => rfl) (List.Sublist.refl _) rfl rfl
  | storeExit hq =>
    exact h.move rfl hq nofun nofun rfl (.inr rfl) rfl (fun _ => rfl) (List.Sublist.refl _) rfl rfl
  | foldOk hq => exact h.goto hq nofun nofun rfl (.inr rfl)
  | foldBad hq => exact h.goto hq nofun nofun rfl (.inr rfl)
  | foldErr hq => exact h.goto hq nofun nofun rfl (.inr rfl)
  | foldClean hq => exact h.goto hq nofun nofun rfl (.inr rfl)
  | storeFailure hq =>
    exact h.move rfl hq nofun nofun rfl (.inr rfl) rfl (fun _ => rfl) (List.Sublist.refl _) rfl rfl
  | leave hq => exact h.goto hq nofun nofun rfl (.inr rfl)

/-- A connection is accepted. -/
theorem Registered.accept (h : Registered s) (hc : s.conns c = .absent) :
    Registered ({ s with accepted := s.accepted ++ [c] }.goto c .handshake) := by
  have hnew : c ∉ s.accepted := fun hmem => (h.accepted c).1 hmem hc
  have hat : ∀ d, (Function.update s.conns c .handshake d).holds = (s.conns d).holds := holds_handshake hc
  refine ⟨?_, ?_, ?_, ?_, h.entries, h.keys, ?_, h.atMostOnce, ?_⟩
  · refine List.nodup_append.2 ⟨h.nodup, List.pairwise_singleton _ _, ?_⟩
    rintro a ha b hb rfl
    exact hnew (List.mem_singleton.1 hb ▸ ha)
  · intro d
    show d ∈ s.accepted ++ [c] ↔ Function.update s.conns c .handshake d ≠ .absent
    rw [List.mem_append, List.mem_singleton]
    by_cases hd : d = c
    · rw [hd, Function.update_self]
      exact ⟨fun _ => nofun, fun _ => .inr rfl⟩
    · rw [Function.update_of_ne hd, h.accepted]
      exact ⟨fun hor => hor.resolve_right hd, .inl⟩
  · intro x v hv
    rw [h.counted x v hv]
    show _ = (s.accepted ++ [c]).countP _
    rw [List.countP_append, List.countP_singleton]
    have hsame : s.holders x =
        s.accepted.countP fun d => decide ((Function.update s.conns c .handshake d).holds = some x) := by
      refine List.countP_congr fun d _ => ?_
      rw [hat]
    rw [hsame, goto_conns, Function.update_self]
    rfl
  · intro d x hd
    rw [goto_conns, hat] at hd
    exact h.held d x hd
  · intro d
    rw [goto_conns, hat]
    exact h.balance d
  · intro d hd
    rw [goto_conns] at hd
    apply h.unopened
    by_cases hdc : d = c
    · rw [hdc, hc]
      rfl
    · rwa [Function.update_of_ne hdc] at hd

theorem Registered.mainEffect {cfg : Config} {a : MainAct} (h : Registered s) (he : MainEffect cfg s a s') :
    Registered s' := by
  obtain ⟨h1, h2, h3, h4, h5, h6, h7, h8, h9⟩ := id h
  cases he with
  | accept _ hc => exact h.accept hc
  | _ => exact ⟨h1, h2, h3, h4, h5, h6, h7, h8, h9⟩

end Steps

section Runs

variable {cfg : Config} {ok : State → Event → Prop} {s : State} {e : Event}

theorem Registered.step (h : Registered s) (hc : (machine cfg).can s e) : Registered ((machine cfg).next s e) := by
  rcases step_cases hc with ⟨c, a, -, he⟩ | ⟨a, -, he⟩ | ⟨d, -, he⟩
  · exact h.effect he
  · exact h.mainEffect he
  · obtain ⟨h1, h2, h3, h4, h5, h6, h7, h8, h9⟩ := h
    rw [he]
    exact ⟨h1, h2, h3, h4, h5, h6, h7, h8, h9⟩

/-- **Every state of every run.** -/
theorem reach_registered (h : (machine cfg).Reach ok s) : Registered s :=
  h.invariant registered_start fun _ _ hr hc _ => hr.step hc

theorem Registered.live_eq (h : Registered s) {x : ℕ} {v : Session} (hv : s.sessions x = some v) :
    s.liveConns x = s.holders x := by
  rw [liveConns_of hv]
  exact h.counted x v hv

theorem Registered.holders_pos (h : Registered s) {c x : ℕ} (hx : (s.conns c).holds = some x) : 0 < s.holders x := by
  have hmem : c ∈ s.accepted := by
    rw [h.accepted]
    intro habs
    rw [habs] at hx
    cases hx
  refine List.countP_pos_iff.2 ⟨c, hmem, ?_⟩
  simpa using hx

/-! ### Entries -/

/-- What a thread does to the registry's table: a new entry, a sweep, or nothing. -/
theorem Effect.byId {s' : State} {c : ℕ} {a : Act} (he : Effect cfg s c a s') :
    s'.byId = s.byId ∨ (∃ x id, a = .create x id ∧ s'.byId = if s.find id = none then s.byId ++ [(id, x)] else s.byId) ∨
      s'.byId = s.sweepExpired.byId := by
  cases he with
  | createSync => exact .inr (.inl ⟨_, _, rfl, rfl⟩)
  | createCheck => exact .inr (.inl ⟨_, _, rfl, rfl⟩)
  | sweep => exact .inr (.inr rfl)
  | sweepNone => exact .inr (.inr rfl)
  | endClean =>
    unfold State.endedClean
    split
    · exact .inl rfl
    · exact .inl rfl
  | endError =>
    unfold State.endedError
    split
    · exact .inl rfl
    · exact .inl rfl
  | _ => exact .inl rfl

theorem MainEffect.byId {s' : State} {a : MainAct} (he : MainEffect cfg s a s') : s'.byId = s.byId := by
  cases he <;> rfl

/-- A sweep leaves the sessions that a connection holds. -/
theorem Registered.sweep_keeps (h : Registered s) {p : ℕ × ℕ} (hp : p ∈ s.byId) (hlive : 0 < s.holders p.2) :
    p ∈ s.sweepExpired.byId := by
  obtain ⟨v, hv, -⟩ := h.entries p hp
  have hpos : v.liveConns ≠ 0 := by
    rw [h.counted _ v hv]
    omega
  refine List.mem_filter.2 ⟨hp, ?_⟩
  simp [State.expired, hv, hpos]

/-- **The entry of a session that a connection holds stays.** -/
theorem Registered.entry_stays (h : Registered s) {p : ℕ × ℕ} (hp : p ∈ s.byId) (hlive : 0 < s.holders p.2)
    (hc : (machine cfg).can s e) : p ∈ ((machine cfg).next s e).byId := by
  rcases step_cases hc with ⟨c, a, -, he⟩ | ⟨a, -, he⟩ | ⟨d, -, he⟩
  · rcases he.byId with hb | ⟨x, id, -, hb⟩ | hb
    · rwa [hb]
    · rw [hb]
      split
      · exact List.mem_append_left _ hp
      · exact hp
    · rw [hb]
      exact h.sweep_keeps hp hlive
  · rwa [he.byId]
  · rwa [he]

theorem lookup_of_mem {l : List (ℕ × ℕ)} (hl : (l.map Prod.fst).Nodup) {p : ℕ × ℕ} (hp : p ∈ l) :
    l.lookup p.1 = some p.2 := by
  induction l with
  | nil => exact absurd hp List.not_mem_nil
  | cons q l ih =>
    rw [List.map_cons, List.nodup_cons] at hl
    rw [List.lookup_cons]
    rcases List.mem_cons.1 hp with rfl | hp
    · simp
    · have hne : (p.1 == q.1) = false := by
        rw [beq_eq_false_iff_ne]
        intro heq
        exact hl.1 (heq ▸ List.mem_map_of_mem hp)
      rw [hne]
      exact ih hl.2 hp

/-- A `Join` finds every entry under its token. -/
theorem Registered.find_entry (h : Registered s) {p : ℕ × ℕ} (hp : p ∈ s.byId) : s.find p.1 = some p.2 :=
  lookup_of_mem h.keys hp

/-- What a step makes a thread hold. -/
theorem Effect.holds {s' : State} {c : ℕ} {a : Act} (he : Effect cfg s c a s') (d x : ℕ)
    (hd : (s'.conns d).holds = some x) :
    (s.conns d).holds = some x ∨ (∃ id, a = .claimJoin id ∧ s.conns c = .handshake ∧ s.find id = some x ∧ s'.byId = s.byId) ∨
      ∃ id, a = .create x id ∧ s'.byId = if s.find id = none then s.byId ++ [(id, x)] else s.byId := by
  -- only the connection of the thread moves
  have hnew : ∀ p, Function.update s.conns c p = s'.conns → (s.conns d).holds = some x ∨ d = c ∧ p.holds = some x := by
    intro p hp
    rw [← hp] at hd
    by_cases hdc : d = c
    · rw [hdc, Function.update_self] at hd
      exact Or.inr ⟨hdc, hd⟩
    · rw [Function.update_of_ne hdc] at hd
      exact Or.inl hd
  have hother : ∀ p, Function.update s.conns c p = s'.conns → (p.holds = some x → (s.conns c).holds = some x) →
      (s.conns d).holds = some x := by
    intro p hp hkeep
    rcases hnew p hp with hold | ⟨rfl, hholds⟩
    · exact hold
    · exact hkeep hholds
  cases he with
  | join hq hx =>
    rcases hnew _ rfl with hold | ⟨-, hholds⟩
    · exact .inl hold
    · cases hholds
      exact .inr (.inl ⟨_, rfl, hq, hx, rfl⟩)
  | createSync hq hx =>
    rcases hnew _ rfl with hold | ⟨-, hholds⟩
    · exact .inl hold
    · cases hholds
      exact .inr (.inr ⟨_, rfl, rfl⟩)
  | createCheck hq hx =>
    rcases hnew _ rfl with hold | ⟨-, hholds⟩
    · exact .inl hold
    · cases hholds
      exact .inr (.inr ⟨_, rfl, rfl⟩)
  | @endClean y b hq =>
    refine .inl (hother (.ended y) ?_ ?_)
    · unfold State.endedClean
      split
      · rfl
      · rfl
    · rw [hq]
      exact id
  | @endError y b hq =>
    refine .inl (hother (.ended y) ?_ ?_)
    · unfold State.endedError
      split
      · rfl
      · rfl
    · rw [hq]
      exact id
  | setType hq => exact .inl (hother _ rfl (by rw [hq]; exact id))
  | sendOk hq => exact .inl (hother _ rfl (by rw [hq]; exact id))
  | readType hq => exact .inl (hother _ rfl (by rw [hq]; exact id))
  | claimNew hq => exact .inl (hother _ rfl (by rw [hq]; exact id))
  | claimMatch hq => exact .inl (hother _ rfl (by rw [hq]; exact id))
  | claimRefused hq => exact .inl (hother _ rfl (by rw [hq]; exact id))
  | serve hq => exact .inl (hother _ rfl (by rw [hq]; exact id))
  | _ => exact .inl (hother _ rfl nofun)

theorem MainEffect.holds {s' : State} {a : MainAct} (he : MainEffect cfg s a s') (d : ℕ) :
    (s'.conns d).holds = (s.conns d).holds := by
  cases he with
  | accept _ hc => exact holds_handshake hc d
  | _ => rfl

/-- `CreateSession` gets a token that no registered session has. -/
def FreshTokens (s : State) (e : Event) : Prop := ∀ c x id, e = .conn c (.create x id) → s.find id = none

/-- Every session that a connection holds is registered. -/
def Listed (s : State) : Prop := ∀ c x, (s.conns c).holds = some x → ∃ p ∈ s.byId, p.2 = x

theorem Listed.step (hl : Listed s) (hr : Registered s) (hc : (machine cfg).can s e) (hfresh : FreshTokens s e) :
    Listed ((machine cfg).next s e) := by
  have hkept : ∀ d x, (s.conns d).holds = some x → ∃ p ∈ ((machine cfg).next s e).byId, p.2 = x := by
    intro d x hd
    obtain ⟨p, hp, rfl⟩ := hl d x hd
    exact ⟨p, hr.entry_stays hp (hr.holders_pos hd) hc, rfl⟩
  intro d x hd
  rcases step_cases hc with ⟨c, a, rfl, he⟩ | ⟨a, -, he⟩ | ⟨k, -, he⟩
  · rcases he.holds d x hd with hold | ⟨id, rfl, -, hx, hb⟩ | ⟨id, rfl, hb⟩
    · exact hkept d x hold
    · rw [hb]
      exact ⟨(id, x), mem_of_find hx, rfl⟩
    · rw [if_pos (hfresh c x id rfl)] at hb
      rw [hb]
      exact ⟨(id, x), List.mem_append_right _ (List.mem_singleton.2 rfl), rfl⟩
  · rw [he.holds] at hd
    exact hkept d x hd
  · rw [he] at hd
    exact hkept d x hd

theorem reach_listed (h : (machine cfg).Reach FreshTokens s) : Listed s := by
  induction h with
  | init => exact fun _ _ h => nomatch h
  | step hs hc hfresh ih => exact ih.step (reach_registered hs) hc hfresh

/-! ### Closing -/

/-- A thread whose session is not closed yet, before the server returns. -/
def Unclosed (c : ℕ) (s : State) : Prop := s.over = false ∧ s.closes c = 0

/-- Some run of the thread of `c` alone closes its session. -/
def ClosesAlone (cfg : Config) (c : ℕ) (s : State) : Prop :=
  (machine cfg).Leads (fun _ e => ∃ a, e = .conn c a) (fun s' => s'.closes c = 1) s

theorem closesAlone_act {c : ℕ} {a : Act} {s' : State} (ho : s.over = false) (ha : s.act cfg c a = some s')
    (h : ClosesAlone cfg c s') : ClosesAlone cfg c s := by
  have hstep : step cfg s (.conn c a) = some s' := by
    unfold step
    rw [ho]
    exact ha
  obtain ⟨hcan, hnext⟩ := machine_of_step hstep
  refine Machine.Leads.step hcan ⟨a, rfl⟩ ?_
  rw [hnext]
  exact h

section Closing

variable {c x : ℕ}

theorem closesAlone_ended (hp : s.conns c = .ended x) (hu : Unclosed c s) : ClosesAlone cfg c s := by
  refine closesAlone_act hu.1 (Effect.close hp).act (Machine.Leads.here ?_)
  show Function.update s.closes c (s.closes c + 1) c = 1
  rw [Function.update_self, hu.2]

theorem closesAlone_serving {b : Bool} (hp : s.conns c = .serving x b) (hu : Unclosed c s) :
    ClosesAlone cfg c s := by
  have hu' : Unclosed c ((s.endedClean cfg c x b).goto c (.ended x)) := by
    unfold State.endedClean
    split
    · exact hu
    · exact hu
  have hp' : ((s.endedClean cfg c x b).goto c (.ended x)).conns c = .ended x := Function.update_self ..
  exact closesAlone_act hu.1 (Effect.endClean hp).act (closesAlone_ended hp' hu')

theorem closesAlone_typed {b : Bool} (hp : s.conns c = .typed x b) (hu : Unclosed c s) : ClosesAlone cfg c s := by
  have hserve : ∀ s₁ : State, Unclosed c s₁ → ClosesAlone cfg c (s₁.serve c x b) := fun s₁ hu₁ =>
    closesAlone_serving (Function.update_self ..) hu₁
  -- refused or served, the thread comes to the close
  by_cases hm : cfg.mode = .once ∧ b = false
  · obtain ⟨hm, rfl⟩ := hm
    cases hc : s.targetClaimed with
    | false => exact closesAlone_act hu.1 (Effect.claimNew hp hm hc).act (hserve _ hu)
    | true =>
      by_cases ht : s.target = some x
      · exact closesAlone_act hu.1 (Effect.claimMatch hp hm hc ht).act (hserve _ hu)
      · have hp' : (s.goto c (.ended x)).conns c = .ended x := Function.update_self ..
        exact closesAlone_act hu.1 (Effect.claimRefused hp hm hc ht).act (closesAlone_ended hp' hu)
  · exact closesAlone_act hu.1 (Effect.serve hp hm).act (hserve _ hu)

theorem closesAlone_resolved (hp : s.conns c = .resolved x) (hu : Unclosed c s) : ClosesAlone cfg c s :=
  closesAlone_act hu.1 (Effect.readType hp).act (closesAlone_typed (Function.update_self ..) hu)

theorem closesAlone_sending (hp : s.conns c = .sending x) (hu : Unclosed c s) : ClosesAlone cfg c s :=
  closesAlone_act hu.1 (Effect.sendOk hp).act (closesAlone_resolved (Function.update_self ..) hu)

theorem closesAlone_created (hp : s.conns c = .created x) (hu : Unclosed c s) : ClosesAlone cfg c s :=
  closesAlone_act hu.1 (Effect.setType hp).act (closesAlone_sending (Function.update_self ..) hu)

/-- **A thread that holds a session can always come to its close.** -/
theorem Registered.closesAlone (h : Registered s) (ho : s.over = false) (hx : (s.conns c).holds = some x) :
    ClosesAlone cfg c s := by
  have hu : Unclosed c s := by
    refine ⟨ho, ?_⟩
    have hbal := h.balance c
    have hone := h.atMostOnce c
    rw [hx, Option.isSome_some, if_pos rfl] at hbal
    omega
  cases hp : s.conns c with
  | created y => exact closesAlone_created hp hu
  | sending y => exact closesAlone_sending hp hu
  | resolved y => exact closesAlone_resolved hp hu
  | typed y b => exact closesAlone_typed hp hu
  | serving y b => exact closesAlone_serving hp hu
  | ended y => exact closesAlone_ended hp hu
  | _ => rw [hp] at hx; cases hx

end Closing

/-! ### The registry -/

/-- A `SessionJoin` with the token of a registered session is counted in it. -/
theorem Registered.join_succeeds (h : Registered s) {p : ℕ × ℕ} (hp : p ∈ s.byId) {c : ℕ}
    (hc : s.conns c = .handshake) :
    s.act cfg c (.claimJoin p.1) = some ((s.joinSession c p.2).goto c (.sending p.2)) :=
  (Effect.join hc (h.find_entry hp)).act

/-- **The registry counts its connections**: the count of a session is the number of
connections that resolved to it and are not closed, a connection is closed once, and the
entry of a session with such a connection stays, so that a `Join` with its token succeeds. -/
theorem registry_counts_connections (hs : (machine cfg).Reach (fun _ _ => True) s) :
    (∀ p ∈ s.byId, s.liveConns p.2 = s.holders p.2) ∧
      (∀ c, s.closes c ≤ 1 ∧ s.opens c ≤ 1 ∧ ((s.conns c).holds = none → s.closes c = s.opens c)) ∧
      (∀ c x, (s.conns c).holds = some x → s.over = false → s.closes c = 0 ∧ ClosesAlone cfg c s) ∧
      (∀ p ∈ s.byId, 0 < s.holders p.2 →
        (∀ e, (machine cfg).can s e → p ∈ ((machine cfg).next s e).byId) ∧
          ∀ c, s.conns c = .handshake →
            s.act cfg c (.claimJoin p.1) = some ((s.joinSession c p.2).goto c (.sending p.2))) ∧
      ((machine cfg).Reach FreshTokens s →
        ∀ c x, (s.conns c).holds = some x → ∃ id, (id, x) ∈ s.byId) := by
  have hr := reach_registered hs
  refine ⟨?_, ?_, ?_, ?_, ?_⟩
  · intro p hp
    obtain ⟨v, hv, -⟩ := hr.entries p hp
    exact hr.live_eq hv
  · intro c
    have hbal := hr.balance c
    have hone := hr.atMostOnce c
    refine ⟨by omega, hone, fun hnone => ?_⟩
    rw [hnone] at hbal
    exact hbal.symm
  · intro c x hx ho
    have hbal := hr.balance c
    have hone := hr.atMostOnce c
    rw [hx, Option.isSome_some, if_pos rfl] at hbal
    exact ⟨by omega, hr.closesAlone ho hx⟩
  · intro p hp hlive
    exact ⟨fun e hc => hr.entry_stays hp hlive hc, fun c hc => hr.join_succeeds hp hc⟩
  · intro hfresh c x hx
    obtain ⟨⟨id, y⟩, hp, rfl⟩ := reach_listed hfresh c x hx
    exact ⟨id, hp⟩

/-- Two connections of one session: the second joins after the first has an `AuthOk`. -/
def joinedEvents : List Event :=
  [.main (.accept 0), .main (.accept 1), .conn 0 .claimAuth, .conn 0 (.create 7 42), .conn 0 .sendOk,
    .conn 1 (.claimJoin 42), .conn 1 .sendOk]

theorem registry_counts_two :
    ((machine ⟨.once, 0, 300000⟩).run .start joinedEvents).liveConns 7 = 2 ∧
      ∀ p ∈ ((machine ⟨.once, 0, 300000⟩).run .start joinedEvents).byId,
        ((machine ⟨.once, 0, 300000⟩).run .start joinedEvents).liveConns p.2 =
          ((machine ⟨.once, 0, 300000⟩).run .start joinedEvents).holders p.2 :=
  ⟨by decide, (registry_counts_connections (Machine.reach_run (by decide))).1⟩

end Runs

end FastClone.Sessions
