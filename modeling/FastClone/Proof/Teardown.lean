import FastClone.Spec.Teardown

/-!
# The teardown closes every socket once

`teardown_closes_once`: after a wait-connect timeout every blocked handshake is interrupted
and every socket is closed once, in runs in which a connection is only accepted when the
threads before it are past their use of the slot and, on Windows, the thread of the drained
socket does not ask for it between the drain's load and its publication.
-/

namespace FastClone.Teardown

open Runs

variable {p : Platform} {s s' : State} {c : ℕ}

/-! ### Conditions -/

/-- The thread may still block, or has the slot to clear. -/
def Phase.early : Phase → Bool
  | .running | .blocked | .left | .clearing => true
  | _ => false

/-- A connection is accepted when no other thread is early, and no thread asks for the drained
socket while its own is loaded or closed and not published. -/
def Alone (p : Platform) (s : State) : Event → Prop
  | .main (.accept _ _) => ∀ d ∈ s.accepted, (s.conns d).early = false
  | .conn c .loadDrained =>
    p = .windows → s.main ≠ .loaded (some (s.sock c)) ∧ s.main ≠ .closed (s.sock c)
  | _ => True

instance : DecidablePred (Alone p s)
  | .main (.accept _ _) => inferInstanceAs (Decidable (∀ d ∈ s.accepted, (s.conns d).early = false))
  | .conn c .loadDrained =>
    inferInstanceAs (Decidable (p = .windows → s.main ≠ .loaded (some (s.sock c)) ∧ s.main ≠ .closed (s.sock c)))
  | .conn _ .recv | .conn _ .wake | .conn _ .leave | .conn _ .loadSlot | .conn _ .storeSlot | .conn _ .release
  | .conn _ .destroy | .main (.timeout _) | .main .load | .main .interrupt | .main .publish | .main (.ret _) =>
    .isTrue trivial

/-! ### Steps -/

/-- One step of a thread, with what it found. -/
inductive Effect (s : State) (c : ℕ) : Act → State → Prop where
  | recv (h : s.conns c = .running) (hi : s.interrupted c = false) : Effect s c .recv (s.goto c .blocked)
  | wake (h : s.conns c = .blocked) : Effect s c .wake (s.goto c .running)
  | leave (h : s.conns c = .running) : Effect s c .leave ({ s with inFlight := s.inFlight - 1 }.goto c .left)
  | slotMine (h : s.conns c = .left) (hs : s.heldOpen = some (s.sock c)) : Effect s c .loadSlot (s.goto c .clearing)
  | slotOther (h : s.conns c = .left) (hs : s.heldOpen ≠ some (s.sock c)) : Effect s c .loadSlot (s.goto c .cleared)
  | storeSlot (h : s.conns c = .clearing) : Effect s c .storeSlot ({ s with heldOpen := none }.goto c .cleared)
  | drainedMine (h : s.conns c = .cleared) (hd : s.drained = some (s.sock c)) :
      Effect s c .loadDrained (s.goto c .releasing)
  | drainedOther (h : s.conns c = .cleared) (hd : s.drained ≠ some (s.sock c)) :
      Effect s c .loadDrained (s.goto c .destroying)
  | release (h : s.conns c = .releasing) : Effect s c .release ({ s with drained := none }.goto c .done)
  | destroy (h : s.conns c = .destroying) : Effect s c .destroy ((s.closeHandle (some c) (s.sock c)).goto c .done)

theorem act_effect {a : Act} (h : s.act c a = some s') : Effect s c a s' := by
  unfold State.act at h
  split at h
  case h_1 hp =>
    split at h
    · rename_i hi
      cases h
      exact .recv hp hi
    · cases h
  case h_2 hp => cases h; exact .wake hp
  case h_3 hp => cases h; exact .leave hp
  case h_4 hp =>
    by_cases hs : s.heldOpen = some (s.sock c)
    · rw [if_pos hs] at h
      cases h
      exact .slotMine hp hs
    · rw [if_neg hs] at h
      cases h
      exact .slotOther hp hs
  case h_5 hp => cases h; exact .storeSlot hp
  case h_6 hp =>
    by_cases hd : s.drained = some (s.sock c)
    · rw [if_pos hd] at h
      cases h
      exact .drainedMine hp hd
    · rw [if_neg hd] at h
      cases h
      exact .drainedOther hp hd
  case h_7 hp => cases h; exact .release hp
  case h_8 hp => cases h; exact .destroy hp
  case h_9 => cases h

/-- One step of the main thread, with what it found. -/
inductive MainEffect (p : Platform) (s : State) : MainAct → State → Prop where
  | accept {c h : ℕ} (hm : s.main = .accepting) (hc : s.conns c = .absent) (hh : s.openBy h = none) :
      MainEffect p s (.accept c h) ({ s with
        sock := Function.update s.sock c h
        openBy := Function.update s.openBy h (some c)
        heldOpen := some h
        inFlight := s.inFlight + 1
        accepted := s.accepted ++ [c] }.goto c .running)
  | timeout {b : Bool} (hm : s.main = .accepting) : MainEffect p s (.timeout b) { s with main := .draining }
  | load (hm : s.main = .draining) : MainEffect p s .load { s with main := .loaded s.heldOpen }
  | skip (hm : s.main = .loaded none) : MainEffect p s .interrupt { s with main := .waiting }
  | close {h : ℕ} (hm : s.main = .loaded (some h)) (hp : p = .windows) :
      MainEffect p s .interrupt { (s.interrupt h).closeHandle none h with main := .closed h }
  | shutdown {h : ℕ} (hm : s.main = .loaded (some h)) (hp : p = .posix) :
      MainEffect p s .interrupt { s.interrupt h with main := .waiting }
  | publish {h : ℕ} (hm : s.main = .closed h) :
      MainEffect p s .publish { s with main := .waiting, drained := some h }
  | ret {b : Bool} (hm : s.main = .waiting) : MainEffect p s (.ret b) { s with main := .returned }

theorem mainAct_effect {a : MainAct} (h : s.mainAct p a = some s') : MainEffect p s a s' := by
  cases a with
  | accept c k =>
    simp only [State.mainAct] at h
    split at h
    · rename_i hg
      cases h
      exact .accept hg.1 hg.2.1 hg.2.2
    · cases h
  | timeout b =>
    simp only [State.mainAct] at h
    split at h
    · rename_i hg
      cases h
      exact .timeout hg.1
    · cases h
  | load =>
    simp only [State.mainAct] at h
    split at h
    · rename_i hg
      cases h
      exact .load hg
    · cases h
  | interrupt =>
    simp only [State.mainAct] at h
    split at h
    · rename_i hm
      cases h
      exact .skip hm
    · rename_i k hm
      cases p with
      | windows => cases h; exact .close hm rfl
      | posix => cases h; exact .shutdown hm rfl
    · cases h
  | publish =>
    simp only [State.mainAct] at h
    split at h
    · rename_i k hm
      cases h
      exact .publish hm
    · cases h
  | ret b =>
    simp only [State.mainAct] at h
    split at h
    · rename_i hg
      cases h
      exact .ret hg.1
    · cases h

theorem step_cases {e : Event} (h : (machine p).can s e) :
    (∃ c a, e = .conn c a ∧ Effect s c a ((machine p).next s e)) ∨
      ∃ a, e = .main a ∧ MainEffect p s a ((machine p).next s e) := by
  have hsome : (step p s e).isSome = true := h
  obtain ⟨s', hs'⟩ := Option.isSome_iff_exists.1 hsome
  have hnext : (machine p).next s e = s' := by
    show (step p s e).getD s = s'
    rw [hs']
    rfl
  rw [hnext]
  unfold step at hs'
  split at hs'
  · cases hs'
  · cases e with
    | conn c a => exact .inl ⟨c, a, rfl, act_effect hs'⟩
    | main a => exact .inr ⟨a, rfl, mainAct_effect hs'⟩

/-! ### The invariant -/

/-- The socket of `c` has been closed, by the drain or by its thread. -/
def State.isClosed (s : State) (c : ℕ) : Prop := some c ∈ s.closes.map Prod.snd

/-- The thread has still to ask whether its socket was drained. -/
def Phase.undecided (q : Phase) : Bool := q.early || decide (q = .cleared)

/-- Sockets: who has one open, and that closes hit what they are meant for. -/
structure Sockets (s : State) : Prop where
  accepted : ∀ c, c ∈ s.accepted ↔ s.conns c ≠ .absent
  owner : ∀ h c, s.openBy h = some c → s.sock c = h ∧ s.conns c ≠ .absent ∧ ¬ s.isClosed c
  isOpen : ∀ c, s.conns c ≠ .absent → s.isClosed c ∨ s.openBy (s.sock c) = some c
  present : ∀ c, s.isClosed c → s.conns c ≠ .absent
  finished : ∀ c, s.conns c = .done → s.isClosed c
  records : ∀ r ∈ s.closes, ∃ c, r.2 = some c ∧ (r.1 = none ∨ r.1 = some c)
  once : (s.closes.map Prod.snd).Nodup

/-- The slot holds the socket of the one early thread, and the drain gets hold of it. -/
structure Slot (s : State) : Prop where
  one : ∀ c d, (s.conns c).early = true → (s.conns d).early = true → c = d
  held : ∀ c, (s.conns c).early = true → s.heldOpen = some (s.sock c)
  holder : ∀ h, s.heldOpen = some h → ∃ c, (s.conns c).early = true ∧ s.sock c = h
  loaded : ∀ o, s.main = .loaded o → ∀ c, (s.conns c).early = true → o = some (s.sock c)
  interrupted : (s.main = .waiting ∨ s.main = .returned ∨ ∃ h, s.main = .closed h) →
    ∀ c, (s.conns c).early = true → s.interrupted c = true

/-- A socket that the drain has closed is the one it publishes, and its thread has not decided
to close it. -/
structure Drain (p : Platform) (s : State) : Prop where
  before : (s.main = .accepting ∨ s.main = .draining ∨ ∃ o, s.main = .loaded o) →
    s.drained = none ∧ ∀ c, s.isClosed c → s.conns c = .done
  loaded : p = .windows → ∀ h, s.main = .loaded (some h) → ∃ c, s.sock c = h ∧ (s.conns c).undecided = true
  closing : ∀ h, s.main = .closed h → s.drained = none ∧ s.openBy h = none ∧ p = .windows
  free : ∀ h, s.drained = some h → s.openBy h = none
  orphan : ∀ c, s.isClosed c → s.conns c ≠ .done →
    ((s.conns c).undecided = true ∧ (s.main = .closed (s.sock c) ∨ s.drained = some (s.sock c))) ∨
      s.conns c = .releasing
  orphanOne : ∀ c d, s.isClosed c → s.conns c ≠ .done → s.isClosed d → s.conns d ≠ .done → c = d
  releasing : ∀ c, s.conns c = .releasing → s.isClosed c

theorem sockets_start : Sockets .start where
  accepted _ := ⟨fun h => absurd h List.not_mem_nil, fun h => absurd rfl h⟩
  owner _ _ h := nomatch h
  isOpen _ h := absurd rfl h
  present _ h := absurd h List.not_mem_nil
  finished _ h := nomatch h
  records _ h := absurd h List.not_mem_nil
  once := List.nodup_nil

theorem slot_start : Slot .start where
  one _ _ h := nomatch h
  held _ h := nomatch h
  holder _ h := nomatch h
  loaded _ h := nomatch h
  interrupted h := by
    rcases h with h | h | ⟨_, h⟩ <;> cases h

theorem drain_start : Drain p .start where
  before _ := ⟨rfl, fun _ h => absurd h List.not_mem_nil⟩
  loaded _ _ h := nomatch h
  closing _ h := nomatch h
  free _ h := nomatch h
  orphan _ h := absurd h List.not_mem_nil
  orphanOne _ _ h := absurd h List.not_mem_nil
  releasing _ h := nomatch h

section Moves

variable {q : Phase}

/-- A thread moves on and closes nothing. -/
theorem Sockets.move (h : Sockets s) (hconns : s'.conns = Function.update s.conns c q) (hc : s.conns c ≠ .absent)
    (hq : q ≠ .absent) (hdone : q = .done → s.isClosed c) (hacc : s'.accepted = s.accepted) (hsock : s'.sock = s.sock) (hopen : s'.openBy = s.openBy)
    (hcloses : s'.closes = s.closes) : Sockets s' := by
  have hclosed : ∀ d, s'.isClosed d ↔ s.isClosed d := fun d => by unfold State.isClosed; rw [hcloses]
  have habs : ∀ d, s'.conns d ≠ .absent ↔ s.conns d ≠ .absent := by
    intro d
    rw [hconns]
    by_cases hd : d = c
    · rw [hd, Function.update_self]
      exact ⟨fun _ => hc, fun _ => hq⟩
    · rw [Function.update_of_ne hd]
  refine ⟨fun d => ?_, fun k d hd => ?_, fun d hd => ?_, fun d hd => ?_, fun d hd => ?_, ?_, ?_⟩
  · rw [hacc, habs]
    exact h.accepted d
  · rw [hopen] at hd
    rw [hsock, habs, hclosed]
    exact h.owner k d hd
  · rw [hsock, hopen, hclosed]
    exact h.isOpen d ((habs d).1 hd)
  · exact (habs d).2 (h.present d ((hclosed d).1 hd))
  · rw [hclosed]
    rw [hconns] at hd
    by_cases hdc : d = c
    · rw [hdc, Function.update_self] at hd
      rw [hdc]
      exact hdone hd
    · rw [Function.update_of_ne hdc] at hd
      exact h.finished d hd
  · rw [hcloses]
    exact h.records
  · rw [hcloses]
    exact h.once

/-- A step after which the same threads are early. -/
theorem Slot.same (h : Slot s) (hearly : ∀ d, (s'.conns d).early = (s.conns d).early)
    (hheld : s'.heldOpen = s.heldOpen) (hsock : s'.sock = s.sock) (hmain : s'.main = s.main)
    (hint : s'.interrupted = s.interrupted) : Slot s' := by
  refine ⟨?_, ?_, ?_, ?_, ?_⟩
  · simp only [hearly]
    exact h.one
  · simp only [hearly, hheld, hsock]
    exact h.held
  · simp only [hearly, hheld, hsock]
    exact h.holder
  · simp only [hearly, hmain, hsock]
    exact h.loaded
  · simp only [hearly, hmain, hint]
    exact h.interrupted

theorem early_update {q : Phase} (hq : q.early = (s.conns c).early) (d : ℕ) :
    (Function.update s.conns c q d).early = (s.conns d).early := by
  by_cases hd : d = c
  · rw [hd, Function.update_self, hq]
  · rw [Function.update_of_ne hd]

/-- The early thread clears the slot. -/
theorem Slot.clear (h : Slot s) (hc : (s.conns c).early = true) (hq : q.early = false)
    (hconns : s'.conns = Function.update s.conns c q) (hheld : s'.heldOpen = none) : Slot s' := by
  have hnone : ∀ d, (s'.conns d).early ≠ true := by
    intro d hd
    rw [hconns] at hd
    by_cases hdc : d = c
    · rw [hdc, Function.update_self, hq] at hd
      cases hd
    · rw [Function.update_of_ne hdc] at hd
      exact hdc (h.one d c hd hc)
  refine ⟨?_, ?_, ?_, ?_, ?_⟩
  · exact fun d _ hd => absurd hd (hnone d)
  · exact fun d hd => absurd hd (hnone d)
  · rw [hheld]
    nofun
  · exact fun _ _ d hd => absurd hd (hnone d)
  · exact fun _ d hd => absurd hd (hnone d)

/-- A thread that has something to decide goes on and has still. -/
theorem Drain.move (h : Drain p s) (hc : (s.conns c).undecided = true) (hq : q.undecided = true)
    (hconns : s'.conns = Function.update s.conns c q) (hsock : s'.sock = s.sock) (hopen : s'.openBy = s.openBy)
    (hcloses : s'.closes = s.closes) (hdr : s'.drained = s.drained) (hmain : s'.main = s.main) : Drain p s' := by
  have hclosed : ∀ d, s'.isClosed d ↔ s.isClosed d := fun d => by unfold State.isClosed; rw [hcloses]
  -- neither place of the thread is one that the invariant names
  have hplace : ∀ r : Phase, r.undecided = false → ∀ d, s'.conns d = r ↔ s.conns d = r := by
    intro r hr d
    rw [hconns]
    by_cases hdc : d = c
    · rw [hdc, Function.update_self]
      constructor
      · rintro rfl
        rw [hq] at hr
        cases hr
      · intro heq
        rw [heq, hr] at hc
        cases hc
    · rw [Function.update_of_ne hdc]
  have hdone := hplace .done rfl
  have hrel := hplace .releasing rfl
  have hund : ∀ d, (s.conns d).undecided = true → (s'.conns d).undecided = true := by
    intro d hd
    rw [hconns]
    by_cases hdc : d = c
    · rw [hdc, Function.update_self]
      exact hq
    · rwa [Function.update_of_ne hdc]
  refine ⟨?_, ?_, ?_, ?_, ?_, ?_, ?_⟩
  · rw [hmain, hdr]
    intro hm
    obtain ⟨hnone, hall⟩ := h.before hm
    exact ⟨hnone, fun d hd => (hdone d).2 (hall d ((hclosed d).1 hd))⟩
  · rw [hmain, hsock]
    intro hp k hm
    obtain ⟨d, hdk, hd⟩ := h.loaded hp k hm
    exact ⟨d, hdk, hund d hd⟩
  · rw [hmain, hdr, hopen]
    exact h.closing
  · rw [hdr, hopen]
    exact h.free
  · intro d hd hne
    rw [hmain, hdr, hsock]
    rcases h.orphan d ((hclosed d).1 hd) (fun heq => hne ((hdone d).2 heq)) with ⟨hu, hor⟩ | hr
    · exact .inl ⟨hund d hu, hor⟩
    · exact .inr ((hrel d).2 hr)
  · intro d d' hd hne hd' hne'
    exact h.orphanOne d d' ((hclosed d).1 hd) (fun heq => hne ((hdone d).2 heq)) ((hclosed d').1 hd')
      fun heq => hne' ((hdone d').2 heq)
  · exact fun d hd => (hclosed d).2 (h.releasing d ((hrel d).1 hd))

/-- The thread asks whether its socket was drained, not while it is being drained. -/
theorem Drain.decide (h : Drain p s) (hs : Sockets s) (hc : s.conns c = .cleared)
    (hok : p = .windows → s.main ≠ .loaded (some (s.sock c)) ∧ s.main ≠ .closed (s.sock c))
    (hq : s.drained = some (s.sock c) ∧ q = .releasing ∨ s.drained ≠ some (s.sock c) ∧ q = .destroying) :
    Drain p (s.goto c q) := by
  have hother : ∀ {d}, d ≠ c → (s.goto c q).conns d = s.conns d := fun hd => Function.update_of_ne hd ..
  have hself : (s.goto c q).conns c = q := Function.update_self ..
  have hqd : q ≠ .done := by
    rcases hq with ⟨-, rfl⟩ | ⟨-, rfl⟩ <;> nofun
  have hcd : s.conns c ≠ .done := by
    rw [hc]
    nofun
  have hdone : ∀ d, (s.goto c q).conns d ≠ .done → s.conns d ≠ .done := by
    intro d hd
    by_cases hdc : d = c
    · rw [hdc]
      exact hcd
    · rwa [hother hdc] at hd
  -- the thread's socket was closed exactly if it finds it published
  have hclosed : s.isClosed c ↔ s.drained = some (s.sock c) := by
    constructor
    · intro hcl
      rcases h.orphan c hcl hcd with ⟨-, hm | hd⟩ | hr
      · exact absurd hm (hok (h.closing _ hm).2.2).2
      · exact hd
      · rw [hc] at hr
        cases hr
    · intro hd
      rcases hs.isOpen c (by rw [hc]; nofun) with hcl | hopen
      · exact hcl
      · rw [h.free _ hd] at hopen
        cases hopen
  refine ⟨fun hm => ⟨(h.before hm).1, fun d hd => ?_⟩, fun hp k hm => ?_, h.closing, h.free, fun d hd hne => ?_,
    fun d d' hd hne hd' hne' => ?_, fun d hd => ?_⟩
  · have hdn := (h.before hm).2 d hd
    by_cases hdc : d = c
    · rw [hdc] at hdn
      exact absurd hdn hcd
    · rwa [hother hdc]
  · obtain ⟨d, hdk, hd⟩ := h.loaded hp k hm
    refine ⟨d, hdk, ?_⟩
    by_cases hdc : d = c
    · rw [hdc] at hdk
      exact absurd (hdk ▸ hm) (hok hp).1
    · rwa [hother hdc]
  · by_cases hdc : d = c
    · subst hdc
      rcases hq with ⟨-, rfl⟩ | ⟨hnd, -⟩
      · exact .inr hself
      · exact absurd (hclosed.1 hd) hnd
    · rw [hother hdc]
      exact h.orphan d hd (hdone d hne)
  · exact h.orphanOne d d' hd (hdone d hne) hd' (hdone d' hne')
  · by_cases hdc : d = c
    · subst hdc
      rcases hq with ⟨hdr, -⟩ | ⟨-, rfl⟩
      · exact hclosed.2 hdr
      · rw [hself] at hd
        cases hd
    · rw [hother hdc] at hd
      exact h.releasing d hd

/-- The thread of a drained socket is gone. -/
theorem Drain.release (h : Drain p s) (hc : s.conns c = .releasing) : Drain p ({ s with drained := none }.goto c .done) := by
  have hcl := h.releasing c hc
  have hcd : s.conns c ≠ .done := by
    rw [hc]
    nofun
  have hother : ∀ {d}, d ≠ c → ({ s with drained := none }.goto c .done).conns d = s.conns d :=
    fun hd => Function.update_of_ne hd ..
  have hself : ({ s with drained := none }.goto c .done).conns c = .done := Function.update_self ..
  -- it was the only one
  have hall : ∀ d, s.isClosed d → ({ s with drained := none }.goto c .done).conns d = .done := by
    intro d hd
    by_cases hdc : d = c
    · rw [hdc]
      exact hself
    · rw [hother hdc]
      by_contra hne
      exact hdc (h.orphanOne d c hd hne hcl hcd)
  refine ⟨fun _ => ⟨rfl, hall⟩, fun hp k hm => ?_, fun k hm => ?_, nofun, fun d hd hne => absurd (hall d hd) hne,
    fun d _ hd hne => absurd (hall d hd) hne, fun d hd => ?_⟩
  · obtain ⟨d, hdk, hd⟩ := h.loaded hp k hm
    refine ⟨d, hdk, ?_⟩
    by_cases hdc : d = c
    · rw [hdc, hc] at hd
      cases hd
    · rwa [hother hdc]
  · exact ⟨rfl, (h.closing k hm).2⟩
  · by_cases hdc : d = c
    · rw [hdc, hself] at hd
      cases hd
    · rw [hother hdc] at hd
      exact h.releasing d hd

/-! ### A new connection -/

theorem Sockets.accept {k : ℕ} (h : Sockets s) (hc : s.conns c = .absent) (hk : s.openBy k = none)
    (hconns : s'.conns = Function.update s.conns c .running) (hacc : s'.accepted = s.accepted ++ [c])
    (hsock : s'.sock = Function.update s.sock c k) (hopen : s'.openBy = Function.update s.openBy k (some c))
    (hcloses : s'.closes = s.closes) : Sockets s' := by
  have hclosed : ∀ d, s'.isClosed d ↔ s.isClosed d := fun d => by unfold State.isClosed; rw [hcloses]
  have hself : s'.conns c = .running := by
    rw [hconns, Function.update_self]
  have hother : ∀ {d}, d ≠ c → s'.conns d = s.conns d := fun hd => by rw [hconns, Function.update_of_ne hd]
  refine ⟨fun d => ?_, fun k' d hod => ?_, fun d hda => ?_, fun d hcd => ?_, fun d hdd => ?_, ?_, ?_⟩
  · rw [hacc, List.mem_append, List.mem_singleton]
    by_cases hdc : d = c
    · rw [hdc, hself]
      exact ⟨fun _ => nofun, fun _ => .inr rfl⟩
    · rw [hother hdc, h.accepted]
      exact ⟨fun hor => hor.resolve_right hdc, .inl⟩
  · rw [hopen] at hod
    by_cases hkk : k' = k
    · rw [hkk, Function.update_self] at hod
      cases hod
      rw [hsock, Function.update_self, hself, hclosed]
      exact ⟨hkk.symm, nofun, fun hcl => h.present c hcl hc⟩
    · rw [Function.update_of_ne hkk] at hod
      obtain ⟨h1, h2, h3⟩ := h.owner k' d hod
      have hdc : d ≠ c := by
        rintro rfl
        exact h2 hc
      rw [hsock, Function.update_of_ne hdc, hother hdc, hclosed]
      exact ⟨h1, h2, h3⟩
  · rw [hclosed, hopen, hsock]
    by_cases hdc : d = c
    · right
      rw [hdc, Function.update_self, Function.update_self]
    · rw [hother hdc] at hda
      rw [Function.update_of_ne hdc]
      refine (h.isOpen d hda).imp_right fun hod => ?_
      -- the new handle was free
      have hne : s.sock d ≠ k := by
        intro heq
        rw [heq, hk] at hod
        cases hod
      rwa [Function.update_of_ne hne]
  · by_cases hdc : d = c
    · rw [hdc, hself]
      nofun
    · rw [hother hdc]
      exact h.present d ((hclosed d).1 hcd)
  · by_cases hdc : d = c
    · rw [hdc, hself] at hdd
      cases hdd
    · rw [hother hdc] at hdd
      exact (hclosed d).2 (h.finished d hdd)
  · rw [hcloses]
    exact h.records
  · rw [hcloses]
    exact h.once

/-- The slot holds the socket of the new thread. -/
theorem Slot.accept {k : ℕ} (hlate : ∀ d, (s.conns d).early = false) (hm : s.main = .accepting)
    (hconns : s'.conns = Function.update s.conns c .running) (hsock : s'.sock = Function.update s.sock c k)
    (hheld : s'.heldOpen = some k) (hmain : s'.main = s.main) : Slot s' := by
  have honly : ∀ d, (s'.conns d).early = true → d = c := by
    intro d hde
    by_contra hdc
    rw [hconns, Function.update_of_ne hdc, hlate d] at hde
    cases hde
  rw [hm] at hmain
  refine ⟨fun d d' hde hde' => ?_, fun d hde => ?_, fun k' hk' => ?_, fun o ho => ?_, fun ho => ?_⟩
  · rw [honly d hde, honly d' hde']
  · rw [hheld, hsock, honly d hde, Function.update_self]
  · refine ⟨c, ?_, ?_⟩
    · rw [hconns, Function.update_self]
      rfl
    · rw [hsock, Function.update_self]
      exact Option.some.inj (hheld.symm.trans hk')
  · exact nomatch hmain.symm.trans ho
  · rcases ho with ho | ho | ⟨_, ho⟩
    · exact nomatch hmain.symm.trans ho
    · exact nomatch hmain.symm.trans ho
    · exact nomatch hmain.symm.trans ho

/-- While connections are accepted nothing is drained. -/
theorem Drain.accept (h : Drain p s) (hs : Sockets s) (hm : s.main = .accepting) (hc : s.conns c = .absent)
    (hconns : s'.conns = Function.update s.conns c .running) (hcloses : s'.closes = s.closes)
    (hdr : s'.drained = s.drained) (hmain : s'.main = s.main) : Drain p s' := by
  have hclosed : ∀ d, s'.isClosed d ↔ s.isClosed d := fun d => by unfold State.isClosed; rw [hcloses]
  obtain ⟨hnone, hall⟩ := h.before (.inl hm)
  -- whoever is closed was done before
  have hdone : ∀ d, s'.isClosed d → s'.conns d = .done := by
    intro d hcd
    have hdc : d ≠ c := by
      rintro rfl
      exact hs.present d ((hclosed d).1 hcd) hc
    rw [hconns, Function.update_of_ne hdc]
    exact hall d ((hclosed d).1 hcd)
  rw [hm] at hmain
  rw [hnone] at hdr
  refine ⟨fun _ => ⟨hdr, hdone⟩, fun _ _ ho => ?_, fun _ ho => ?_, fun _ ho => ?_, fun d hcd hne => ?_,
    fun d _ hcd hne => ?_, fun d hdr => ?_⟩
  · exact nomatch hmain.symm.trans ho
  · exact nomatch hmain.symm.trans ho
  · exact nomatch hdr.symm.trans ho
  · exact absurd (hdone d hcd) hne
  · exact absurd (hdone d hcd) hne
  · by_cases hdc : d = c
    · rw [hdc, hconns, Function.update_self] at hdr
      cases hdr
    · rw [hconns, Function.update_of_ne hdc] at hdr
      exact (hclosed d).2 (h.releasing d hdr)

/-! ### Closing a handle -/

theorem isClosed_closeHandle {o : Option ℕ} {k : ℕ} (ho : s.openBy k = some c) (d : ℕ) :
    (s.closeHandle o k).isClosed d ↔ s.isClosed d ∨ d = c := by
  unfold State.isClosed State.closeHandle
  rw [ho]
  simp only [List.map_append, List.map_cons, List.map_nil, List.mem_append, List.mem_singleton, Option.some.injEq]

/-- A close hits the one socket that is open under the handle. -/
theorem Sockets.close (h : Sockets s) {o : Option ℕ} {k : ℕ} (ho : s.openBy k = some c) (hby : o = none ∨ o = some c) :
    Sockets (s.closeHandle o k) := by
  obtain ⟨hsock, hpres, hopen⟩ := h.owner k c ho
  have hcl := isClosed_closeHandle (s := s) (o := o) ho
  refine ⟨h.accepted, fun k' d hd => ?_, fun d hd => ?_, fun d hd => ?_, fun d hd => ?_, fun r hr => ?_, ?_⟩
  · change Function.update s.openBy k none k' = some d at hd
    by_cases hk : k' = k
    · rw [hk, Function.update_self] at hd
      cases hd
    · rw [Function.update_of_ne hk] at hd
      obtain ⟨h1, h2, h3⟩ := h.owner k' d hd
      refine ⟨h1, h2, fun hcd => ?_⟩
      rcases (hcl d).1 hcd with hcd | rfl
      · exact h3 hcd
      · exact hk (h1.symm.trans hsock)
  · rw [hcl]
    by_cases hdc : d = c
    · exact .inl (.inr hdc)
    · rcases h.isOpen d hd with hcd | hod
      · exact .inl (.inl hcd)
      · right
        show Function.update s.openBy k none (s.sock d) = some d
        have hk : s.sock d ≠ k := by
          intro heq
          rw [heq, ho] at hod
          exact hdc (Option.some.inj hod).symm
        rw [Function.update_of_ne hk]
        exact hod
  · rcases (hcl d).1 hd with hcd | rfl
    · exact h.present d hcd
    · exact hpres
  · exact (hcl d).2 (.inl (h.finished d hd))
  · rcases List.mem_append.1 hr with hr | hr
    · exact h.records r hr
    · rw [List.mem_singleton.1 hr]
      exact ⟨c, ho, hby⟩
  · show ((s.closes ++ [(o, s.openBy k)]).map Prod.snd).Nodup
    rw [List.map_append, List.map_singleton, ho]
    refine List.nodup_append.2 ⟨h.once, List.pairwise_singleton _ _, ?_⟩
    rintro a ha b hb rfl
    rw [List.mem_singleton.1 hb] at ha
    exact hopen ha

/-- A thread that has decided to close its socket has it open. -/
theorem Drain.owns (h : Drain p s) (hs : Sockets s) (hc : s.conns c = .destroying) :
    s.openBy (s.sock c) = some c := by
  refine (hs.isOpen c (by rw [hc]; nofun)).resolve_left fun hcl => ?_
  rcases h.orphan c hcl (by rw [hc]; nofun) with ⟨hu, -⟩ | hr
  · rw [hc] at hu
    cases hu
  · rw [hc] at hr
    cases hr

theorem Drain.destroy (h : Drain p s) (hs : Sockets s) (hc : s.conns c = .destroying) :
    Drain p ((s.closeHandle (some c) (s.sock c)).goto c .done) := by
  have hcl := isClosed_closeHandle (s := s) (o := some c) (h.owns hs hc)
  have hother : ∀ {d}, d ≠ c → ((s.closeHandle (some c) (s.sock c)).goto c .done).conns d = s.conns d :=
    fun hd => Function.update_of_ne hd ..
  have hself : ((s.closeHandle (some c) (s.sock c)).goto c .done).conns c = .done := Function.update_self ..
  have hfree : ∀ k, s.openBy k = none → Function.update s.openBy (s.sock c) none k = none := by
    intro k hk
    by_cases hkc : k = s.sock c
    · rw [hkc, Function.update_self]
    · rw [Function.update_of_ne hkc, hk]
  -- whoever is closed and not gone was so before
  have hback : ∀ d, ((s.closeHandle (some c) (s.sock c)).goto c .done).isClosed d →
      ((s.closeHandle (some c) (s.sock c)).goto c .done).conns d ≠ .done → d ≠ c ∧ s.isClosed d ∧ s.conns d ≠ .done := by
    intro d hd hne
    have hdc : d ≠ c := by
      rintro rfl
      exact hne hself
    rw [hother hdc] at hne
    exact ⟨hdc, ((hcl d).1 hd).resolve_right hdc, hne⟩
  refine ⟨fun hm => ⟨(h.before hm).1, fun d hd => ?_⟩, fun hp k hm => ?_, fun k hm => ?_, fun k hk => ?_,
    fun d hd hne => ?_, fun d d' hd hne hd' hne' => ?_, fun d hd => ?_⟩
  · by_contra hne
    obtain ⟨-, hd', hne'⟩ := hback d hd hne
    exact hne' ((h.before hm).2 d hd')
  · obtain ⟨d, hdk, hd⟩ := h.loaded hp k hm
    refine ⟨d, hdk, ?_⟩
    by_cases hdc : d = c
    · rw [hdc, hc] at hd
      cases hd
    · rwa [hother hdc]
  · obtain ⟨h1, h2, h3⟩ := h.closing k hm
    exact ⟨h1, hfree k h2, h3⟩
  · exact hfree k (h.free k hk)
  · obtain ⟨hdc, hd', hne'⟩ := hback d hd hne
    rw [hother hdc]
    exact h.orphan d hd' hne'
  · obtain ⟨-, h1, h2⟩ := hback d hd hne
    obtain ⟨-, h3, h4⟩ := hback d' hd' hne'
    exact h.orphanOne d d' h1 h2 h3 h4
  · by_cases hdc : d = c
    · rw [hdc, hself] at hd
      cases hd
    · rw [hother hdc] at hd
      exact (hcl d).2 (.inl (h.releasing d hd))

end Moves

/-! ### Runs -/

structure Inv (p : Platform) (s : State) : Prop where
  sockets : Sockets s
  slot : Slot s
  drain : Drain p s

/-- An early thread goes on. -/
theorem Inv.early {q : Phase} (h : Inv p s) (hc : (s.conns c).early = true) (hq : q.early = true) {n : ℕ} :
    Inv p ({ s with inFlight := n }.goto c q) := by
  obtain ⟨hs, hl, hd⟩ := h
  have hund : ∀ {r : Phase}, r.early = true → r.undecided = true := by
    intro r hr
    unfold Phase.undecided
    rw [hr]
    rfl
  have habs : ∀ {r : Phase}, r.early = true → r ≠ .absent := by
    rintro r hr rfl
    cases hr
  have hdone : q = .done → s.isClosed c := by
    rintro rfl
    cases hq
  exact ⟨hs.move rfl (habs hc) (habs hq) hdone rfl rfl rfl rfl, hl.same (early_update (hq.trans hc.symm)) rfl rfl rfl rfl,
    hd.move (hund hc) (hund hq) rfl rfl rfl rfl rfl rfl⟩

/-- **A step of a thread.** -/
theorem Inv.effect {a : Act} (h : Inv p s) (hok : Alone p s (.conn c a)) (he : Effect s c a s') : Inv p s' := by
  obtain ⟨hs, hl, hd⟩ := id h
  have habs : ∀ {q : Phase}, s.conns c = q → q ≠ .absent → s.conns c ≠ .absent := fun hq hne => hq ▸ hne
  cases he with
  | recv hq => exact h.early (by rw [hq]; rfl) rfl
  | wake hq => exact h.early (by rw [hq]; rfl) rfl
  | leave hq => exact h.early (by rw [hq]; rfl) rfl
  | slotMine hq => exact h.early (by rw [hq]; rfl) rfl
  | slotOther hq hno => exact absurd (hl.held c (by rw [hq]; rfl)) hno
  | storeSlot hq =>
    refine ⟨hs.move rfl (habs hq nofun) nofun nofun rfl rfl rfl rfl, hl.clear (by rw [hq]; rfl) rfl rfl rfl, ?_⟩
    exact hd.move (by rw [hq]; rfl) rfl rfl rfl rfl rfl rfl rfl
  | drainedMine hq hdr =>
    refine ⟨hs.move rfl (habs hq nofun) nofun nofun rfl rfl rfl rfl, ?_, hd.decide hs hq hok (.inl ⟨hdr, rfl⟩)⟩
    exact hl.same (early_update (by rw [hq]; rfl)) rfl rfl rfl rfl
  | drainedOther hq hdr =>
    refine ⟨hs.move rfl (habs hq nofun) nofun nofun rfl rfl rfl rfl, ?_, hd.decide hs hq hok (.inr ⟨hdr, rfl⟩)⟩
    exact hl.same (early_update (by rw [hq]; rfl)) rfl rfl rfl rfl
  | release hq =>
    refine ⟨hs.move rfl (habs hq nofun) nofun (fun _ => hd.releasing c hq) rfl rfl rfl rfl, ?_, hd.release hq⟩
    exact hl.same (early_update (by rw [hq]; rfl)) rfl rfl rfl rfl
  | destroy hq =>
    have hown := hd.owns hs hq
    have hearly : Phase.done.early = (s.conns c).early := by rw [hq]; rfl
    refine ⟨?_, hl.same (early_update hearly) rfl rfl rfl rfl, hd.destroy hs hq⟩
    refine (hs.close hown (.inr rfl)).move rfl (habs hq nofun) nofun (fun _ => ?_) rfl rfl rfl rfl
    exact (isClosed_closeHandle hown c).2 (.inr rfl)

/-- A connection is accepted when no other thread is early. -/
theorem Inv.accept {k : ℕ} (h : Inv p s) (hm : s.main = .accepting) (hc : s.conns c = .absent) (hk : s.openBy k = none)
    (hok : ∀ d ∈ s.accepted, (s.conns d).early = false) :
    Inv p ({ s with
      sock := Function.update s.sock c k
      openBy := Function.update s.openBy k (some c)
      heldOpen := some k
      inFlight := s.inFlight + 1
      accepted := s.accepted ++ [c] }.goto c .running) := by
  obtain ⟨hs, hl, hd⟩ := h
  -- the new thread is the only early one
  have hlate : ∀ d, (s.conns d).early = false := by
    intro d
    by_cases habs : s.conns d = .absent
    · rw [habs]
      rfl
    · exact hok d ((hs.accepted d).2 habs)
  exact ⟨hs.accept hc hk rfl rfl rfl rfl rfl, .accept hlate hm rfl rfl rfl rfl, hd.accept hs hm hc rfl rfl rfl rfl⟩

theorem interrupt_of {k : ℕ} (ho : s.openBy k = some c) :
    s.interrupt k = { s with interrupted := Function.update s.interrupted c true } := by
  unfold State.interrupt
  rw [ho]

/-- The owner of the loaded socket, if there is an early thread, is that thread. -/
theorem Inv.loadedOwner {k : ℕ} (h : Inv p s) (hm : s.main = .loaded (some k)) {d : ℕ}
    (hd : (s.conns d).early = true) : s.openBy k = some d := by
  have hsock := h.slot.loaded _ hm d hd
  have habs : s.conns d ≠ .absent := by
    intro habs
    rw [habs] at hd
    cases hd
  rcases h.sockets.isOpen d habs with hcl | hod
  · rw [(h.drain.before (.inr (.inr ⟨_, hm⟩))).2 d hcl] at hd
    cases hd
  · rwa [Option.some.inj hsock]

/-- Windows: the drain closes the socket that it has loaded. -/
theorem Inv.close {k : ℕ} (h : Inv p s) (hm : s.main = .loaded (some k)) (hp : p = .windows) :
    Inv p { (s.interrupt k).closeHandle none k with main := .closed k } := by
  obtain ⟨c, hck, hund⟩ := h.drain.loaded hp k hm
  obtain ⟨hnone, hall⟩ := h.drain.before (.inr (.inr ⟨_, hm⟩))
  have hown : s.openBy k = some c := by
    have habs : s.conns c ≠ .absent := by
      intro habs
      rw [habs] at hund
      cases hund
    rcases h.sockets.isOpen c habs with hcl | hod
    · rw [hall c hcl] at hund
      cases hund
    · rwa [hck] at hod
  rw [interrupt_of hown]
  have hcl := isClosed_closeHandle (s := s) (o := none) hown
  have hdone : ∀ d, (s.closeHandle none k).isClosed d → s.conns d ≠ .done → d = c := by
    intro d hcd hne
    rcases (hcl d).1 hcd with hcd | hdc
    · exact absurd (hall d hcd) hne
    · exact hdc
  obtain ⟨h1, h2, h3, h4, h5, h6, h7⟩ := h.sockets.close (o := none) hown (.inl rfl)
  refine ⟨⟨h1, h2, h3, h4, h5, h6, h7⟩, ⟨h.slot.one, h.slot.held, h.slot.holder, nofun, fun _ d hd => ?_⟩,
    ⟨?_, nofun, fun k' hk' => ?_, fun k' hk' => ?_, fun d hcd hne => ?_, fun d d' hcd hne hcd' hne' => ?_,
      fun d hd => ?_⟩⟩
  · have hdc : d = c := Option.some.inj ((h.loadedOwner hm hd).symm.trans hown)
    show Function.update s.interrupted c true d = true
    rw [hdc, Function.update_self]
  · rintro (ho | ho | ⟨_, ho⟩) <;> cases ho
  · cases hk'
    exact ⟨hnone, Function.update_self .., hp⟩
  · exact nomatch hnone.symm.trans hk'
  · have hdc := hdone d hcd hne
    subst hdc
    exact .inl ⟨hund, .inl (congrArg Main.closed hck.symm)⟩
  · rw [hdone d hcd hne, hdone d' hcd' hne']
  · exact (hcl d).2 (.inl (h.drain.releasing d hd))

theorem interrupt_eq (s : State) (k : ℕ) : s.interrupt k = { s with interrupted := (s.interrupt k).interrupted } := by
  unfold State.interrupt
  split <;> rfl

/-- Elsewhere it is shut down. -/
theorem Inv.shutdown {k : ℕ} (h : Inv p s) (hm : s.main = .loaded (some k)) :
    Inv p { s.interrupt k with main := .waiting } := by
  obtain ⟨hnone, hall⟩ := h.drain.before (.inr (.inr ⟨_, hm⟩))
  have hint : { s.interrupt k with main := .waiting } =
      { s with main := .waiting, interrupted := (s.interrupt k).interrupted } := by
    rw [interrupt_eq s k]
  rw [hint]
  obtain ⟨h1, h2, h3, h4, h5, h6, h7⟩ := h.sockets
  refine ⟨⟨h1, h2, h3, h4, h5, h6, h7⟩, ⟨h.slot.one, h.slot.held, h.slot.holder, nofun, fun _ d hd => ?_⟩,
    ⟨?_, nofun, nofun, h.drain.free, fun d hcd hne => absurd (hall d hcd) hne, fun d _ hcd hne => absurd (hall d hcd) hne,
      h.drain.releasing⟩⟩
  · show (s.interrupt k).interrupted d = true
    rw [interrupt_of (h.loadedOwner hm hd)]
    exact Function.update_self ..
  · rintro (ho | ho | ⟨_, ho⟩) <;> cases ho

/-- **A step of the main thread.** -/
theorem Inv.mainEffect {a : MainAct} (h : Inv p s) (hok : Alone p s (.main a)) (he : MainEffect p s a s') : Inv p s' := by
  obtain ⟨h1, h2, h3, h4, h5, h6, h7⟩ := h.sockets
  have hs := h.slot
  have hd := h.drain
  cases he with
  | accept hm hc hk => exact h.accept hm hc hk hok
  | timeout hm =>
    refine ⟨⟨h1, h2, h3, h4, h5, h6, h7⟩, ⟨hs.one, hs.held, hs.holder, nofun, ?_⟩,
      ⟨fun _ => hd.before (.inl hm), nofun, nofun, hd.free, fun d hcd hne => ?_, hd.orphanOne, hd.releasing⟩⟩
    · rintro (ho | ho | ⟨_, ho⟩) <;> cases ho
    · exact absurd ((hd.before (.inl hm)).2 d hcd) hne
  | load hm =>
    refine ⟨⟨h1, h2, h3, h4, h5, h6, h7⟩, ⟨hs.one, hs.held, hs.holder, fun o ho d hde => ?_, ?_⟩,
      ⟨fun _ => hd.before (.inr (.inl hm)), fun _ k hk => ?_, nofun, hd.free, fun d hcd hne => ?_, hd.orphanOne,
        hd.releasing⟩⟩
    · cases ho
      exact hs.held d hde
    · rintro (ho | ho | ⟨_, ho⟩) <;> cases ho
    · obtain ⟨d, hde, hdk⟩ := hs.holder k (Main.loaded.inj hk)
      refine ⟨d, hdk, ?_⟩
      show (s.conns d).undecided = true
      unfold Phase.undecided
      rw [hde]
      rfl
    · exact absurd ((hd.before (.inr (.inl hm))).2 d hcd) hne
  | skip hm =>
    refine ⟨⟨h1, h2, h3, h4, h5, h6, h7⟩, ⟨hs.one, hs.held, hs.holder, nofun, fun _ d hde => ?_⟩,
      ⟨?_, nofun, nofun, hd.free, fun d hcd hne => ?_, hd.orphanOne, hd.releasing⟩⟩
    · exact nomatch hs.loaded _ hm d hde
    · rintro (ho | ho | ⟨_, ho⟩) <;> cases ho
    · exact absurd ((hd.before (.inr (.inr ⟨_, hm⟩))).2 d hcd) hne
  | close hm hp => exact h.close hm hp
  | shutdown hm => exact h.shutdown hm
  | @publish k hm =>
    obtain ⟨hnone, hfree, -⟩ := hd.closing k hm
    refine ⟨⟨h1, h2, h3, h4, h5, h6, h7⟩,
      ⟨hs.one, hs.held, hs.holder, nofun, fun _ => hs.interrupted (.inr (.inr ⟨k, hm⟩))⟩,
      ⟨?_, nofun, nofun, fun k' hk' => ?_, fun d hcd hne => ?_, hd.orphanOne, hd.releasing⟩⟩
    · rintro (ho | ho | ⟨_, ho⟩) <;> cases ho
    · cases hk'
      exact hfree
    · -- the thread whose socket was closed finds it published
      rcases hd.orphan d hcd hne with ⟨hu, ho | ho⟩ | hr
      · have hdk : s.sock d = k := (Main.closed.inj (ho.symm.trans hm))
        exact .inl ⟨hu, .inr (congrArg some hdk.symm)⟩
      · exact nomatch hnone.symm.trans ho
      · exact .inr hr
  | ret hm =>
    refine ⟨⟨h1, h2, h3, h4, h5, h6, h7⟩, ⟨hs.one, hs.held, hs.holder, nofun, fun _ => hs.interrupted (.inl hm)⟩,
      ⟨?_, nofun, nofun, hd.free, fun d hcd hne => ?_, hd.orphanOne, hd.releasing⟩⟩
    · rintro (ho | ho | ⟨_, ho⟩) <;> cases ho
    · refine (hd.orphan d hcd hne).imp_left fun hor => ⟨hor.1, hor.2.imp_left fun ho => ?_⟩
      exact nomatch hm.symm.trans ho

theorem reach_inv (h : (machine p).Reach (Alone p) s) : Inv p s := by
  induction h with
  | init => exact ⟨sockets_start, slot_start, drain_start⟩
  | step _ hc hok ih =>
    rcases step_cases hc with ⟨c, a, rfl, he⟩ | ⟨a, rfl, he⟩
    · exact ih.effect hok he
    · exact ih.mainEffect hok he

/-! ### The teardown -/

/-- After the timeout every blocked handshake is interrupted; every close hits the socket that
it is meant for, no socket is closed twice, and a thread that is gone has its socket closed. -/
def TornDown (s : State) : Prop :=
  ((s.main = .waiting ∨ s.main = .returned) → ∀ c, s.conns c = .blocked → s.interrupted c = true) ∧
    (∀ r ∈ s.closes, ∃ c, r.2 = some c ∧ (r.1 = none ∨ r.1 = some c)) ∧
    (s.closes.map Prod.snd).Nodup ∧
    ∀ c, s.conns c = .done → some c ∈ s.closes.map Prod.snd

/-- **The teardown closes every socket once**, in runs in which the handshakes come one after
the other and the drained socket's thread waits for its publication. -/
theorem teardown_closes_once (hs : (machine p).Reach (Alone p) s) : TornDown s := by
  obtain ⟨hsock, hslot, -⟩ := reach_inv hs
  refine ⟨fun hm c hc => ?_, hsock.records, hsock.once, hsock.finished⟩
  refine hslot.interrupted ?_ c (by rw [hc]; rfl)
  rcases hm with hm | hm
  · exact .inl hm
  · exact .inr (.inl hm)

/-- One silent connection, and a drain that its thread sees in time. -/
def silent : List Event :=
  [.main (.accept 0 5), .conn 0 .recv, .main (.timeout true), .main .load, .main .interrupt, .main .publish,
    .conn 0 .wake, .conn 0 .leave, .conn 0 .loadSlot, .conn 0 .storeSlot, .conn 0 .loadDrained, .conn 0 .release]

theorem teardown_of_silent :
    ((machine .windows).run .start silent).closes = [(none, some 0)] ∧ TornDown ((machine .windows).run .start silent) :=
  ⟨by decide, teardown_closes_once (p := .windows) (Machine.reach_run (by decide))⟩

/-- Two silent connections: the slot remembers the second. -/
def twoSilent : List Event :=
  [.main (.accept 0 5), .conn 0 .recv, .main (.accept 1 6), .conn 1 .recv, .main (.timeout true), .main .load,
    .main .interrupt]

/-- The thread asks for the drained socket after the close and before it is published. -/
def askedEarly : List Event :=
  [.main (.accept 0 5), .conn 0 .recv, .main (.timeout true), .main .load, .main .interrupt, .conn 0 .wake,
    .conn 0 .leave, .conn 0 .loadSlot, .conn 0 .storeSlot, .conn 0 .loadDrained, .conn 0 .destroy]

/-- A blocked handshake is not interrupted; a handle is closed twice. -/
theorem teardown_misses :
    (∃ s, (machine .posix).Reach (fun _ _ => True) s ∧ s.main = .waiting ∧ s.conns 0 = .blocked ∧
        s.interrupted 0 = false ∧ ¬ TornDown s) ∧
      ∃ s, (machine .windows).Reach (fun _ _ => True) s ∧ s.closes = [(none, some 0), (some 0, none)] ∧ ¬ TornDown s := by
  refine ⟨⟨(machine .posix).run .start twoSilent, Machine.reach_run (by decide), by decide, by decide, by decide, ?_⟩,
    ⟨(machine .windows).run .start askedEarly, Machine.reach_run (by decide), by decide, ?_⟩⟩
  · intro h
    have hint := h.1 (.inl (by decide)) 0 (by decide)
    exact absurd hint (by decide)
  · intro h
    obtain ⟨c, hc, -⟩ := h.2.1 (some 0, none) (by decide)
    cases hc

end FastClone.Teardown
