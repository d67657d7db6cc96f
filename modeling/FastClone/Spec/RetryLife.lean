import Mathlib.Logic.Relation
import Mathlib.Data.Nat.Notation

/-!
# The transfer attempts of one file

What the client does to a single file as far as its attempts go, without queues, lanes and
streams: the file is inside (compared, hashed, or managed as ranges), it is queued, it is away
on an attempt, and the attempt is retried, settled or lost. `Bounded` holds along all moves,
`InOrder` along orderly ones.
-/

namespace FastClone.RetryLife

/-- How often a file is inside, queued and away, its retry count, how often it was counted
transferred or failed, and how often it was opened. A file is `loose` if the delta stage asked
for its signatures, and neither has it nor gave it up. -/
@[ext]
structure Course where
  inside : ℕ
  queued : ℕ
  away : ℕ
  retries : ℕ
  resolved : ℕ
  opens : ℕ
  scheduled : Bool
  known : Bool
  loose : Bool

/-- Inside `n` times more. -/
def Course.addInside (v : Course) (n : ℕ) : Course := { v with inside := v.inside + n }

/-- Away `n` times more. -/
def Course.addAway (v : Course) (n : ℕ) : Course := { v with away := v.away + n }

/-- Queued for its first attempt. -/
def Course.schedule (v : Course) : Course :=
  { v with
    scheduled := true
    queued := v.queued + 1 }

/-- Counted transferred or failed. -/
def Course.resolve (v : Course) : Course :=
  { v with
    retries := 0
    resolved := v.resolved + 1 }

theorem Course.addAway_addAway (v : Course) (m n : ℕ) :
    (v.addAway m).addAway n = v.addAway (m + n) := by
  simp [addAway, Nat.add_assoc]

theorem Course.addAway_inj {v w : Course} {n : ℕ} (h : v.addAway n = w.addAway n) : v = w := by
  rw [Course.ext_iff] at h
  obtain ⟨h1, h2, h3, h4, h5, h6, h7, h8, h9⟩ := h
  exact Course.ext h1 h2 (Nat.add_right_cancel h3) h4 h5 h6 h7 h8 h9

variable {limit : ℕ} {orderly : Bool}

/-- The moves of a file, with at most `limit` retries in a row. In an orderly life a file is listed
once, and is scheduled from outside only if it is loose or was counted before. -/
inductive Move (limit : ℕ) (orderly : Bool) : Course → Course → Prop where
  | listed (v : Course) : (orderly = true → v.known = false) →
      Move limit orderly v { v.addInside 1 with known := true }
  | left (v : Course) : Move limit orderly (v.addInside 1) v
  | scheduled (v : Course) : v.scheduled = false → Move limit orderly (v.addInside 1) v.schedule
  | late (v : Course) : (orderly = true → v.loose = true ∨ 0 < v.resolved) → v.scheduled = false →
      Move limit orderly v v.schedule
  | opened (v : Course) :
      Move limit orderly { v with queued := v.queued + 1 } { v.addAway 1 with opens := v.opens + 1 }
  | retried (v : Course) : v.retries < limit →
      Move limit orderly (v.addAway 1)
        { v with
          queued := v.queued + 1
          retries := v.retries + 1 }
  | settled (v : Course) : Move limit orderly (v.addAway 1) v.resolve
  | lost (v : Course) : Move limit orderly (v.addAway 1) v
  | finished (v : Course) (loose : Bool) :
      Move limit orderly (v.addInside 1) { v.resolve with loose := loose }
  | tightened (v : Course) : Move limit orderly v { v with loose := false }

/-- Any number of moves. -/
abbrev Moves (limit : ℕ) (orderly : Bool) : Course → Course → Prop :=
  Relation.ReflTransGen (Move limit orderly)

theorem Course.addAway_comm (v : Course) (n : ℕ) :
    (v.addAway 1).addAway n = (v.addAway n).addAway 1 := by
  rw [addAway_addAway, addAway_addAway, Nat.add_comm]

/-- A file that is away once more moves as before. -/
theorem Moves.addAway {v w : Course} (h : Moves limit orderly v w) (n : ℕ) :
    Moves limit orderly (v.addAway n) (w.addAway n) := by
  have one {v w : Course} (hm : Move limit orderly v w) :
      Move limit orderly (v.addAway n) (w.addAway n) := by
    cases hm with
    | listed v hk => exact .listed (v.addAway n) hk
    | left _ => exact .left (w.addAway n)
    | scheduled v hs => exact .scheduled (v.addAway n) hs
    | late v hl hs => exact .late (v.addAway n) hl hs
    | opened v =>
      have hm : Move limit orderly _ _ := .opened (v.addAway n)
      have hw : { v.addAway 1 with opens := v.opens + 1 }.addAway n =
          { (v.addAway n).addAway 1 with opens := v.opens + 1 } := by
        rw [← Course.addAway_comm]
        rfl
      exact hw ▸ hm
    | retried v hlt => exact v.addAway_comm n ▸ .retried (v.addAway n) hlt
    | settled v => exact v.addAway_comm n ▸ .settled (v.addAway n)
    | lost _ => exact w.addAway_comm n ▸ .lost (w.addAway n)
    | finished v loose => exact .finished (v.addAway n) loose
    | tightened v => exact .tightened (v.addAway n)
  induction h with
  | refl => exact .refl
  | tail _ hm ih => exact .tail ih (one hm)

/-- Attempts may be lost. -/
theorem Moves.lose (v : Course) (n : ℕ) : Moves limit orderly (v.addAway n) v := by
  induction n with
  | zero => exact .refl
  | succ n ih =>
    rw [← Course.addAway_addAway]
    exact .head (.lost (v.addAway n)) ih

/-- A file that is queued `n` times more is opened as often. -/
theorem Moves.open (v : Course) (n : ℕ) :
    Moves limit orderly { v with queued := v.queued + n }
      { v.addAway n with opens := v.opens + n } := by
  induction n generalizing v with
  | zero => exact .refl
  | succ n ih =>
    have hopen : Move limit orderly { v with queued := v.queued + n + 1 }
        { v.addAway 1 with
          queued := v.queued + n
          opens := v.opens + 1 } := .opened { v with queued := v.queued + n }
    have hrest := ih { v.addAway 1 with opens := v.opens + 1 }
    have hend : { ({ v.addAway 1 with opens := v.opens + 1 } : Course).addAway n with
        opens := v.opens + 1 + n } = { v.addAway (n + 1) with opens := v.opens + (n + 1) } := by
      apply Course.ext <;> first | rfl | skip
      · simp only [Course.addAway]
        omega
      · dsimp only
        omega
    rw [← hend]
    exact .head hopen hrest

/-! ### All lives -/

/-- Every open is paid for: by the schedule, by a retry that is still counted, or by the retries
that a count forgot. -/
structure Bounded (limit : ℕ) (v : Course) : Prop where
  retries : v.retries ≤ limit
  opens : v.opens + v.queued ≤ v.scheduled.toNat + v.retries + limit * v.resolved

/-- **Every move keeps the opens paid for.** -/
theorem Move.bounded {v w : Course} (h : Move limit orderly v w) (hv : Bounded limit v) :
    Bounded limit w := by
  obtain ⟨hr, ho⟩ := hv
  cases h with
  | listed _ _ => exact ⟨hr, ho⟩
  | left _ => exact ⟨hr, ho⟩
  | scheduled v hs | late v _ hs =>
    refine ⟨hr, ?_⟩
    simp only [Course.addInside, Course.schedule, hs, Bool.toNat_false, Bool.toNat_true] at ho ⊢
    omega
  | opened v =>
    refine ⟨hr, ?_⟩
    simp only [Course.addAway] at ho ⊢
    omega
  | retried v hlt =>
    simp only [Course.addAway] at hr ho
    refine ⟨hlt, ?_⟩
    dsimp only
    omega
  | settled v | finished v loose =>
    -- at most `limit` retries are forgotten, and the count stands for as many
    have hr' : v.retries ≤ limit := hr
    refine ⟨Nat.zero_le limit, ?_⟩
    simp only [Course.addAway, Course.addInside, Course.resolve, Nat.mul_succ] at ho ⊢
    omega
  | lost _ => exact ⟨hr, ho⟩
  | tightened _ => exact ⟨hr, ho⟩

theorem Moves.bounded {v w : Course} (h : Moves limit orderly v w) (hv : Bounded limit v) :
    Bounded limit w := by
  induction h with
  | refl => exact hv
  | tail _ hm ih => exact hm.bounded ih

/-- **The retry count falls only with a count of the file.** -/
theorem Moves.forgets {v w : Course} (h : Moves limit orderly v w) :
    v.resolved ≤ w.resolved ∧ (w.retries < v.retries → v.resolved < w.resolved) := by
  have one {v w : Course} (h : Move limit orderly v w) :
      v.resolved ≤ w.resolved ∧ (w.retries < v.retries → v.resolved < w.resolved) := by
    cases h with
    | settled v | finished v loose =>
      exact ⟨Nat.le_succ v.resolved, fun _ => Nat.lt_succ_self v.resolved⟩
    | retried v _ =>
      refine ⟨Nat.le_refl v.resolved, fun hlt => ?_⟩
      simp only [Course.addAway] at hlt
      omega
    | listed _ _ | left _ | scheduled _ _ | late _ _ _ | opened _ | lost _ | tightened _ =>
      exact ⟨Nat.le_refl _, fun hlt => absurd hlt (Nat.lt_irrefl _)⟩
  induction h with
  | refl => exact ⟨Nat.le_refl _, fun hlt => absurd hlt (Nat.lt_irrefl _)⟩
  | tail _ hm ih =>
    obtain ⟨h1, h2⟩ := one hm
    refine ⟨Nat.le_trans ih.1 h1, fun hlt => ?_⟩
    have := ih.1
    omega

/-- A file was opened once, and then as often as it was retried. -/
theorem Bounded.opens_le {v : Course} (h : Bounded limit v) :
    v.opens ≤ 1 + limit * (v.resolved + 1) := by
  have hopens := h.opens
  have hretries := h.retries
  have hfirst := v.scheduled.toNat_le
  rw [Nat.mul_succ]
  omega

/-! ### Orderly lives -/

/-- The file is inside or has left for good, it is under way at most once, and while it is, its
opens are its first one and its retries. -/
structure InOrder (limit : ℕ) (v : Course) : Prop where
  unknown : v.known = false → v.inside = 0 ∧ v.resolved = 0 ∧ v.scheduled = false
  single : v.inside ≤ 1
  past : v.scheduled = true ∨ 0 < v.resolved → v.inside = 0
  live : v.queued + v.away ≤ v.scheduled.toNat
  retries : v.retries ≤ limit
  fresh : v.scheduled = false → v.retries = 0 ∧ v.opens = 0
  attempts : 0 < v.queued + v.away → v.opens + v.queued ≤ 1 + v.retries
  opens : v.opens ≤ 1 + limit
  loose : v.loose = true → 0 < v.resolved

namespace InOrder

variable {v : Course}

theorem known_of_scheduled (h : InOrder limit v) (hs : v.scheduled = true ∨ 0 < v.resolved) :
    v.known = true := by
  cases hk : v.known with
  | true => rfl
  | false =>
    obtain ⟨-, hres, hsched⟩ := h.unknown hk
    rcases hs with hs | hs
    · rw [hs] at hsched
      cases hsched
    · omega

/-- A file that is inside has not left. -/
theorem of_inside (h : InOrder limit (v.addInside 1)) :
    v.inside = 0 ∧ v.scheduled = false ∧ v.resolved = 0 ∧ v.known = true ∧ v.loose = false := by
  have hsingle : v.inside + 1 ≤ 1 := h.single
  have hpast : ¬ (v.scheduled = true ∨ 0 < v.resolved) := by
    intro hs
    have : v.inside + 1 = 0 := h.past hs
    omega
  rw [not_or, Bool.not_eq_true] at hpast
  refine ⟨by omega, hpast.1, by omega, ?_, ?_⟩
  · cases hk : v.known with
    | true => rfl
    | false =>
      have : v.inside + 1 = 0 := (h.unknown hk).1
      omega
  · cases hl : v.loose with
    | false => rfl
    | true => exact absurd (h.loose hl) hpast.2

/-- A file that is away is scheduled, and is nowhere else. -/
theorem of_away (h : InOrder limit (v.addAway 1)) :
    v.scheduled = true ∧ v.queued = 0 ∧ v.away = 0 ∧ v.opens ≤ 1 + v.retries := by
  have hlive : v.queued + (v.away + 1) ≤ v.scheduled.toNat := h.live
  have hattempts : v.opens + v.queued ≤ 1 + v.retries := h.attempts (Nat.succ_pos _)
  cases hs : v.scheduled with
  | true =>
    rw [hs, Bool.toNat_true] at hlive
    exact ⟨rfl, by omega, by omega, by omega⟩
  | false =>
    rw [hs, Bool.toNat_false] at hlive
    omega

/-- What leaves is nowhere. -/
theorem left (h : InOrder limit (v.addInside 1)) : InOrder limit v := by
  obtain ⟨hin, hsched, hres, hknown, hloose⟩ := h.of_inside
  refine ⟨?_, by omega, fun _ => hin, h.live, h.retries, h.fresh, h.attempts, h.opens, ?_⟩
  · intro hk
    rw [hknown] at hk
    cases hk
  · intro hl
    rw [hloose] at hl
    cases hl

/-- A file outside that was not scheduled before can be scheduled. -/
theorem schedule (h : InOrder limit v) (hin : v.inside = 0) (hknown : v.known = true)
    (hsched : v.scheduled = false) : InOrder limit v.schedule := by
  obtain ⟨hretries, hopens⟩ := h.fresh hsched
  have hlive := h.live
  rw [hsched, Bool.toNat_false] at hlive
  refine ⟨?_, h.single, fun _ => hin, ?_, h.retries, ?_, ?_, h.opens, h.loose⟩
  · intro hk
    rw [show v.known = false from hk] at hknown
    cases hknown
  · simp only [Course.schedule, Bool.toNat_true]
    omega
  · intro hs
    cases hs
  · intro _
    simp only [Course.schedule]
    omega

end InOrder

/-- **Every orderly move keeps a file in order.** -/
theorem Move.inOrder {v w : Course} (h : Move limit true v w) (hv : InOrder limit v) :
    InOrder limit w := by
  cases h with
  | listed v hk =>
    -- the first listing: the file was nowhere
    obtain ⟨hin, hres, hsched⟩ := hv.unknown (hk rfl)
    refine ⟨fun h => (by cases h), ?_, ?_, hv.live, hv.retries, hv.fresh, hv.attempts, hv.opens,
      hv.loose⟩
    · simp only [Course.addInside]
      omega
    · rintro (hs | hr)
      · rw [show v.scheduled = true from hs] at hsched
        cases hsched
      · have : 0 < v.resolved := hr
        omega
  | left _ => exact hv.left
  | scheduled _ hsched =>
    obtain ⟨hin, -, -, hknown, -⟩ := hv.of_inside
    exact hv.left.schedule hin hknown hsched
  | late v hl hsched =>
    -- a loose file was counted before, so it is not inside any more
    have hres : 0 < v.resolved := (hl rfl).elim hv.loose id
    exact hv.schedule (hv.past (.inr hres)) (hv.known_of_scheduled (.inr hres)) hsched
  | opened v =>
    -- the only place of the file is the queue it is taken from
    have hlive : v.queued + 1 + v.away ≤ v.scheduled.toNat := hv.live
    have hfirst := v.scheduled.toNat_le
    have hretries : v.retries ≤ limit := hv.retries
    have hattempts : v.opens + (v.queued + 1) ≤ 1 + v.retries := hv.attempts (by
      show 0 < v.queued + 1 + v.away
      omega)
    refine ⟨hv.unknown, hv.single, hv.past, ?_, hv.retries, ?_, ?_, ?_, hv.loose⟩
    · simp only [Course.addAway]
      omega
    · intro hs
      rw [show v.scheduled = false from hs, Bool.toNat_false] at hlive
      omega
    · intro _
      simp only [Course.addAway]
      omega
    · dsimp only
      omega
  | retried v hlt =>
    obtain ⟨hsched, hqueued, haway, hopens⟩ := hv.of_away
    refine ⟨hv.unknown, hv.single, hv.past, ?_, hlt, ?_, ?_, hv.opens, hv.loose⟩
    · simp only [hsched, Bool.toNat_true]
      omega
    · intro hs
      rw [show v.scheduled = false from hs] at hsched
      cases hsched
    · intro _
      dsimp only
      omega
  | settled v =>
    obtain ⟨hsched, hqueued, haway, hopens⟩ := hv.of_away
    refine ⟨?_, hv.single, fun _ => hv.past (.inl hsched), ?_, Nat.zero_le limit, ?_, ?_, hv.opens,
      fun _ => Nat.succ_pos v.resolved⟩
    -- what is away was scheduled, so it is listed
    · intro hk
      have := (hv.unknown hk).2.2
      rw [show v.scheduled = false from this] at hsched
      cases hsched
    · simp only [Course.resolve]
      omega
    · intro hs
      rw [show v.scheduled = false from hs] at hsched
      cases hsched
    · intro hpos
      simp only [Course.resolve] at hpos
      omega
  | lost _ =>
    obtain ⟨hsched, hqueued, haway, hopens⟩ := hv.of_away
    refine ⟨hv.unknown, hv.single, hv.past, ?_, hv.retries, hv.fresh, ?_, hv.opens, hv.loose⟩
    · omega
    · intro hpos
      omega
  | finished v loose =>
    obtain ⟨hin, hsched, hres, hknown, -⟩ := hv.of_inside
    -- a file that is inside was never scheduled, so it has neither opens nor retries
    have hlive : v.queued + v.away ≤ v.scheduled.toNat := hv.live
    have hfresh : v.retries = 0 ∧ v.opens = 0 := hv.fresh hsched
    rw [hsched, Bool.toNat_false] at hlive
    refine ⟨?_, ?_, fun _ => hin, hv.live, Nat.zero_le limit, fun _ => ⟨rfl, hfresh.2⟩, ?_, hv.opens,
      fun _ => Nat.succ_pos v.resolved⟩
    · intro hk
      rw [show v.known = false from hk] at hknown
      cases hknown
    · simp only [Course.resolve]
      omega
    · intro hpos
      simp only [Course.resolve] at hpos
      omega
  | tightened v =>
    exact ⟨hv.unknown, hv.single, hv.past, hv.live, hv.retries, hv.fresh, hv.attempts, hv.opens,
      fun hl => (by cases hl)⟩

theorem Moves.inOrder {v w : Course} (h : Moves limit true v w) (hv : InOrder limit v) :
    InOrder limit w := by
  induction h with
  | refl => exact hv
  | tail _ hm ih => exact hm.inOrder ih

end FastClone.RetryLife
