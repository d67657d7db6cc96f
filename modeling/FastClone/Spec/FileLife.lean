import Mathlib.Logic.Relation
import Mathlib.Data.Nat.Notation

/-!
# The life of one manifest file

What the client does to a single file, without queues, lanes and streams: the file is
listed, compared, perhaps held back (for its hashes, as a delta file or in block mode), and
then it is out: queued, on a stream, being written, or counted. `NotLost` and `Once` are
what the client is for, and every move keeps them.
-/

namespace FastClone.FileLife

/-- How often a file is in the compare stage, held back, and out, whether its hash was ever
asked for, whether it was ever scheduled, and whether the manifest lists it. `strays` are the
counts that were made for no file at all. -/
@[ext]
structure Life where
  comparing : ℕ
  held : ℕ
  out : ℕ
  asked : Bool
  scheduled : Bool
  known : Bool
  strays : ℕ

/-- In the compare stage `n` times more. -/
def Life.addComparing (v : Life) (n : ℕ) : Life := { v with comparing := v.comparing + n }

/-- Held back `n` times more. -/
def Life.addHeld (v : Life) (n : ℕ) : Life := { v with held := v.held + n }

/-- Out `n` times more. -/
def Life.addOut (v : Life) (n : ℕ) : Life := { v with out := v.out + n }

/-- Scheduled: a file that was scheduled before is not queued again. -/
def Life.schedule (v : Life) : Life :=
  { v with
    scheduled := true
    out := v.out + if v.scheduled then 0 else 1 }

theorem Life.addOut_zero (v : Life) : v.addOut 0 = v := rfl

theorem Life.addOut_addOut (v : Life) (m n : ℕ) : (v.addOut m).addOut n = v.addOut (m + n) := by
  simp [addOut, Nat.add_assoc]

theorem Life.addOut_inj {v w : Life} {n : ℕ} (h : v.addOut n = w.addOut n) : v = w := by
  rw [Life.ext_iff] at h
  obtain ⟨h1, h2, h3, h4, h5, h6, h7⟩ := h
  exact Life.ext h1 h2 (Nat.add_right_cancel h3) h4 h5 h6 h7

/-- A file that was taken from somewhere is put where it goes next. -/
inductive Gives : Life → Life → Prop where
  | hold (v : Life) : Gives v (v.addHeld 1)
  | out (v : Life) : Gives v (v.addOut 1)
  | schedule (v : Life) : Gives v v.schedule

/-- The moves of a file. In a clean life a file is listed once, it is scheduled only when it is
taken from somewhere, and every count is made for a file. -/
inductive Move (clean : Bool) : Life → Life → Prop where
  | listed (v : Life) : (clean = true → v.known = false) →
      Move clean v { v.addComparing 1 with known := true }
  | compared {v w : Life} : Gives v w → Move clean (v.addComparing 1) w
  | asks (v : Life) : v.asked = false →
      Move clean (v.addComparing 1) { v.addHeld 1 with asked := true }
  | asksAgain (v : Life) : v.asked = true → Move clean (v.addComparing 1) v
  | released {v w : Life} : Gives v w → Move clean (v.addHeld 1) w
  | spurious (v : Life) : clean = false → Move clean v v.schedule
  | stray (v : Life) : clean = false → Move clean v { v with strays := v.strays + 1 }

/-- Any number of moves. -/
abbrev Moves (clean : Bool) : Life → Life → Prop := Relation.ReflTransGen (Move clean)

/-- A listed file is somewhere, a file whose hash was asked for is past the compare stage, and a
scheduled file is out. -/
structure NotLost (v : Life) : Prop where
  known : v.known = true → 1 ≤ v.comparing + v.held + v.out
  asked : v.asked = true → 1 ≤ v.held + v.out
  scheduled : v.scheduled = true → 1 ≤ v.out

/-- A listed file is in one place, a file that is not listed is nowhere, and no count is stray. -/
structure Once (v : Life) : Prop extends NotLost v where
  total : v.comparing + v.held + v.out = if v.known then 1 else 0
  strays : v.strays = 0

theorem Gives.notLost {v w : Life} (h : Gives v w) (hs : v.scheduled = true → 1 ≤ v.out) :
    NotLost w := by
  cases h with
  | hold =>
    constructor
    · intro _; simp only [Life.addHeld]; omega
    · intro _; simp only [Life.addHeld]; omega
    · exact hs
  | out => constructor <;> intro _ <;> simp only [Life.addOut] <;> omega
  | schedule =>
    have h1 : 1 ≤ v.out + if v.scheduled then 0 else 1 := by
      cases hv : v.scheduled
      · simp
      · simp [hs hv]
    constructor <;> intro _ <;> simp only [Life.schedule] <;> omega

/-- **No move loses a file.** -/
theorem Move.notLost {clean : Bool} {v w : Life} (h : Move clean v w) (hv : NotLost v) :
    NotLost w := by
  cases h with
  | listed _ _ =>
    constructor
    · intro _; simp only [Life.addComparing]; omega
    · exact hv.asked
    · exact hv.scheduled
  | compared hg => exact hg.notLost hv.scheduled
  | asks _ _ =>
    constructor
    · intro _; simp only [Life.addHeld]; omega
    · intro _; simp only [Life.addHeld]; omega
    · exact hv.scheduled
  | asksAgain _ ha =>
    have h1 : 1 ≤ w.held + w.out := hv.asked ha
    exact ⟨fun _ => by omega, hv.asked, hv.scheduled⟩
  | released hg => exact hg.notLost hv.scheduled
  | spurious _ _ => exact (Gives.schedule v).notLost hv.scheduled
  | stray _ _ => exact ⟨hv.known, hv.asked, hv.scheduled⟩

/-- Giving a file that was in no other place leaves it in one place. -/
theorem Gives.total {v w : Life} (h : Gives v w) (hs : v.scheduled = true → 1 ≤ v.out)
    (h0 : v.comparing + v.held + v.out = 0) :
    w.comparing + w.held + w.out = 1 ∧ w.known = v.known := by
  cases h with
  | hold => exact ⟨by simp only [Life.addHeld]; omega, rfl⟩
  | out => exact ⟨by simp only [Life.addOut]; omega, rfl⟩
  | schedule =>
    have hn : v.scheduled = false := by
      cases hv : v.scheduled
      · rfl
      · have := hs hv; omega
    exact ⟨by simp only [Life.schedule, hn, Bool.false_eq_true, if_false]; omega, rfl⟩

/-- A file that is somewhere is listed, and is nowhere else. -/
theorem Once.one {v : Life} (hv : Once v) (h : 0 < v.comparing + v.held + v.out) :
    v.comparing + v.held + v.out = 1 ∧ v.known = true := by
  have ht := hv.total
  cases hk : v.known with
  | true => exact ⟨by simpa [hk] using ht, rfl⟩
  | false =>
    rw [hk] at ht
    simp only [Bool.false_eq_true, if_false] at ht
    omega

/-- No clean move makes a stray count. -/
theorem Move.strays {v w : Life} (h : Move true v w) : w.strays = v.strays := by
  cases h with
  | listed _ _ => rfl
  | compared hg => cases hg <;> rfl
  | asks _ _ => rfl
  | asksAgain _ _ => rfl
  | released hg => cases hg <;> rfl
  | spurious _ hc => cases hc
  | stray _ hc => cases hc

/-- **Every clean move keeps a file in one place.** -/
theorem Move.once {v w : Life} (h : Move true v w) (hv : Once v) : Once w := by
  refine ⟨h.notLost hv.toNotLost, ?_, h.strays.trans hv.strays⟩
  cases h with
  | listed _ hk =>
    have ht := hv.total
    rw [hk rfl] at ht
    simp only [Bool.false_eq_true, if_false] at ht
    simp only [Life.addComparing, if_true]
    omega
  | @compared v w hg =>
    obtain ⟨h1, hk⟩ := hv.one (by simp only [Life.addComparing]; omega)
    obtain ⟨h2, h3⟩ := hg.total hv.scheduled (by simp only [Life.addComparing] at h1; omega)
    have hk' : w.known = true := h3.trans hk
    simp [h2, hk']
  | asks v _ =>
    obtain ⟨h1, hk⟩ := hv.one (by simp only [Life.addComparing]; omega)
    simp only [Life.addComparing] at h1 hk
    simp only [Life.addHeld, hk, if_true]
    omega
  | asksAgain _ ha =>
    -- the file would be in the compare stage and past it
    obtain ⟨h1, -⟩ := hv.one (by simp only [Life.addComparing]; omega)
    have h2 : 1 ≤ w.held + w.out := hv.asked ha
    simp only [Life.addComparing] at h1
    omega
  | @released v w hg =>
    obtain ⟨h1, hk⟩ := hv.one (by simp only [Life.addHeld]; omega)
    obtain ⟨h2, h3⟩ := hg.total hv.scheduled (by simp only [Life.addHeld] at h1; omega)
    have hk' : w.known = true := h3.trans hk
    simp [h2, hk']
  | spurious _ hc => cases hc
  | stray _ hc => cases hc

theorem Moves.notLost {clean : Bool} {v w : Life} (h : Moves clean v w) (hv : NotLost v) :
    NotLost w := by
  induction h with
  | refl => exact hv
  | tail _ hm ih => exact hm.notLost ih

theorem Moves.once {v w : Life} (h : Moves true v w) (hv : Once v) : Once w := by
  induction h with
  | refl => exact hv
  | tail _ hm ih => exact hm.once ih

end FastClone.FileLife
