import FastClone.Lib.Worklist
import Mathlib.Data.List.Perm.Basic

/-!
# Numbers drawn from a shared counter

`count` items stand in a row. A worker draws the next number from a counter, works on the item with it, and
draws again; with a number past the row it leaves. `done` is a ghost: the numbers worked off, in order.

* `Kept`: the invariant. No number is worked on twice, and none that was drawn gets lost.
* `Kept.done_perm`: when all workers have left, every number of the row was worked off once.
* `rank_draw`, `rank_finish`: a step of a worker takes one off the steps that are left.
-/

namespace Tickets

/-- A worker is about to draw, has a number, or has left. -/
inductive Hand where
  | drawing
  | working (i : ℕ)
  | left
  deriving DecidableEq

structure State where
  next : ℕ
  hand : ℕ → Hand
  done : List ℕ

def State.start : State := ⟨0, fun _ => .drawing, []⟩

def State.draw (count : ℕ) (s : State) (w : ℕ) : State :=
  { s with
    next := s.next + 1
    hand := Function.update s.hand w (if s.next < count then .working s.next else .left) }

def State.finish (s : State) (w i : ℕ) : State :=
  { s with
    hand := Function.update s.hand w .drawing
    done := s.done ++ [i] }

/-- The invariant, for `workers` workers. -/
structure State.Kept (count workers : ℕ) (s : State) : Prop where
  within : ∀ w, s.hand w ≠ .drawing → w < workers
  working : ∀ w i, s.hand w = .working i → i < count ∧ i < s.next ∧ i ∉ s.done
  alone : ∀ w v i, s.hand w = .working i → s.hand v = .working i → w = v
  nodup : s.done.Nodup
  drawn : ∀ i ∈ s.done, i < count ∧ i < s.next
  cover : ∀ i < count, i < s.next → i ∈ s.done ∨ ∃ w, s.hand w = .working i
  left : ∀ w, s.hand w = .left → count ≤ s.next

variable {count workers w i : ℕ} {s : State}

theorem kept_start (count workers : ℕ) : State.start.Kept count workers where
  within _ h := absurd rfl h
  working := nofun
  alone := nofun
  nodup := List.nodup_nil
  drawn := nofun
  cover i _ h := absurd h (Nat.not_lt_zero i)
  left := nofun

/-- Only workers move. -/
theorem State.Kept.within_update (h : s.Kept count workers) (hw : w < workers) (x : Hand) (v : ℕ)
    (hv : Function.update s.hand w x v ≠ .drawing) : v < workers := by
  by_cases hvw : v = w
  · exact hvw ▸ hw
  · rw [Function.update_of_ne hvw] at hv
    exact h.within v hv

/-- The hand of a worker after somebody has moved. -/
theorem hand_update {x y : Hand} {v : ℕ} (h : Function.update s.hand w x v = y) :
    v = w ∧ x = y ∨ v ≠ w ∧ s.hand v = y := by
  by_cases hv : v = w
  · rw [hv, Function.update_self] at h
    exact Or.inl ⟨hv, h⟩
  · rw [Function.update_of_ne hv] at h
    exact Or.inr ⟨hv, h⟩

/-- A number goes to the one who draws it. -/
theorem State.Kept.take (h : s.Kept count workers) (hw : w < workers) (hhand : s.hand w = .drawing)
    (hlt : s.next < count) : (s.draw count w).Kept count workers := by
  have hheld : ∀ v j, Function.update s.hand w (.working s.next) v = .working j →
      v = w ∧ s.next = j ∨ v ≠ w ∧ s.hand v = .working j := by
    intro v j hv
    rcases hand_update hv with ⟨rfl, heq⟩ | hother
    · exact Or.inl ⟨rfl, Hand.working.inj heq⟩
    · exact Or.inr hother
  -- the new number has not been drawn before
  have hfresh : s.next ∉ s.done := fun hmem => Nat.lt_irrefl _ (h.drawn _ hmem).2
  unfold draw
  rw [if_pos hlt]
  refine ⟨h.within_update hw _, ?_, ?_, h.nodup, ?_, ?_, ?_⟩
  · intro v j hv
    rcases hheld v j hv with ⟨-, rfl⟩ | ⟨-, hold⟩
    · exact ⟨hlt, Nat.lt_succ_self _, hfresh⟩
    · obtain ⟨hcount, hnext, hnot⟩ := h.working v j hold
      exact ⟨hcount, Nat.lt_succ_of_lt hnext, hnot⟩
  · intro v u j hv hu
    rcases hheld v j hv with ⟨rfl, rfl⟩ | ⟨-, hv'⟩
    · rcases hheld u _ hu with ⟨rfl, -⟩ | ⟨-, hu'⟩
      · rfl
      · exact absurd (h.working u _ hu').2.1 (Nat.lt_irrefl _)
    · rcases hheld u j hu with ⟨rfl, rfl⟩ | ⟨-, hu'⟩
      · exact absurd (h.working v _ hv').2.1 (Nat.lt_irrefl _)
      · exact h.alone v u j hv' hu'
  · intro j hj
    obtain ⟨hcount, hnext⟩ := h.drawn j hj
    exact ⟨hcount, Nat.lt_succ_of_lt hnext⟩
  · intro j hj hnext
    rcases Nat.lt_succ_iff_lt_or_eq.1 hnext with hold | rfl
    · refine (h.cover j hj hold).imp_right fun ⟨v, hv⟩ => ⟨v, ?_⟩
      have hvw : v ≠ w := by
        rintro rfl
        rw [hhand] at hv
        nomatch hv
      exact (Function.update_of_ne hvw ..).trans hv
    · exact Or.inr ⟨w, Function.update_self ..⟩
  · intro v hv
    rcases hand_update hv with ⟨-, heq⟩ | ⟨-, hold⟩
    · nomatch heq
    · exact Nat.le_succ_of_le (h.left v hold)

/-- A number past the row sends the worker away. -/
theorem State.Kept.leave (h : s.Kept count workers) (hw : w < workers) (hhand : s.hand w = .drawing)
    (hge : count ≤ s.next) : (s.draw count w).Kept count workers := by
  have hheld : ∀ v j, Function.update s.hand w .left v = .working j → s.hand v = .working j := by
    intro v j hv
    rcases hand_update hv with ⟨-, heq⟩ | ⟨-, hold⟩
    · nomatch heq
    · exact hold
  unfold draw
  rw [if_neg (Nat.not_lt.2 hge)]
  refine ⟨h.within_update hw _, ?_, ?_, h.nodup, ?_, ?_, ?_⟩
  · intro v j hv
    obtain ⟨hcount, hnext, hnot⟩ := h.working v j (hheld v j hv)
    exact ⟨hcount, Nat.lt_succ_of_lt hnext, hnot⟩
  · intro v u j hv hu
    exact h.alone v u j (hheld v j hv) (hheld u j hu)
  · intro j hj
    obtain ⟨hcount, hnext⟩ := h.drawn j hj
    exact ⟨hcount, Nat.lt_succ_of_lt hnext⟩
  · intro j hj hnext
    have hold : j < s.next := Nat.lt_of_lt_of_le hj hge
    refine (h.cover j hj hold).imp_right fun ⟨v, hv⟩ => ⟨v, ?_⟩
    have hvw : v ≠ w := by
      rintro rfl
      rw [hhand] at hv
      nomatch hv
    exact (Function.update_of_ne hvw ..).trans hv
  · intro v hv
    exact Nat.le_succ_of_le hge

theorem State.Kept.draw (h : s.Kept count workers) (hw : w < workers) (hhand : s.hand w = .drawing) :
    (s.draw count w).Kept count workers := by
  rcases Nat.lt_or_ge s.next count with hlt | hge
  · exact h.take hw hhand hlt
  · exact h.leave hw hhand hge

theorem State.Kept.finish (h : s.Kept count workers) (hhand : s.hand w = .working i) :
    (s.finish w i).Kept count workers := by
  have hheld : ∀ v j, Function.update s.hand w .drawing v = .working j → v ≠ w ∧ s.hand v = .working j := by
    intro v j hv
    rcases hand_update hv with ⟨-, heq⟩ | hold
    · nomatch heq
    · exact hold
  obtain ⟨hcount, hnext, hnot⟩ := h.working w i hhand
  have hw : w < workers := h.within w (by rw [hhand]; nofun)
  refine ⟨h.within_update hw _, ?_, ?_, ?_, ?_, ?_, ?_⟩
  · intro v j hv
    obtain ⟨hvw, hold⟩ := hheld v j hv
    obtain ⟨hj, hjnext, hjnot⟩ := h.working v j hold
    refine ⟨hj, hjnext, fun hmem => ?_⟩
    rcases List.mem_append.1 hmem with hdone | hnew
    · exact hjnot hdone
    · rw [List.mem_singleton.1 hnew] at hold
      exact hvw (h.alone v w i hold hhand)
  · intro v u j hv hu
    exact h.alone v u j (hheld v j hv).2 (hheld u j hu).2
  · refine List.nodup_append.2 ⟨h.nodup, List.nodup_singleton i, ?_⟩
    rintro a ha b hb rfl
    rw [List.mem_singleton.1 hb] at ha
    exact hnot ha
  · intro j hj
    rcases List.mem_append.1 hj with hdone | hnew
    · exact h.drawn j hdone
    · rw [List.mem_singleton.1 hnew]
      exact ⟨hcount, hnext⟩
  · intro j hj hjnext
    rcases h.cover j hj hjnext with hdone | ⟨v, hv⟩
    · exact Or.inl (List.mem_append_left _ hdone)
    · by_cases hvw : v = w
      · rw [hvw, hhand] at hv
        rw [Hand.working.inj hv]
        exact Or.inl (List.mem_append_right _ (List.mem_singleton_self j))
      · exact Or.inr ⟨v, (Function.update_of_ne hvw ..).trans hv⟩
  · intro v hv
    rcases hand_update hv with ⟨-, heq⟩ | ⟨-, hold⟩
    · nomatch heq
    · exact h.left v hold

/-- **Every number once**, when all workers have left and there was one. -/
theorem State.Kept.done_perm (h : s.Kept count workers) (hpos : count ≠ 0 → 0 < workers)
    (hleft : ∀ w < workers, s.hand w = .left) : s.done.Perm (List.range count) := by
  refine (List.perm_ext_iff_of_nodup h.nodup List.nodup_range).2 fun j => ?_
  rw [List.mem_range]
  refine ⟨fun hj => (h.drawn j hj).1, fun hj => ?_⟩
  have hworkers : 0 < workers := hpos (by omega)
  have hall : count ≤ s.next := h.left 0 (hleft 0 hworkers)
  rcases h.cover j hj (Nat.lt_of_lt_of_le hj hall) with hdone | ⟨v, hv⟩
  · exact hdone
  · have hin : v < workers := h.within v (by rw [hv]; nofun)
    rw [hleft v hin] at hv
    nomatch hv

/-! ### Steps that are left -/

def Hand.rank : Hand → ℕ
  | .drawing => 1
  | .working _ => 2
  | .left => 0

def State.rank (count workers : ℕ) (s : State) : ℕ :=
  2 * (count - s.next) + Worklist.total workers fun w => (s.hand w).rank

theorem rank_draw (hw : w < workers) (hhand : s.hand w = .drawing) :
    (s.draw count w).rank count workers + 1 = s.rank count workers := by
  have hone : (s.hand w).rank = 1 := by rw [hhand]; rfl
  unfold State.rank State.draw
  dsimp only
  by_cases hlt : s.next < count
  · have hupdate := Worklist.total_update Hand.rank s.hand hw (.working s.next)
    have htwo : (Hand.working s.next).rank = 2 := rfl
    rw [if_pos hlt]
    omega
  · have hupdate := Worklist.total_update Hand.rank s.hand hw .left
    have hzero : Hand.left.rank = 0 := rfl
    rw [if_neg hlt]
    omega

theorem rank_finish (hw : w < workers) (hhand : s.hand w = .working i) :
    (s.finish w i).rank count workers + 1 = s.rank count workers := by
  have hupdate := Worklist.total_update Hand.rank s.hand hw .drawing
  have htwo : (s.hand w).rank = 2 := by rw [hhand]; rfl
  have hone : Hand.drawing.rank = 1 := rfl
  unfold State.rank State.finish
  dsimp only
  omega

end Tickets
