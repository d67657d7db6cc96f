import Mathlib.Logic.Relation
import Mathlib.Data.Nat.Notation

/-!
# Marking chains of ancestors

Every element has at most one parent, and a parent is smaller. To mark an element with all that is above
it, one climbs until there is no parent or until an element is marked already: what is above that one was
marked when it was.

* `mem_mark`: as long as the marked elements are closed, climbing marks the whole chain and nothing else.
* `mem_markAll`: so of many elements.
-/

namespace Chains

/-- Parents, with a rank that falls on the way up. -/
structure Forest (α : Type) where
  parent : α → Option α
  rank : α → ℕ
  descends : ∀ x y, parent x = some y → rank y < rank x

variable {α : Type} (F : Forest α)

/-- `y` is `x` or above it. -/
def Forest.Above (x y : α) : Prop := Relation.ReflTransGen (fun a b => F.parent a = some b) x y

/-- With an element its parent is marked, but for the parent `x`. -/
def Forest.ClosedBut (x : α) (marked : List α) : Prop :=
  ∀ z ∈ marked, ∀ y, F.parent z = some y → y ∈ marked ∨ y = x

/-- With an element its parent is marked. -/
def Forest.Closed (marked : List α) : Prop := ∀ z ∈ marked, ∀ y, F.parent z = some y → y ∈ marked

variable {F} {x y : α} {marked : List α}

theorem Forest.Closed.but (h : F.Closed marked) (x : α) : F.ClosedBut x marked := fun z hz y hy => .inl (h z hz y hy)

/-- What is above a marked element is marked. -/
theorem Forest.Closed.above (h : F.Closed marked) (hx : x ∈ marked) (hy : F.Above x y) : y ∈ marked := by
  induction hy with
  | refl => exact hx
  | tail _ hstep ih => exact h _ ih _ hstep

theorem Forest.ClosedBut.of_mem (h : F.ClosedBut x marked) (hx : x ∈ marked) : F.Closed marked := by
  intro z hz y hy
  rcases h z hz y hy with hmem | rfl
  · exact hmem
  · exact hx

/-- The next step of the climb. -/
theorem Forest.ClosedBut.cons (h : F.ClosedBut x marked) (hy : F.parent x = some y) : F.ClosedBut y (x :: marked) := by
  intro z hz w hw
  rcases List.mem_cons.1 hz with rfl | hz
  · exact .inr (Option.some.inj (hw.symm.trans hy))
  · rcases h z hz w hw with hmem | rfl
    · exact .inl (List.mem_cons_of_mem x hmem)
    · exact .inl (List.mem_cons_self ..)

variable [DecidableEq α]

/-- Climb from `x` until the top or an element that is marked already. -/
def Forest.mark (F : Forest α) (x : α) (marked : List α) : List α :=
  if x ∈ marked then marked
  else match _h : F.parent x with
    | none => x :: marked
    | some y => mark F y (x :: marked)
termination_by F.rank x
decreasing_by exact F.descends x y _h

/-- Climb from where there is something to climb from. -/
def Forest.markFrom (F : Forest α) : Option α → List α → List α
  | none, marked => marked
  | some x, marked => F.mark x marked

/-- **One climb marks a whole chain**, however early it stops. -/
theorem Forest.mark_spec (x : α) (marked : List α) (h : F.ClosedBut x marked) :
    F.Closed (F.mark x marked) ∧ ∀ y, y ∈ F.mark x marked ↔ y ∈ marked ∨ F.Above x y := by
  fun_induction Forest.mark F x marked with
  | case1 x marked hx =>
    have hclosed := h.of_mem hx
    refine ⟨hclosed, fun y => ⟨.inl, ?_⟩⟩
    rintro (hy | hy)
    · exact hy
    · exact hclosed.above hx hy
  | case2 x marked hx htop =>
    constructor
    · intro z hz y hy
      rcases List.mem_cons.1 hz with rfl | hz
      · rw [htop] at hy
        cases hy
      · rcases h z hz y hy with hmem | rfl
        · exact List.mem_cons_of_mem x hmem
        · exact List.mem_cons_self ..
    · intro y
      rw [List.mem_cons]
      constructor
      · rintro (rfl | hy)
        · exact .inr .refl
        · exact .inl hy
      · rintro (hy | hy)
        · exact .inr hy
        · rcases Relation.ReflTransGen.cases_head hy with rfl | ⟨z, hz, -⟩
          · exact .inl rfl
          · rw [htop] at hz
            cases hz
  | case3 x marked hx y hy ih =>
    obtain ⟨hclosed, hmem⟩ := ih (h.cons hy)
    refine ⟨hclosed, fun z => ?_⟩
    rw [hmem, List.mem_cons]
    constructor
    · rintro ((rfl | hz) | hz)
      · exact .inr .refl
      · exact .inl hz
      · exact .inr (.head hy hz)
    · rintro (hz | hz)
      · exact .inl (.inr hz)
      · rcases Relation.ReflTransGen.cases_head hz with rfl | ⟨w, hw, hwz⟩
        · exact .inl (.inl rfl)
        · rw [hy, Option.some.injEq] at hw
          exact .inr (hw ▸ hwz)

/-- The chains of the parents of many elements: climbing from each parent, whatever is marked before. -/
theorem Forest.mem_markAll {β : Type} (start : β → Option α) (xs : List β) (marked : List α) (h : F.Closed marked)
    (y : α) : y ∈ xs.foldl (fun m b => F.markFrom (start b) m) marked ↔
      y ∈ marked ∨ ∃ b ∈ xs, ∃ x, start b = some x ∧ F.Above x y := by
  induction xs generalizing marked with
  | nil => simp
  | cons b xs ih =>
    rw [List.foldl_cons]
    cases hb : start b with
    | none =>
      rw [Forest.markFrom, ih marked h]
      constructor
      · rintro (hy | ⟨c, hc, hrest⟩)
        · exact .inl hy
        · exact .inr ⟨c, List.mem_cons_of_mem b hc, hrest⟩
      · rintro (hy | ⟨c, hc, x, hx, hrest⟩)
        · exact .inl hy
        · rcases List.mem_cons.1 hc with rfl | hc
          · rw [hb] at hx
            cases hx
          · exact .inr ⟨c, hc, x, hx, hrest⟩
    | some x =>
      obtain ⟨hclosed, hmem⟩ := F.mark_spec x marked (h.but x)
      rw [Forest.markFrom, ih _ hclosed, hmem]
      constructor
      · rintro ((hy | hy) | ⟨c, hc, hrest⟩)
        · exact .inl hy
        · exact .inr ⟨b, List.mem_cons_self .., x, hb, hy⟩
        · exact .inr ⟨c, List.mem_cons_of_mem b hc, hrest⟩
      · rintro (hy | ⟨c, hc, z, hz, hrest⟩)
        · exact .inl (.inl hy)
        · rcases List.mem_cons.1 hc with rfl | hc
          · rw [hb, Option.some.injEq] at hz
            exact .inl (.inr (hz ▸ hrest))
          · exact .inr ⟨c, hc, z, hz, hrest⟩

end Chains
