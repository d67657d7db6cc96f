import Mathlib.Data.List.Basic

/-!
# Incremental digests

A digest that is computed piece by piece: a start state, an update with the next
piece, a reading of the state. It is lawful when the reading depends only on the
concatenation of the pieces and agrees with a one-shot function.
-/

/-- The operations of an incremental digest of sequences over `α`. -/
structure Incremental (α β : Type) where
  State : Type
  reset : State
  update : State → List α → State
  digest : State → β

namespace Incremental

variable {α β : Type} (I : Incremental α β)

/-- Reading after any pieces gives the one-shot value of their concatenation. -/
def Computes (oneShot : List α → β) : Prop :=
  ∀ pieces : List (List α), I.digest (pieces.foldl I.update I.reset) = oneShot pieces.flatten

/-- `st` has absorbed exactly `X`, in some pieces. -/
def Holds (st : I.State) (X : List α) : Prop :=
  ∃ pieces : List (List α), pieces.foldl I.update I.reset = st ∧ pieces.flatten = X

variable {I}

theorem holds_reset : I.Holds I.reset [] := ⟨[], rfl, rfl⟩

theorem Holds.update {st : I.State} {X : List α} (h : I.Holds st X) (Y : List α) :
    I.Holds (I.update st Y) (X ++ Y) := by
  obtain ⟨pieces, hst, hX⟩ := h
  refine ⟨pieces ++ [Y], ?_, ?_⟩
  · rw [List.foldl_append, hst]
    rfl
  · rw [List.flatten_append, hX]
    simp

/-- Skipping the update for an empty piece changes nothing. -/
theorem Holds.updateIf {st : I.State} {X : List α} (h : I.Holds st X) (Y : List α) :
    I.Holds (if Y.length > 0 then I.update st Y else st) (X ++ Y) := by
  split
  · exact h.update Y
  · rename_i hlen
    have hY : Y = [] := List.length_eq_zero_iff.1 (by omega)
    rw [hY, List.append_nil]
    exact h

theorem Holds.digest_eq {oneShot : List α → β} {st : I.State} {X : List α}
    (h : I.Holds st X) (hI : I.Computes oneShot) : I.digest st = oneShot X := by
  obtain ⟨pieces, rfl, rfl⟩ := h
  exact hI pieces

/-- The digest that keeps all it absorbed. -/
def buffered (oneShot : List α → β) : Incremental α β where
  State := List α
  reset := []
  update := (· ++ ·)
  digest := oneShot

theorem buffered_computes (oneShot : List α → β) : (buffered oneShot).Computes oneShot := by
  intro pieces
  have key : ∀ (ps : List (List α)) (X : List α),
      ps.foldl (fun X Y => X ++ Y) X = X ++ ps.flatten := by
    intro ps
    induction ps with
    | nil => intro X; simp
    | cons p ps ih =>
      intro X
      rw [List.foldl_cons, ih]
      simp
  exact congrArg oneShot (key pieces [])

end Incremental
