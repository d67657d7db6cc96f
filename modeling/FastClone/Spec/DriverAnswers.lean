import FastClone.Spec.DiskIo

/-!
# The driver as an environment

For a user of one file the driver is what accepts requests or rejects them, and delivers the accepted ones
in any order and with any result.
-/

namespace FastClone.DiskIo

/-- The completed requests are outstanding, each for itself. -/
def Deliverable : List IoRequest → List (IoRequest × IoResult) → Prop
  | _, [] => True
  | outstanding, d :: done => d.1 ∈ outstanding ∧ Deliverable (outstanding.erase d.1) done

instance decidableDeliverable : (outstanding : List IoRequest) → (done : List (IoRequest × IoResult)) →
    Decidable (Deliverable outstanding done)
  | _, [] => .isTrue trivial
  | outstanding, d :: done =>
    have := decidableDeliverable (outstanding.erase d.1) done
    inferInstanceAs (Decidable (d.1 ∈ outstanding ∧ _))

/-- What every delivery keeps, a series of deliveries keeps. -/
theorem Deliverable.keeps {σ : Type} {deliver : σ → IoRequest × IoResult → σ} {o : σ → List IoRequest}
    {I : σ → Prop} (hout : ∀ s d, o (deliver s d) = (o s).erase d.1)
    (hstep : ∀ s d, I s → d.1 ∈ o s → I (deliver s d)) {done : List (IoRequest × IoResult)} {s : σ}
    (hd : Deliverable (o s) done) (h : I s) : I (done.foldl deliver s) := by
  induction done generalizing s with
  | nil => exact h
  | cons d done ih =>
    refine ih ?_ (hstep s d h hd.1)
    rw [hout]
    exact hd.2

variable {accepted outstanding : List IoRequest} {delivered : List (IoRequest × IoResult)}

/-- An accepted request is outstanding. -/
theorem split_accept (h : accepted.Perm (outstanding ++ delivered.map Prod.fst)) (q : IoRequest) :
    (accepted ++ [q]).Perm (outstanding ++ [q] ++ delivered.map Prod.fst) := by
  rw [List.append_assoc]
  refine (h.append_right _).trans ?_
  rw [List.append_assoc]
  exact List.Perm.append_left _ List.perm_append_comm

/-- A delivered request was outstanding. -/
theorem split_deliver (h : accepted.Perm (outstanding ++ delivered.map Prod.fst)) {d : IoRequest × IoResult}
    (hd : d.1 ∈ outstanding) : accepted.Perm (outstanding.erase d.1 ++ (delivered ++ [d]).map Prod.fst) := by
  rw [List.map_append, List.map_singleton, ← List.append_assoc]
  refine h.trans (((List.perm_cons_erase hd).append_right _).trans ?_)
  exact (List.perm_append_singleton _ _).symm

end FastClone.DiskIo
