import Mathlib.Data.List.AList
import Mathlib.Algebra.BigOperators.Group.List.Basic

/-!
# Totals over an association list

`total w m` adds a weight, a number or a multiset, over the entries of `m`. Erasing and
inserting change it by the
weight of one entry (`total_erase`, `total_insert`), so a quantity spread over the entries
of a table can be followed from one operation to the next.
-/

namespace Table

variable {α β M : Type} [AddCommMonoid M]

/-- The sum of a weight over the entries. -/
def total (w : α → β → M) (m : AList fun _ : α => β) : M :=
  (m.entries.map fun e => w e.1 e.2).sum

variable [DecidableEq α]

theorem sum_kerase (w : α → β → M) (k : α) (v : β) (l : List (Sigma fun _ : α => β))
    (h : l.dlookup k = some v) :
    (l.map fun e => w e.1 e.2).sum = w k v + ((l.kerase k).map fun e => w e.1 e.2).sum := by
  induction l with
  | nil => simp at h
  | cons e l ih =>
    obtain ⟨a, b⟩ := e
    by_cases hk : k = a
    · subst hk
      rw [List.dlookup_cons_eq] at h
      cases h
      have he : List.kerase k (⟨k, v⟩ :: l) = l := List.kerase_cons_eq rfl
      simp [he]
    · rw [List.dlookup_cons_ne _ _ hk] at h
      rw [List.kerase_cons_ne hk]
      simp only [List.map_cons, List.sum_cons, ih h]
      exact add_left_comm _ _ _

/-- Erasing a present key takes away its weight. -/
theorem total_erase {w : α → β → M} {m : AList fun _ : α => β} {k : α} {v : β}
    (h : m.lookup k = some v) : total w m = w k v + total w (m.erase k) :=
  sum_kerase w k v m.entries h

/-- Erasing an absent key changes nothing. -/
theorem erase_absent {m : AList fun _ : α => β} {k : α} (h : m.lookup k = none) :
    m.erase k = m := by
  apply AList.ext
  exact List.kerase_of_notMem_keys (List.dlookup_eq_none.1 h)

/-- What is found after an erasure was found before. -/
theorem lookup_of_erase {m : AList fun _ : α => β} {k a : α} {v : β} (h : (m.erase k).lookup a = some v) :
    m.lookup a = some v := by
  by_cases hk : a = k
  · rw [hk, AList.lookup_erase] at h
    cases h
  · rwa [AList.lookup_erase_ne hk] at h

/-- Inserting replaces the weight that stood at the key. -/
theorem total_insert (w : α → β → M) (m : AList fun _ : α => β) (k : α) (v : β) :
    total w (m.insert k v) = w k v + total w (m.erase k) := by
  simp only [total, AList.entries_insert, List.map_cons, List.sum_cons]
  rfl

/-- Inserting at a free key adds a weight. -/
theorem total_insert_new {w : α → β → M} {m : AList fun _ : α => β} {k : α}
    (h : m.lookup k = none) (v : β) : total w (m.insert k v) = w k v + total w m := by
  rw [total_insert, erase_absent h]

/-- A total that is not zero comes from some entry. -/
theorem exists_of_total_pos {w : α → β → ℕ} {m : AList fun _ : α => β} (h : 0 < total w m) :
    ∃ k v, m.lookup k = some v ∧ 0 < w k v := by
  by_contra hno
  push Not at hno
  have hzero : ∀ x ∈ m.entries.map fun e => w e.1 e.2, x = 0 := by
    intro x hx
    obtain ⟨e, he, rfl⟩ := List.mem_map.1 hx
    have hl : m.lookup e.1 = some e.2 := (AList.mem_lookup_iff).2 he
    exact Nat.le_zero.1 (hno e.1 e.2 hl)
  have : total w m = 0 := List.sum_eq_zero hzero
  omega

end Table
