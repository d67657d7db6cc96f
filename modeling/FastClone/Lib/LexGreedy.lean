import Mathlib.Data.List.Basic
import Mathlib.Data.List.Lex

/-!
# Greedy selection of a least basis

Some sublists of a sorted list, all of one length, are the bases. `select` goes through the list and takes an
element where what it has taken stays part of a basis. `select_least`: it ends with a basis, and with the
lexicographically least one.
-/

namespace LexGreedy

variable {α : Type}

/-- `ok acc e` says that `e` may be taken behind `acc`. -/
def select (ok : List α → α → Bool) : List α → List α → List α
  | acc, [] => acc
  | acc, e :: rest => select ok (if ok acc e then acc ++ [e] else acc) rest

/-- The bases among the sublists of `L`, and a test that knows them. -/
structure Family (lt : α → α → Prop) (L : List α) (Base : List α → Prop) (ok : List α → α → Bool) : Prop where
  sorted : L.Pairwise lt
  nodup : L.Nodup
  sublist : ∀ B, Base B → B.Sublist L
  length : ∀ B B', Base B → Base B' → B.length = B'.length
  test : ∀ acc e, (acc ++ [e]).Sublist L → (∃ B, Base B ∧ acc ⊆ B) →
    (ok acc e = true ↔ ∃ B, Base B ∧ acc ++ [e] ⊆ B)

variable {lt : α → α → Prop} {L : List α} {Base : List α → Prop} {ok : List α → α → Bool}

/-- Every basis around `acc` goes on with elements of `rest`. -/
def Decided (Base : List α → Prop) (acc rest : List α) : Prop :=
  ∀ B, Base B → acc ⊆ B → ∃ B', B = acc ++ B' ∧ B'.Sublist rest

theorem select_from (h : Family lt L Base ok) (rest done acc : List α) (hL : L = done ++ rest) (hacc : acc.Sublist done)
    (hbasis : ∃ B, Base B ∧ acc ⊆ B) (hdecided : Decided Base acc rest) :
    ∃ R, select ok acc rest = acc ++ R ∧ Base (acc ++ R) ∧
      ∀ B, Base (acc ++ B) → B.Sublist rest → R = B ∨ List.Lex lt R B := by
  induction rest generalizing done acc with
  | nil =>
    obtain ⟨B, hB, hsub⟩ := hbasis
    obtain ⟨B', rfl, hB'⟩ := hdecided B hB hsub
    cases hB'
    refine ⟨[], (List.append_nil acc).symm, hB, fun B _ hB' => ?_⟩
    cases hB'
    exact .inl rfl
  | cons e rest ih =>
    have hL' : L = (done ++ [e]) ++ rest := by rw [hL, List.append_assoc]; rfl
    have hsub : (acc ++ [e]).Sublist L := by
      rw [hL']
      exact (hacc.append_right [e]).trans (List.sublist_append_left _ _)
    have htest := h.test acc e hsub hbasis
    have hafter : ∀ b ∈ rest, lt e b := by
      have hsorted := h.sorted
      rw [hL] at hsorted
      exact (List.pairwise_cons.1 (List.pairwise_append.1 hsorted).2.1).1
    rw [select]
    by_cases hok : ok acc e = true
    · rw [if_pos hok]
      have hdecided' : Decided Base (acc ++ [e]) rest := by
        intro B hB hin
        obtain ⟨B', rfl, hB'⟩ := hdecided B hB fun x hx => hin (List.mem_append_left _ hx)
        have hnodup := h.nodup
        rw [hL, List.nodup_append] at hnodup
        cases hB' with
        | cons _ hB' =>
          -- then `e` would come twice
          exfalso
          rcases List.mem_append.1 (hin (List.mem_append_right _ List.mem_cons_self)) with he | he
          · exact hnodup.2.2 e (hacc.mem he) e List.mem_cons_self rfl
          · exact (List.nodup_cons.1 hnodup.2.1).1 (hB'.mem he)
        | cons_cons _ hB' => exact ⟨_, by rw [List.append_assoc]; rfl, hB'⟩
      obtain ⟨R, heq, hbase, hleast⟩ := ih (done ++ [e]) (acc ++ [e]) hL' (hacc.append_right [e]) (htest.1 hok) hdecided'
      have hassoc : ∀ l, (acc ++ [e]) ++ l = acc ++ e :: l := fun l => List.append_assoc ..
      rw [hassoc] at heq hbase
      refine ⟨e :: R, heq, hbase, fun B hB hin => ?_⟩
      cases hin with
      | cons _ hin =>
        have hlength := h.length _ _ hbase hB
        cases B with
        | nil => rw [List.length_append, List.length_append] at hlength; cases Nat.add_left_cancel hlength
        | cons b B => exact .inr (.rel (hafter b (hin.mem List.mem_cons_self)))
      | cons_cons _ hin =>
        rcases hleast _ (by rw [hassoc]; exact hB) hin with rfl | hlt
        · exact .inl rfl
        · exact .inr (.cons hlt)
    · rw [if_neg hok]
      have hskip : ∀ B, Base (acc ++ e :: B) → False := by
        intro B hB
        refine hok (htest.2 ⟨_, hB, fun x hx => ?_⟩)
        rcases List.mem_append.1 hx with hx | hx
        · exact List.mem_append_left _ hx
        · exact List.mem_append_right _ (List.mem_singleton.1 hx ▸ List.mem_cons_self)
      have hdecided' : Decided Base acc rest := by
        intro B hB hin
        obtain ⟨B', rfl, hB'⟩ := hdecided B hB hin
        cases hB' with
        | cons _ hB' => exact ⟨_, rfl, hB'⟩
        | cons_cons _ hB' => exact (hskip _ hB).elim
      obtain ⟨R, heq, hbase, hleast⟩ := ih (done ++ [e]) acc hL' (hacc.trans (List.sublist_append_left _ _)) hbasis hdecided'
      refine ⟨R, heq, hbase, fun B hB hin => ?_⟩
      cases hin with
      | cons _ hin => exact hleast B hB hin
      | cons_cons _ hin => exact (hskip _ hB).elim

/-- **What is selected is the least basis.** -/
theorem select_least (h : Family lt L Base ok) (hbasis : ∃ B, Base B) :
    Base (select ok [] L) ∧ ∀ B, Base B → select ok [] L = B ∨ List.Lex lt (select ok [] L) B := by
  obtain ⟨B₀, hB₀⟩ := hbasis
  obtain ⟨R, heq, hbase, hleast⟩ := select_from h L [] [] rfl .slnil ⟨B₀, hB₀, List.nil_subset _⟩
    fun B hB _ => ⟨B, rfl, h.sublist B hB⟩
  rw [heq]
  exact ⟨hbase, fun B hB => hleast B hB (h.sublist B hB)⟩

end LexGreedy
