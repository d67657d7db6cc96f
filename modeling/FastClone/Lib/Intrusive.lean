import Mathlib.Logic.Function.Basic
import Mathlib.Data.List.Nodup
import Mathlib.Data.Nat.Notation

/-!
# Intrusive doubly linked lists

The links of such a list live in its nodes; a node is its address. `Spells` says which list
of nodes a chain of links holds, and the two operations are proved against it: `link` puts a
node at the end, `unlink` takes any node out, both without touching the others.
-/

namespace Intrusive

/-- The ends of the list, the links in the nodes, and the count of the nodes. -/
structure Chain (α : Type) where
  head : Option α
  tail : Option α
  prev : α → Option α
  next : α → Option α
  count : ℕ

/-- No node is linked. -/
def Chain.empty (α : Type) : Chain α := ⟨none, none, fun _ => none, fun _ => none, 0⟩

namespace Chain

variable {α : Type}

/-- The chain holds the nodes of `l`, in this order. -/
structure Spells (c : Chain α) (l : List α) : Prop where
  nodup : l.Nodup
  head : c.head = l.head?
  tail : c.tail = l.getLast?
  count : c.count = l.length
  around : ∀ a x b, l = a ++ x :: b → c.prev x = a.getLast? ∧ c.next x = b.head?

theorem spells_empty : (Chain.empty α).Spells [] where
  nodup := List.nodup_nil
  head := rfl
  tail := rfl
  count := rfl
  around := by
    intro a x b h
    cases a <;> cases h

variable [DecidableEq α]

/-- Put a node at the end. -/
def link (c : Chain α) (x : α) : Chain α :=
  let prev := Function.update c.prev x c.tail
  let next := Function.update c.next x none
  match c.tail with
  | some t =>
    { c with
      prev := prev
      next := Function.update next t (some x)
      tail := some x
      count := c.count + 1 }
  | none =>
    { head := some x
      tail := some x
      prev := prev
      next := next
      count := c.count + 1 }

/-- Take a node out. A node without links that is not the head is left alone. -/
def unlink (c : Chain α) (x : α) : Chain α :=
  if c.prev x = none ∧ c.next x = none ∧ c.head ≠ some x then c
  else
    let c := match c.prev x with
      | some p => { c with next := Function.update c.next p (c.next x) }
      | none => if c.head = some x then { c with head := c.next x } else c
    let c := match c.next x with
      | some n => { c with prev := Function.update c.prev n (c.prev x) }
      | none => if c.tail = some x then { c with tail := c.prev x } else c
    { c with
      prev := Function.update c.prev x none
      next := Function.update c.next x none
      count := c.count - 1 }

variable {c : Chain α} {l : List α}

theorem link_fields (c : Chain α) (x : α) :
    (c.link x).tail = some x ∧ (c.link x).count = c.count + 1 ∧
      (c.link x).prev = Function.update c.prev x c.tail := by
  unfold link
  dsimp only
  split <;> exact ⟨rfl, rfl, by simp_all⟩

/-- **A linked node is the last.** -/
theorem Spells.link (h : c.Spells l) {x : α} (hx : x ∉ l) : (c.link x).Spells (l ++ [x]) := by
  obtain ⟨htail, hcount, hprev⟩ := link_fields c x
  refine ⟨?_, ?_, ?_, ?_, ?_⟩
  · refine List.nodup_append.2 ⟨h.nodup, List.nodup_singleton x, fun y hy z hz => ?_⟩
    rw [List.mem_singleton.1 hz]
    rintro rfl
    exact hx hy
  · unfold Chain.link
    cases hl : l.getLast? with
    | none =>
      have hnil := List.getLast?_eq_none_iff.1 hl
      rw [h.tail, hl, hnil]
      rfl
    | some t =>
      have hne : l ≠ [] := by
        rintro rfl
        cases hl
      rw [h.tail, hl]
      dsimp only
      rw [h.head, List.head?_append_of_ne_nil _ hne]
  · rw [htail, List.getLast?_append]
    rfl
  · rw [hcount, h.count, List.length_append]
    rfl
  · intro a y b hsplit
    rcases List.eq_nil_or_concat b with rfl | ⟨b', z, rfl⟩
    · -- the new node itself
      have hy : l = a ∧ [x] = [y] := List.append_inj' hsplit rfl
      obtain ⟨rfl, hxy⟩ := hy
      cases hxy
      refine ⟨?_, ?_⟩
      · rw [hprev, Function.update_self, h.tail]
      · unfold Chain.link
        cases ht : c.tail with
        | none => simp
        | some t =>
          have hmem : t ∈ l := List.mem_of_getLast? (h.tail ▸ ht)
          have hne : x ≠ t := by
            rintro rfl
            exact hx hmem
          simp [Function.update_of_ne hne]
    · -- a node that was there before
      rw [List.concat_eq_append, ← List.cons_append, ← List.append_assoc] at hsplit
      have hy := List.append_inj' hsplit rfl
      obtain ⟨rfl, hxz⟩ := hy
      cases hxz
      obtain ⟨hp, hn⟩ := h.around a y b' rfl
      have hyx : y ≠ x := by
        rintro rfl
        exact hx (by simp)
      refine ⟨?_, ?_⟩
      · rw [hprev, Function.update_of_ne hyx, hp]
      · have ht : c.tail = (y :: b').getLast? := by
          rw [h.tail, List.getLast?_append_of_ne_nil _ (List.cons_ne_nil y b')]
        unfold Chain.link
        rw [ht]
        cases b' with
        | nil => simp
        | cons z b' =>
          -- the last node is behind `y`
          obtain ⟨t, hlast⟩ : ∃ t, (y :: z :: b').getLast? = some t := by
            rw [← Option.isSome_iff_exists]
            simp
          have hmem : t ∈ z :: b' := by
            rw [List.getLast?_cons_cons] at hlast
            exact List.mem_of_getLast? hlast
          have hnd := (List.nodup_append.1 h.nodup).2.1
          have hyt : y ≠ t := by
            rintro rfl
            exact (List.nodup_cons.1 hnd).1 hmem
          rw [hlast]
          dsimp only
          rw [Function.update_of_ne hyt, Function.update_of_ne hyx, hn]
          simp

/-- The fields after an unlinking that is not passed over, with the node in its place. -/
theorem Spells.unlink_fields {x : α} {a b : List α} (h : c.Spells (a ++ x :: b)) :
    (c.unlink x).head = (a ++ b).head? ∧ (c.unlink x).tail = (a ++ b).getLast? ∧
      (c.unlink x).count = (a ++ b).length ∧
      (c.unlink x).prev = Function.update
        (match b.head? with
          | some n => Function.update c.prev n a.getLast?
          | none => c.prev) x none ∧
      (c.unlink x).next = Function.update
        (match a.getLast? with
          | some p => Function.update c.next p b.head?
          | none => c.next) x none := by
  obtain ⟨hp, hn⟩ := h.around a x b rfl
  have hcount : c.count - 1 = (a ++ b).length := by
    rw [h.count]
    simp only [List.length_append, List.length_cons]
    omega
  -- a node in its place is passed over by none of the tests
  have hguard : ¬ (c.prev x = none ∧ c.next x = none ∧ c.head ≠ some x) := by
    rintro ⟨h1, -, h3⟩
    rw [hp, List.getLast?_eq_none_iff] at h1
    subst h1
    exact h3 h.head
  unfold unlink
  rw [if_neg hguard]
  -- `x` is the first or has one before it, and in each case the last or has one behind it
  cases hlast : a.getLast? with
  | none =>
    have ha := List.getLast?_eq_none_iff.1 hlast
    subst ha
    have hhead : c.head = some x := h.head
    rw [hp, hlast]
    dsimp only
    rw [if_pos hhead]
    cases b with
    | nil =>
      have ht : c.tail = some x := h.tail
      simp [hn, ht, hp, hcount]
    | cons n b =>
      have ht : c.tail = (n :: b).getLast? := by
        rw [h.tail]
        simp [List.getLast?_cons_cons]
      simp [hn, ht, hp, hcount]
  | some p =>
    have hpx : x ≠ p := by
      rintro rfl
      have hmem := List.mem_of_getLast? hlast
      have hnd := List.nodup_append.1 h.nodup
      exact hnd.2.2 x hmem x List.mem_cons_self rfl
    have hne : a ≠ [] := by
      rintro rfl
      cases hlast
    have hhead : c.head = (a ++ b).head? := by
      rw [h.head, List.head?_append_of_ne_nil _ hne, List.head?_append_of_ne_nil _ hne]
    rw [hp, hlast]
    dsimp only
    rw [Function.update_of_ne hpx]
    cases b with
    | nil =>
      have ht : c.tail = some x := by
        rw [h.tail]
        simp
      simp [hn, ht, hp, hlast, hhead, hcount]
    | cons n b =>
      have ht : c.tail = (a ++ n :: b).getLast? := by
        rw [h.tail]
        simp [List.getLast?_append, List.getLast?_cons_cons]
      simp [hn, ht, hp, hlast, hhead, hcount]

/-- **Unlinking takes one node out of its place.** -/
theorem Spells.unlink {x : α} {a b : List α} (h : c.Spells (a ++ x :: b)) :
    (c.unlink x).Spells (a ++ b) := by
  obtain ⟨hhead, htail, hcount, hprev, hnext⟩ := h.unlink_fields
  obtain ⟨ha, hxb, hab⟩ := List.nodup_append.1 h.nodup
  obtain ⟨hxb, hb⟩ := List.nodup_cons.1 hxb
  have hxa : x ∉ a := fun hx => hab x hx x List.mem_cons_self rfl
  have hdisj : ∀ y ∈ a, ∀ z ∈ b, y ≠ z := fun y hy z hz => hab y hy z (List.mem_cons_of_mem x hz)
  refine ⟨List.nodup_append.2 ⟨ha, hb, hdisj⟩, hhead, htail, hcount, ?_⟩
  intro a' y b' hsplit
  rw [hprev, hnext]
  rcases List.append_eq_append_iff.1 hsplit with ⟨m, rfl, rfl⟩ | ⟨m, rfl, hm⟩
  · -- the node stood behind `x`
    have hyx : y ≠ x := by
      rintro rfl
      exact hxb (by simp)
    obtain ⟨hp, hn⟩ := h.around (a ++ x :: m) y b' (by simp)
    refine ⟨?_, ?_⟩
    · rw [Function.update_of_ne hyx]
      cases m with
      | nil => simp
      | cons n m =>
        have hyn : y ≠ n := by
          rintro rfl
          exact (List.nodup_cons.1 hb).1 (by simp)
        simp only [List.cons_append, List.head?_cons]
        rw [Function.update_of_ne hyn, hp, List.getLast?_append_of_ne_nil _ (List.cons_ne_nil x _),
          List.getLast?_append_of_ne_nil _ (List.cons_ne_nil n _), List.getLast?_cons_cons]
    · rw [Function.update_of_ne hyx]
      cases hl : a.getLast? with
      | none => exact hn
      | some p =>
        have hyp : y ≠ p := by
          rintro rfl
          exact hdisj y (List.mem_of_getLast? hl) y (by simp) rfl
        dsimp only
        rw [Function.update_of_ne hyp, hn]
  · rcases m with _ | ⟨z, m⟩
    · -- the node stood right behind `x`
      subst hm
      have hyx : y ≠ x := by
        rintro rfl
        exact hxb (by simp)
      obtain ⟨hp, hn⟩ := h.around ((a' ++ []) ++ [x]) y b' (by simp)
      refine ⟨?_, ?_⟩
      · rw [Function.update_of_ne hyx]
        simp
      · rw [Function.update_of_ne hyx]
        cases hl : (a' ++ []).getLast? with
        | none => exact hn
        | some p =>
          have hyp : y ≠ p := by
            rintro rfl
            exact hdisj y (List.mem_of_getLast? hl) y (by simp) rfl
          dsimp only
          rw [Function.update_of_ne hyp, hn]
    · -- the node stood before `x`
      obtain ⟨rfl, rfl⟩ := List.cons.inj hm
      have hyx : y ≠ x := by
        rintro rfl
        exact hxa (by simp)
      obtain ⟨hp, hn⟩ := h.around a' y (m ++ x :: b) (by simp)
      refine ⟨?_, ?_⟩
      · rw [Function.update_of_ne hyx]
        cases b with
        | nil => exact hp
        | cons n b =>
          have hyn : y ≠ n := hdisj y (by simp) n List.mem_cons_self
          simp only [List.head?_cons]
          rw [Function.update_of_ne hyn, hp]
      · rw [Function.update_of_ne hyx, List.getLast?_append_of_ne_nil _ (List.cons_ne_nil y m)]
        cases m with
        | nil => simp
        | cons z m =>
          obtain ⟨t, ht⟩ : ∃ t, (z :: m).getLast? = some t := by
            rw [← Option.isSome_iff_exists]
            simp
          have hyt : y ≠ t := by
            rintro rfl
            have hnd := (List.nodup_append.1 ha).2.1
            exact (List.nodup_cons.1 hnd).1 (List.mem_of_getLast? ht)
          rw [List.getLast?_cons_cons, ht]
          dsimp only
          rw [Function.update_of_ne hyt, hn]
          simp

/-- Unlinking the nodes that satisfy `p`, front to back, leaves the others in their order. -/
theorem Spells.unlink_filter (h : c.Spells l) (p : α → Bool) :
    ((l.filter p).foldl Chain.unlink c).Spells (l.filter fun x => !p x) := by
  -- `a` are the nodes passed so far
  suffices hgen : ∀ (b a : List α) (c : Chain α), c.Spells (a ++ b) →
      ((b.filter p).foldl Chain.unlink c).Spells (a ++ b.filter fun x => !p x) by
    exact hgen l [] c h
  intro b
  induction b with
  | nil =>
    intro a c h
    exact h
  | cons x b ih =>
    intro a c h
    cases hx : p x with
    | true =>
      rw [List.filter_cons_of_pos hx, List.filter_cons_of_neg (by simp [hx])]
      exact ih a (c.unlink x) h.unlink
    | false =>
      rw [List.filter_cons_of_neg (by simp [hx]), List.filter_cons_of_pos (by simp [hx])]
      have := ih (a ++ [x]) c (by simpa using h)
      simpa using this

end Chain

end Intrusive
