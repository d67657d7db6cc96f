import Mathlib.Data.List.Basic
import Mathlib.Algebra.BigOperators.Group.List.Basic

/-!
# Spans of offsets and buffers overlaid with spans

A span is an offset with a length. `Separated` spans are ascending with a gap between
any two, so an interval they cover lies in one of them (`Separated.one_span`). A `Tiling`
fills an interval without gap or overlap (`Tiling.has`).
`overlay_eq` is the rule for rebuilding a buffer by writing spans into it: if every
write puts the target's own bytes at its span and the spans cover the target, the
result is the target.
-/

namespace Spans

/-- Offset and length. -/
abbrev Span := ℕ × ℕ

/-- The span holds the offset `x`. -/
def Span.Has (r : Span) (x : ℕ) : Prop := r.1 ≤ x ∧ x < r.1 + r.2

/-- Ascending spans that do not even touch. -/
def Separated (l : List Span) : Prop := l.Pairwise fun a b => a.1 + a.2 < b.1

/-- Spans without a common offset. -/
def Apart (a b : Span) : Prop := ∀ x, ¬ (Span.Has a x ∧ Span.Has b x)

theorem Apart.symm {a b : Span} (h : Apart a b) : Apart b a := fun x hx => h x ⟨hx.2, hx.1⟩

theorem apart_of_le {a b : Span} (h : a.1 + a.2 ≤ b.1) : Apart a b := by
  intro x hx
  have h1 := hx.1.2
  have h2 := hx.2.1
  omega

/-- Two spans of a separated list are the same, or one ends before the other starts. -/
theorem Separated.cases {l : List Span} (h : Separated l) {a b : Span} (ha : a ∈ l) (hb : b ∈ l) :
    a = b ∨ a.1 + a.2 < b.1 ∨ b.1 + b.2 < a.1 := by
  induction l with
  | nil => cases ha
  | cons r l ih =>
    have hrel : ∀ x ∈ l, r.1 + r.2 < x.1 := fun x hx => List.rel_of_pairwise_cons h hx
    rcases List.mem_cons.1 ha with rfl | ha' <;> rcases List.mem_cons.1 hb with rfl | hb'
    · exact .inl rfl
    · exact .inr (.inl (hrel _ hb'))
    · exact .inr (.inr (hrel _ ha'))
    · exact ih h.of_cons ha' hb'

/-- An interval covered by separated spans lies in one of them. -/
theorem Separated.one_span {l : List Span} (h : Separated l) {s t : ℕ} (hst : s < t)
    (hcov : ∀ x, s ≤ x → x < t → ∃ r ∈ l, r.Has x) : ∃ r ∈ l, r.1 ≤ s ∧ t ≤ r.1 + r.2 := by
  obtain ⟨r, hr, hs⟩ := hcov s (Nat.le_refl _) hst
  by_cases hend : t ≤ r.1 + r.2
  · exact ⟨r, hr, hs.1, hend⟩
  -- the first offset after `r` is covered by a span that touches `r`
  · obtain ⟨r', hr', hx⟩ := hcov (r.1 + r.2) (Nat.le_of_lt hs.2) (by omega)
    have h1 := hx.1
    have h2 := hx.2
    have h3 := hs.1
    rcases h.cases hr hr' with rfl | hlt | hlt <;> omega

theorem Separated.pairwise_apart {l : List Span} (h : Separated l) : l.Pairwise Apart :=
  List.Pairwise.imp (fun hab => apart_of_le (Nat.le_of_lt hab)) h

/-- Nonempty spans that fill the offsets from `lo` up to `hi`, one after the other. -/
def Tiling : ℕ → ℕ → List Span → Prop
  | lo, hi, [] => lo = hi
  | lo, hi, r :: l => r.1 = lo ∧ 0 < r.2 ∧ Tiling (lo + r.2) hi l

theorem Tiling.le {lo hi : ℕ} {l : List Span} (h : Tiling lo hi l) : lo ≤ hi := by
  induction l generalizing lo with
  | nil => exact Nat.le_of_eq h
  | cons r l ih =>
    have := ih h.2.2
    omega

/-- Every offset of the interval is in a span, and no other is. -/
theorem Tiling.has {lo hi : ℕ} {l : List Span} (h : Tiling lo hi l) (x : ℕ) :
    (lo ≤ x ∧ x < hi) ↔ ∃ r ∈ l, r.Has x := by
  induction l generalizing lo with
  | nil =>
    have he : lo = hi := h
    constructor
    · intro hx
      omega
    · rintro ⟨r, hr, -⟩
      cases hr
  | cons r l ih =>
    obtain ⟨h1, h2, h3⟩ := h
    have hle := h3.le
    rw [List.exists_mem_cons_iff, ← ih h3]
    unfold Span.Has
    omega

theorem Tiling.append {lo mid hi : ℕ} {l l' : List Span} (h : Tiling lo mid l) (h' : Tiling mid hi l') :
    Tiling lo hi (l ++ l') := by
  induction l generalizing lo with
  | nil =>
    have heq : lo = mid := h
    exact heq ▸ h'
  | cons r l ih => exact ⟨h.1, h.2.1, ih h.2.2⟩

/-- The spans of a tiling start in order. -/
theorem Tiling.start_le {lo hi : ℕ} {l : List Span} (h : Tiling lo hi l) : ∀ r ∈ l, lo ≤ r.1 := by
  intro r hr
  induction l generalizing lo with
  | nil => cases hr
  | cons x l ih =>
    rcases List.mem_cons.1 hr with rfl | hr
    · exact Nat.le_of_eq h.1.symm
    · have := ih h.2.2 hr
      omega

/-- No span of a tiling ends beyond it. -/
theorem Tiling.le_end {lo hi : ℕ} {l : List Span} (h : Tiling lo hi l) : ∀ r ∈ l, r.1 + r.2 ≤ hi := by
  intro r hr
  induction l generalizing lo with
  | nil => cases hr
  | cons x l ih =>
    rcases List.mem_cons.1 hr with rfl | hr
    · have hlo := h.1
      have hle := h.2.2.le
      omega
    · exact ih h.2.2 hr

theorem Tiling.nodup {lo hi : ℕ} {l : List Span} (h : Tiling lo hi l) : (l.map Prod.fst).Nodup := by
  induction l generalizing lo with
  | nil => exact List.nodup_nil
  | cons x l ih =>
    rw [List.map_cons, List.nodup_cons]
    refine ⟨fun hx => ?_, ih h.2.2⟩
    obtain ⟨r, hr, heq⟩ := List.mem_map.1 hx
    have hle := h.2.2.start_le r hr
    have hlo := h.1
    have hpos := h.2.1
    omega

/-- Spans that fill an interval in some order. -/
def Fills (lo hi : ℕ) (l : List Span) : Prop := ∃ l', l.Perm l' ∧ Tiling lo hi l'

theorem Fills.perm {lo hi : ℕ} {l l' : List Span} (h : Fills lo hi l) (hp : l.Perm l') : Fills lo hi l' := by
  obtain ⟨t, ht, htile⟩ := h
  exact ⟨t, hp.symm.trans ht, htile⟩

theorem Fills.le {lo hi : ℕ} {l : List Span} (h : Fills lo hi l) : lo ≤ hi := by
  obtain ⟨t, -, htile⟩ := h
  exact htile.le

/-- An empty interval is filled by nothing. -/
theorem Fills.eq_nil {lo : ℕ} {l : List Span} (h : Fills lo lo l) : l = [] := by
  obtain ⟨l', hp, ht⟩ := h
  cases l' with
  | nil => exact hp.eq_nil
  | cons r l' =>
    have hle := ht.2.2.le
    have hpos := ht.2.1
    omega

theorem Fills.append {lo mid hi : ℕ} {l l' : List Span} (h : Fills lo mid l) (h' : Tiling mid hi l') :
    Fills lo hi (l ++ l') := by
  obtain ⟨t, ht, htile⟩ := h
  exact ⟨t ++ l', ht.append_right l', htile.append h'⟩

/-- No two of the spans start at one offset. -/
theorem Fills.nodup {lo hi : ℕ} {l : List Span} (h : Fills lo hi l) : (l.map Prod.fst).Nodup := by
  obtain ⟨t, ht, htile⟩ := h
  exact (ht.map Prod.fst).nodup_iff.2 htile.nodup

/-- An interval that is not empty has a first span. -/
theorem Fills.exists_first {lo hi : ℕ} {l : List Span} (h : Fills lo hi l) (hlt : lo < hi) : ∃ r ∈ l, r.1 = lo := by
  obtain ⟨t, ht, htile⟩ := h
  cases t with
  | nil =>
    have heq : lo = hi := htile
    omega
  | cons r t => exact ⟨r, ht.mem_iff.2 (List.mem_cons_self ..), htile.1⟩

/-- Without its first span the rest fills the rest. -/
theorem Fills.rest {lo hi : ℕ} {r : Span} {l : List Span} (h : Fills lo hi (r :: l)) (hr : r.1 = lo) :
    0 < r.2 ∧ Fills (lo + r.2) hi l := by
  obtain ⟨t, ht, htile⟩ := h
  have hmem : r ∈ t := ht.mem_iff.1 (List.mem_cons_self ..)
  cases t with
  | nil => cases hmem
  | cons x t =>
    have hx : x = r := by
      rcases List.mem_cons.1 hmem with rfl | hmem
      · rfl
      · -- a later span starts later
        have hlater := htile.2.2.start_le r hmem
        have hpos := htile.2.1
        omega
    subst hx
    exact ⟨htile.2.1, t, ht.cons_inv, htile.2.2⟩

section Overlay

variable {α : Type}

/-- Overwriting a buffer from an offset on. -/
def writeAt (buf : List α) (off : ℕ) (bs : List α) : List α :=
  buf.take off ++ bs ++ buf.drop (off + bs.length)

theorem writeAt_length {buf bs : List α} {off : ℕ} (h : off + bs.length ≤ buf.length) :
    (writeAt buf off bs).length = buf.length := by
  simp only [writeAt, List.length_append, List.length_take, List.length_drop]
  omega

theorem getElem?_writeAt {buf bs : List α} {off : ℕ} (h : off + bs.length ≤ buf.length) (x : ℕ) :
    (writeAt buf off bs)[x]? =
      if off ≤ x ∧ x < off + bs.length then bs[x - off]? else buf[x]? := by
  unfold writeAt
  have hlen : (buf.take off).length = off := by rw [List.length_take]; omega
  rw [List.append_assoc, List.getElem?_append, hlen]
  by_cases h1 : x < off
  · rw [if_pos h1, if_neg (by omega), List.getElem?_take, if_pos h1]
  · rw [if_neg h1, List.getElem?_append]
    by_cases h2 : x < off + bs.length
    · rw [if_pos (by omega), if_pos ⟨by omega, h2⟩]
    · rw [if_neg (by omega), if_neg (by omega), List.getElem?_drop]
      congr 1
      omega

/-- A write of the target's own bytes. -/
def Right (target : List α) (w : ℕ × List α) : Prop :=
  w.1 + w.2.length ≤ target.length ∧ w.2 = (target.drop w.1).take w.2.length

/-- Writes applied in order. -/
def overlay (ws : List (ℕ × List α)) (buf : List α) : List α :=
  ws.foldl (fun b w => writeAt b w.1 w.2) buf

theorem Right.getElem? {target : List α} {w : ℕ × List α} (h : Right target w) {x : ℕ}
    (hx : w.1 ≤ x) (hx' : x < w.1 + w.2.length) : w.2[x - w.1]? = target[x]? := by
  rw [h.2, List.getElem?_take, if_pos (by omega), List.getElem?_drop]
  congr 1
  omega

/-- Right writes keep the length and every offset that is already right. -/
theorem overlay_spec {target : List α} (ws : List (ℕ × List α)) (hws : ∀ w ∈ ws, Right target w)
    (buf : List α) (hlen : buf.length = target.length) :
    (overlay ws buf).length = target.length ∧
      ∀ x, (buf[x]? = target[x]? ∨ ∃ w ∈ ws, w.1 ≤ x ∧ x < w.1 + w.2.length) →
        (overlay ws buf)[x]? = target[x]? := by
  induction ws generalizing buf with
  | nil =>
    refine ⟨hlen, fun x hx => ?_⟩
    rcases hx with hx | ⟨w, hw, -⟩
    · exact hx
    · cases hw
  | cons w ws ih =>
    have hw := hws w List.mem_cons_self
    have hfit : w.1 + w.2.length ≤ buf.length := by rw [hlen]; exact hw.1
    obtain ⟨h1, h2⟩ := ih (fun v hv => hws v (List.mem_cons_of_mem _ hv)) (writeAt buf w.1 w.2)
      (by rw [writeAt_length hfit, hlen])
    refine ⟨h1, fun x hx => h2 x ?_⟩
    rw [getElem?_writeAt hfit]
    by_cases hin : w.1 ≤ x ∧ x < w.1 + w.2.length
    · rw [if_pos hin]; exact .inl (hw.getElem? hin.1 hin.2)
    · rw [if_neg hin]
      rcases hx with hx | ⟨v, hv, hx⟩
      · exact .inl hx
      · rcases List.mem_cons.1 hv with rfl | hv
        · exact absurd hx hin
        · exact .inr ⟨v, hv, hx⟩

/-- **Overlay rule.** -/
theorem overlay_eq {target : List α} {ws : List (ℕ × List α)} (hws : ∀ w ∈ ws, Right target w)
    (hcov : ∀ x < target.length, ∃ w ∈ ws, w.1 ≤ x ∧ x < w.1 + w.2.length)
    {buf : List α} (hlen : buf.length = target.length) : overlay ws buf = target := by
  obtain ⟨h1, h2⟩ := overlay_spec ws hws buf hlen
  apply List.ext_getElem?
  intro x
  by_cases hx : x < target.length
  · exact h2 x (.inr (hcov x hx))
  · rw [List.getElem?_eq_none (by omega), List.getElem?_eq_none (by omega)]

end Overlay

end Spans
