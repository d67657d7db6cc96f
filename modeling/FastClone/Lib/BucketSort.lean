import Mathlib.Data.List.Basic
import Mathlib.Data.List.Count

/-!
# Counting sort into contiguous buckets

Items are counted per bucket, the counts are summed into bucket starts, and the
items are placed one by one at the next free slot of their bucket. Counters may
wrap: `wrap` is any function that is the identity below `N`.

* `histogram_getD`: the counting pass counts.
* `sums_getD`: the prefix sums are the bucket starts.
* `fill_bucket`: after the filling pass the slots of a bucket hold exactly its
  items, in the order in which they were placed.
* `foldlM_eq_some`, `fill_checked`: a pass whose accesses are checked has a value, that
  of the plain pass.
* `exists_bucket`: every slot is in the range of exactly one bucket.
-/

namespace BucketSort

variable {α β : Type} (key : α → ℕ)

/-- Number of items of bucket `b`. -/
def load (l : List α) (b : ℕ) : ℕ := l.countP (key · = b)

/-- First slot of bucket `b`. -/
def start (l : List α) (b : ℕ) : ℕ := l.countP (key · < b)

theorem start_succ (l : List α) (b : ℕ) : start key l (b + 1) = start key l b + load key l b := by
  induction l with
  | nil => rfl
  | cons x l ih =>
    simp only [start, load, List.countP_cons, decide_eq_true_eq] at ih ⊢
    split <;> split <;> split <;> omega

theorem start_mono (l : List α) {a b : ℕ} (h : a ≤ b) : start key l a ≤ start key l b :=
  List.countP_mono_left (fun x _ hx => by simp only [decide_eq_true_eq] at hx ⊢; omega)

theorem start_le_length (l : List α) (b : ℕ) : start key l b ≤ l.length := List.countP_le_length

theorem start_eq_length {l : List α} {K : ℕ} (hK : ∀ x ∈ l, key x < K) :
    start key l K = l.length := by
  rw [start, List.countP_eq_length]
  intro x hx
  simpa using hK x hx

/-- Slots of different buckets differ. -/
theorem slot_inj {l : List α} {a b i j : ℕ} (hi : i < load key l a) (hj : j < load key l b)
    (h : start key l a + i = start key l b + j) : a = b := by
  have ha := start_succ key l a
  have hb := start_succ key l b
  rcases Nat.lt_trichotomy a b with hab | hab | hab
  · have := start_mono key l (a := _ + 1) hab
    omega
  · exact hab
  · have := start_mono key l (a := _ + 1) hab
    omega

/-- Every slot below the start of bucket `K` is in the range of exactly one earlier bucket. -/
theorem exists_bucket (l : List α) {K k : ℕ} (hk : k < start key l K) :
    ∃! b, b < K ∧ start key l b ≤ k ∧ k < start key l (b + 1) := by
  induction K with
  | zero => simp [start] at hk
  | succ K ih =>
    by_cases hlast : start key l K ≤ k
    · refine ⟨K, ⟨by omega, hlast, hk⟩, fun b hb => ?_⟩
      -- an earlier bucket ends before the last one starts
      by_contra hne
      have := start_mono key l (show b + 1 ≤ K by omega)
      omega
    · obtain ⟨b, hb, huniq⟩ := ih (by omega)
      refine ⟨b, ⟨by omega, hb.2⟩, fun c hc => ?_⟩
      apply huniq
      have hcK : c ≠ K := by
        rintro rfl
        omega
      exact ⟨by omega, hc.2⟩

/-- A checked pass agrees with the plain one when each of its steps does, along an
invariant of the state and the items done. -/
theorem foldlM_eq_some {step : β → α → β} {checked : β → α → Option β} {l : List α}
    (I : List α → β → Prop)
    (hstep : ∀ done x rest s, done ++ x :: rest = l → I done s →
      checked s x = some (step s x) ∧ I (done ++ [x]) (step s x)) {s : β} (h0 : I [] s) :
    l.foldlM checked s = some (l.foldl step s) := by
  have key : ∀ rest done s, done ++ rest = l → I done s →
      rest.foldlM checked s = some (rest.foldl step s) := by
    intro rest
    induction rest with
    | nil =>
      intro done s _ _
      rfl
    | cons x rest ih =>
      intro done s hl hI
      obtain ⟨h1, h2⟩ := hstep done x rest s hl hI
      rw [List.foldlM_cons, h1, List.foldl_cons]
      exact ih (done ++ [x]) (step s x) (by simpa using hl) h2
  exact key l [] s rfl h0

/-- Passes whose steps agree on the items. -/
theorem foldlM_congr {f g : β → α → Option β} {l : List α} (h : ∀ x ∈ l, ∀ s, f s x = g s x)
    (s : β) : l.foldlM f s = l.foldlM g s := by
  induction l generalizing s with
  | nil => rfl
  | cons x l ih =>
    have hrest : ∀ s, l.foldlM f s = l.foldlM g s := ih fun y hy => h y (List.mem_cons_of_mem _ hy)
    rw [List.foldlM_cons, List.foldlM_cons, h x (List.mem_cons_self ..)]
    exact bind_congr hrest

section Counting

variable {wrap : ℕ → ℕ} {N : ℕ} (hwrap : ∀ n < N, wrap n = n)

/-- The counting pass. -/
def histogram (wrap : ℕ → ℕ) (l : List α) (a : Array ℕ) : Array ℕ :=
  l.foldl (fun a x => a.modify (key x) (wrap <| · + 1)) a

theorem histogram_size (l : List α) (a : Array ℕ) : (histogram key wrap l a).size = a.size := by
  induction l generalizing a with
  | nil => rfl
  | cons x l ih => simp only [histogram, List.foldl_cons] at ih ⊢; rw [ih, Array.size_modify]

theorem getD_modify (a : Array ℕ) (i k : ℕ) (f : ℕ → ℕ) :
    (a.modify i f).getD k 0 = if i = k ∧ k < a.size then f (a.getD k 0) else a.getD k 0 := by
  by_cases hk : k < a.size
  · have hk' : k < (a.modify i f).size := by rwa [Array.size_modify]
    rw [← Array.getElem_eq_getD (h := hk'), ← Array.getElem_eq_getD (h := hk), Array.getElem_modify]
    simp [hk]
  · simp [Array.getD, hk]

include hwrap in
theorem histogram_getD (l : List α) (a : Array ℕ) {k : ℕ} (hk : k < a.size)
    (hb : a.getD k 0 + l.length < N) :
    (histogram key wrap l a).getD k 0 = a.getD k 0 + load key l k := by
  induction l generalizing a with
  | nil => rfl
  | cons x l ih =>
    have hx : (a.modify (key x) (wrap <| · + 1)).getD k 0 =
        a.getD k 0 + if key x = k then 1 else 0 := by
      rw [getD_modify]
      simp only [List.length_cons] at hb
      by_cases h : key x = k
      · rw [if_pos ⟨h, hk⟩, if_pos h, hwrap _ (by omega)]
      · rw [if_neg (fun h' => h h'.1), if_neg h, Nat.add_zero]
    simp only [histogram, List.foldl_cons] at ih ⊢
    have hb' : (a.modify (key x) (wrap <| · + 1)).getD k 0 + l.length < N := by
      rw [List.length_cons] at hb
      have : (if key x = k then 1 else 0) ≤ 1 := by split <;> omega
      omega
    rw [ih _ (by rwa [Array.size_modify]) hb', hx]
    simp only [load, List.countP_cons, decide_eq_true_eq]
    omega

/-- The prefix sums over the first `n` buckets. -/
def sums (wrap : ℕ → ℕ) (n : ℕ) (a : Array ℕ) : Array ℕ :=
  (List.range n).foldl (fun a b => a.modify (b + 1) (wrap <| · + a.getD b 0)) a

theorem sums_succ (n : ℕ) (a : Array ℕ) :
    sums wrap (n + 1) a = (sums wrap n a).modify (n + 1) (wrap <| · + (sums wrap n a).getD n 0) := by
  simp only [sums, List.range_succ, List.foldl_append, List.foldl_cons, List.foldl_nil]

theorem sums_size (n : ℕ) (a : Array ℕ) : (sums wrap n a).size = a.size := by
  induction n with
  | zero => rfl
  | succ n ih => rw [sums_succ, Array.size_modify, ih]

include hwrap in
/-- From the counts (shifted by one slot) to the bucket starts. -/
theorem sums_getD {l : List α} {a : Array ℕ} (hl : l.length < N) (h0 : a.getD 0 0 = 0)
    (ha : ∀ b, b + 1 < a.size → a.getD (b + 1) 0 = load key l b) (n : ℕ) (hn : n < a.size) :
    ∀ k < a.size, (sums wrap n a).getD k 0 = if k ≤ n then start key l k else a.getD k 0 := by
  induction n with
  | zero =>
    intro k _
    by_cases hk : k ≤ 0
    · obtain rfl : k = 0 := by omega
      simp [sums, h0, start]
    · rw [if_neg hk]; rfl
  | succ n ih =>
    intro k hk
    have ih := ih (by omega)
    rw [sums_succ, getD_modify, sums_size]
    by_cases hkn : n + 1 = k
    · subst hkn
      rw [if_pos ⟨rfl, hk⟩, ih _ hk, ih n (by omega), if_neg (by omega), if_pos (Nat.le_refl _),
        if_pos (Nat.le_refl _), ha n hk, start_succ, hwrap]
      · omega
      · have h1 := start_succ key l n
        have h2 := start_le_length key l (n + 1)
        omega
    · rw [if_neg (fun h => hkn h.1), ih k hk]
      by_cases hle : k ≤ n
      · rw [if_pos hle, if_pos (by omega)]
      · rw [if_neg hle, if_neg (by omega)]

end Counting

section Filling

variable (mk : α → β) (wrap : ℕ → ℕ)

/-- Placing one item at the next free slot of its bucket. -/
def place (a : Array β × Array ℕ) (x : α) : Array β × Array ℕ :=
  (a.1.setIfInBounds (a.2.getD (key x) 0) (mk x), a.2.modify (key x) (wrap <| · + 1))

/-- `place`, with no value where the bucket has no counter or the slot is outside. -/
def placeChecked (a : Array β × Array ℕ) (x : α) : Option (Array β × Array ℕ) := do
  let slot ← a.2[key x]?
  if slot < a.1.size then some (place key mk wrap a x) else none

/-- The items `done` have been placed, out of the items `l`. -/
structure Placed (l done : List α) (K : ℕ) (a : Array β × Array ℕ) : Prop where
  size : a.1.size = l.length
  free : a.2.size = K
  pos : ∀ b < K, a.2.getD b 0 = start key l b + load key done b
  slot : ∀ b j x, (done.filter (key · = b))[j]? = some x → a.1[start key l b + j]? = some (mk x)

variable {key mk wrap} {l : List α} {K N : ℕ}

/-- The next slot of a bucket with room is inside. -/
theorem Placed.slot_lt {done : List α} {a : Array β × Array ℕ} (h : Placed key mk l done K a)
    {x : α} (hx : key x < K) (hfit : load key done (key x) < load key l (key x)) :
    a.2.getD (key x) 0 < a.1.size := by
  rw [h.pos _ hx, h.size]
  have h1 := start_succ key l (key x)
  have h2 := start_le_length key l (key x + 1)
  omega

theorem Placed.placeChecked {done : List α} {a : Array β × Array ℕ} (h : Placed key mk l done K a)
    {x : α} (hx : key x < K) (hfit : load key done (key x) < load key l (key x)) :
    placeChecked key mk wrap a x = some (place key mk wrap a x) := by
  have hslot := h.slot_lt hx hfit
  have hget : a.2[key x]? = some (a.2.getD (key x) 0) := by
    have hx' : key x < a.2.size := by rw [h.free]; exact hx
    rw [Array.getElem?_eq_getElem hx', Array.getElem_eq_getD 0]
  simp only [BucketSort.placeChecked, hget, Option.bind_eq_bind, Option.bind_some]
  exact if_pos hslot

theorem Placed.step {done : List α} {a : Array β × Array ℕ} (hwrap : ∀ n < N, wrap n = n)
    (hl : l.length < N) (h : Placed key mk l done K a) {x : α} (hx : key x < K)
    (hfit : load key done (key x) < load key l (key x))
    (hle : ∀ b, load key done b ≤ load key l b) :
    Placed key mk l (done ++ [x]) K (place key mk wrap a x) := by
  have hslot : a.2.getD (key x) 0 < l.length := by
    rw [← h.size]
    exact h.slot_lt hx hfit
  refine ⟨by simp [place, h.size], by simp [place, h.free], ?_, ?_⟩
  · intro b hb
    simp only [place, getD_modify, h.free]
    by_cases hxb : key x = b
    · subst hxb
      rw [if_pos ⟨rfl, hb⟩, hwrap _ (by omega), h.pos _ hb]
      simp [load, List.countP_append]
      omega
    · rw [if_neg (fun h' => hxb h'.1), h.pos _ hb]
      simp [load, List.countP_append, hxb]
  · intro b j y hy
    have hlen : (done.filter (key · = b)).length = load key done b := by
      rw [load, List.countP_eq_length_filter]
    simp only [place, List.filter_append, List.getElem?_append] at hy ⊢
    rw [hlen] at hy
    rw [Array.getElem?_setIfInBounds, h.pos _ hx]
    split at hy
    · -- an item placed before: its slot is not the one written now
      rename_i hj
      rw [if_neg]
      · exact h.slot b j y hy
      · intro heq
        obtain rfl := slot_inj key hfit (by have := hle b; omega) heq
        omega
    · rename_i hj
      by_cases hxb : key x = b
      · subst hxb
        simp only [decide_true, List.filter_cons_of_pos, List.filter_nil] at hy
        have hj0 : j - load key done (key x) = 0 := by
          rcases Nat.eq_zero_or_pos (j - load key done (key x)) with h0 | h0
          · exact h0
          · rw [List.getElem?_eq_none (by simp; omega)] at hy; cases hy
        rw [hj0] at hy
        simp only [List.getElem?_cons_zero, Option.some.injEq] at hy
        subst hy
        rw [if_pos (by omega), if_pos (by rw [h.size, ← h.pos _ hx]; exact hslot)]
      · simp [hxb] at hy

/-- While items are left to place, each bucket has room for its own. -/
theorem load_of_perm (key : α → ℕ) {done rest : List α} {x : α} (hperm : (done ++ x :: rest).Perm l) :
    load key done (key x) < load key l (key x) ∧ ∀ b, load key done b ≤ load key l b := by
  have hcount : ∀ b, load key l b = load key done b + load key (x :: rest) b := by
    intro b
    rw [load, ← hperm.countP_eq, List.countP_append]
    rfl
  refine ⟨?_, fun b => by have := hcount b; omega⟩
  have hone := hcount (key x)
  simp only [load, List.countP_cons, decide_true, if_true] at hone ⊢
  omega

theorem Placed.foldl {done rest : List α} {a : Array β × Array ℕ} (hwrap : ∀ n < N, wrap n = n)
    (hl : l.length < N) (hperm : (done ++ rest).Perm l) (hK : ∀ x ∈ l, key x < K)
    (h : Placed key mk l done K a) :
    Placed key mk l (done ++ rest) K (rest.foldl (place key mk wrap) a) := by
  induction rest generalizing done a with
  | nil => simpa using h
  | cons x rest ih =>
    obtain ⟨hfit, hle⟩ := load_of_perm key hperm
    have hxl : x ∈ l := hperm.subset (by simp)
    have hone := h.step hwrap hl (hK x hxl) hfit hle
    have := ih (by simpa using hperm) hone
    simpa using this

/-- The filling pass with its accesses checked. -/
theorem fill_checked {order : List α} {entries : Array β} {pos : Array ℕ}
    (hwrap : ∀ n < N, wrap n = n) (hl : l.length < N) (hperm : order.Perm l)
    (hK : ∀ x ∈ l, key x < K) (hsize : entries.size = l.length) (hfree : pos.size = K)
    (hpos : ∀ b < K, pos.getD b 0 = start key l b) :
    order.foldlM (placeChecked key mk wrap) (entries, pos) =
      some (order.foldl (place key mk wrap) (entries, pos)) := by
  apply foldlM_eq_some (fun done a => Placed key mk l done K a)
  · intro done x rest a horder h
    have hperm' : (done ++ x :: rest).Perm l := horder ▸ hperm
    obtain ⟨hfit, hle⟩ := load_of_perm key hperm'
    have hx : key x < K := hK x (hperm.subset (by simp [← horder]))
    exact ⟨h.placeChecked hx hfit, h.step hwrap hl hx hfit hle⟩
  · exact ⟨hsize, hfree, fun b hb => by simpa [load] using hpos b hb, by simp⟩

/-- After the filling pass the slots of bucket `b` hold its items, in placing order. -/
theorem fill_bucket {order : List α} {entries : Array β} {pos : Array ℕ} (hwrap : ∀ n < N, wrap n = n)
    (hl : l.length < N) (hperm : order.Perm l) (hK : ∀ x ∈ l, key x < K)
    (hsize : entries.size = l.length) (hfree : pos.size = K)
    (hpos : ∀ b < K, pos.getD b 0 = start key l b) (b : ℕ) :
    ((order.foldl (place key mk wrap) (entries, pos)).1.toList.take (start key l (b + 1))).drop
      (start key l b) = (order.filter (key · = b)).map mk := by
  have h0 : Placed key mk l [] K (entries, pos) :=
    ⟨hsize, hfree, fun b hb => by simpa [load] using hpos b hb, by simp⟩
  have h := h0.foldl hwrap hl (by simpa using hperm) hK
  rw [List.nil_append] at h
  have hcnt : (order.filter (key · = b)).length = load key l b := by
    rw [← List.countP_eq_length_filter, hperm.countP_eq]; rfl
  have hst := start_succ key l b
  have hle := start_le_length key l (b + 1)
  apply List.ext_getElem?
  intro j
  rw [List.getElem?_drop, List.getElem?_take, List.getElem?_map]
  by_cases hj : j < load key l b
  · have hget : (order.filter (key · = b))[j]? = some ((order.filter (key · = b))[j]) :=
      List.getElem?_eq_getElem (by omega)
    rw [if_pos (by omega), Array.getElem?_toList, h.slot b j _ hget, hget]
    rfl
  · rw [if_neg (by omega), List.getElem?_eq_none (by omega)]
    rfl

end Filling

end BucketSort
