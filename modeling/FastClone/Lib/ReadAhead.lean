import Mathlib.Data.List.Infix

/-!
# Reading ahead

A reader that needs the items of a source up to some end asks for a chunk at a time, and for all
that is missing where that is more. What it asks for depends on what came so far, so the reads of a
list of loads are fixed by the source alone.

* `fill_served`: reads that bring what stands in a text, each something, extend a beginning of it.
* `fills_served`, `fills_le`: a source that delivers a text serves the loads that end inside it, and
  no others.
* `mem_fills_drip`: a source that delivers one item a read is asked once for the last item of
  every load.
-/

namespace ReadAhead

variable {σ α : Type*}

/-- One read: what was loaded before, how much was asked for, and what came. -/
structure Read (α : Type*) where
  loaded : ℕ
  want : ℕ
  items : List α
  deriving DecidableEq, Repr

/-- The reads from `n` loaded items up to `last`, and the source behind them. One that brings nothing
is the last. -/
def fill (read : σ → ℕ → List α × σ) (chunk last : ℕ) (s : σ) (n : ℕ) : List (Read α) × σ :=
  if n < last then
    let want := max chunk (last - n)
    let r := read s want
    if r.1.length = 0 then ([⟨n, want, r.1⟩], r.2)
    else
      let rest := fill read chunk last r.2 (n + r.1.length)
      (⟨n, want, r.1⟩ :: rest.1, rest.2)
  else ([], s)
termination_by last - n
decreasing_by
  rename_i hlt hx
  have hpos : 0 < (read s (max chunk (last - n))).1.length := Nat.pos_of_ne_zero hx
  omega

/-- What the reads brought. -/
def brought (l : List (Read α)) : List α := l.flatMap Read.items

/-- The reads of a list of loads, each with its tag. -/
def fills {β : Type*} (read : σ → ℕ → List α × σ) (chunk : ℕ) : List (β × ℕ) → σ → ℕ → List (β × Read α)
  | [], _, _ => []
  | (b, last) :: l, s, n =>
    let r := fill read chunk last s n
    r.1.map (fun x => (b, x)) ++ fills read chunk l r.2 (n + (brought r.1).length)

/-- Every read brings something, as it stands in `f`. -/
def Served (f : List α) (l : List (Read α)) : Prop := ∀ r ∈ l, r.items ≠ [] ∧ r.items <+: f.drop r.loaded

/-- The source delivers what remains, in order, in non-empty pieces. -/
def Delivers (read : σ → ℕ → List α × σ) (remaining : σ → List α) : Prop :=
  ∀ s n, remaining s = (read s n).1 ++ remaining (read s n).2 ∧ (0 < n → remaining s ≠ [] → (read s n).1 ≠ [])

variable {read : σ → ℕ → List α × σ} {remaining : σ → List α} {chunk last n : ℕ} {s : σ} {f g : List α}

@[simp] theorem brought_nil : brought ([] : List (Read α)) = [] := rfl

@[simp] theorem brought_cons (r : Read α) (l : List (Read α)) : brought (r :: l) = r.items ++ brought l := List.flatMap_cons

/-! ### One load -/

theorem fill_loaded (h : last ≤ n) : fill read chunk last s n = ([], s) := by
  rw [fill, if_neg (by omega)]

theorem mem_fill {r : Read α} (hr : r ∈ (fill read chunk last s n).1) : n ≤ r.loaded ∧ r.loaded < last := by
  fun_induction fill read chunk last s n with
  | case1 s n h want x hx =>
    obtain rfl := List.mem_singleton.1 hr
    exact ⟨le_rfl, h⟩
  | case2 s n h want x hx rest ih =>
    rcases List.mem_cons.1 hr with rfl | hr
    · exact ⟨le_rfl, h⟩
    · have hrest := ih hr
      exact ⟨by omega, hrest.2⟩
  | case3 s n h => exact absurd hr List.not_mem_nil

/-- The load reaches its end exactly if every read brings something. -/
theorem fill_reaches : (∀ r ∈ (fill read chunk last s n).1, r.items ≠ []) ↔
    last ≤ n + (brought (fill read chunk last s n).1).length := by
  fun_induction fill read chunk last s n with
  | case1 s n h want x hx =>
    rw [brought_cons, brought_nil, List.append_nil, List.forall_mem_singleton, hx]
    exact iff_of_false (fun hne => hne (List.eq_nil_of_length_eq_zero hx)) (by omega)
  | case2 s n h want x hx rest ih =>
    have hne : x.1 ≠ [] := fun hnil => hx (List.length_eq_zero_iff.2 hnil)
    rw [List.forall_mem_cons, brought_cons, List.length_append, ← Nat.add_assoc]
    exact (and_iff_right hne).trans ih
  | case3 s n h => exact iff_of_true (fun r hr => absurd hr List.not_mem_nil) (by rw [brought_nil, List.length_nil]; omega)

/-- Reads that bring what stands in `f` extend a beginning of it. -/
theorem fill_served (hg : g <+: f) (hn : g.length = n) : Served f (fill read chunk last s n).1 ↔
    (∀ r ∈ (fill read chunk last s n).1, r.items ≠ []) ∧ g ++ brought (fill read chunk last s n).1 <+: f := by
  -- what a read brings stands in `f` where `g` ends
  have hpiece : ∀ {g x : List α}, g <+: f → (x <+: f.drop g.length ↔ g ++ x <+: f) := by
    rintro g x ⟨t, rfl⟩
    rw [List.drop_left, List.prefix_append_right_inj]
  revert g
  fun_induction fill read chunk last s n with
  | case1 s n h want x =>
    rename_i hx
    intro g hg hn
    have hnil : x.1 = [] := List.eq_nil_of_length_eq_zero hx
    exact iff_of_false (fun hs => (hs _ (List.mem_singleton_self _)).1 hnil)
      (fun hs => hs.1 _ (List.mem_singleton_self _) hnil)
  | case2 s n h want x hx rest =>
    rename_i ih
    intro g hg hn
    have hne : x.1 ≠ [] := fun hnil => hx (List.length_eq_zero_iff.2 hnil)
    rw [brought_cons, ← List.append_assoc]
    unfold Served
    rw [List.forall_mem_cons, List.forall_mem_cons]
    dsimp only
    constructor
    · rintro ⟨⟨-, hx⟩, hrest⟩
      have hgx : g ++ x.1 <+: f := (hpiece hg).1 (hn ▸ hx)
      obtain ⟨h1, h2⟩ := (ih hgx (by rw [List.length_append, hn])).1 hrest
      exact ⟨⟨hne, h1⟩, h2⟩
    · rintro ⟨⟨-, h1⟩, h2⟩
      have hgx : g ++ x.1 <+: f := (List.prefix_append _ _).trans h2
      exact ⟨⟨hne, hn ▸ (hpiece hg).2 hgx⟩, (ih hgx (by rw [List.length_append, hn])).2 ⟨h1, h2⟩⟩
  | case3 s n h =>
    intro g hg hn
    refine iff_of_true (fun r hr => absurd hr List.not_mem_nil) ⟨fun r hr => absurd hr List.not_mem_nil, ?_⟩
    rwa [brought_nil, List.append_nil]

/-- What was delivered is gone from what remains. -/
theorem fill_remaining (hd : Delivers read remaining) :
    remaining s = brought (fill read chunk last s n).1 ++ remaining (fill read chunk last s n).2 := by
  fun_induction fill read chunk last s n with
  | case1 s n h want x hx =>
    rw [brought_cons, brought_nil, List.append_nil]
    exact (hd s want).1
  | case2 s n h want x hx rest ih =>
    rw [brought_cons, List.append_assoc]
    dsimp only
    rw [← ih]
    exact (hd s want).1
  | case3 s n h => rfl

/-- A source that has enough left brings something at every read. -/
theorem fill_delivered (hd : Delivers read remaining) (hlast : last ≤ n + (remaining s).length) :
    ∀ r ∈ (fill read chunk last s n).1, r.items ≠ [] := by
  fun_induction fill read chunk last s n with
  | case1 s n h want x hx =>
    exfalso
    have hrem : remaining s ≠ [] := by
      intro hnil
      rw [hnil, List.length_nil] at hlast
      omega
    exact (hd s want).2 (by omega) hrem (List.eq_nil_of_length_eq_zero hx)
  | case2 s n h want x hx rest ih =>
    rw [List.forall_mem_cons]
    refine ⟨fun hnil => hx (List.length_eq_zero_iff.2 hnil), ih ?_⟩
    have hlen : (remaining s).length = x.1.length + (remaining x.2).length := by
      rw [(hd s want).1, List.length_append]
    omega
  | case3 s n h => exact fun r hr => absurd hr List.not_mem_nil

/-! ### A list of loads -/

section Loads

variable {β : Type*} {loads : List (β × ℕ)}

theorem mem_fills {x : β × Read α} (hx : x ∈ fills read chunk loads s n) :
    ∃ last, (x.1, last) ∈ loads ∧ x.2.loaded < last := by
  induction loads generalizing s n with
  | nil => exact absurd hx List.not_mem_nil
  | cons load loads ih =>
    obtain ⟨b, last⟩ := load
    rcases List.mem_append.1 hx with hx | hx
    · obtain ⟨r, hr, rfl⟩ := List.mem_map.1 hx
      exact ⟨last, List.mem_cons_self, (mem_fill hr).2⟩
    · obtain ⟨last', hmem, hlt⟩ := ih hx
      exact ⟨last', List.mem_cons_of_mem _ hmem, hlt⟩

/-- A statement on all reads, load by load. -/
theorem forall_fills_cons {b : β} {P : β × Read α → Prop} :
    (∀ x ∈ fills read chunk ((b, last) :: loads) s n, P x) ↔
      (∀ r ∈ (fill read chunk last s n).1, P (b, r)) ∧
        ∀ x ∈ fills read chunk loads (fill read chunk last s n).2
          (n + (brought (fill read chunk last s n).1).length), P x := by
  rw [fills, List.forall_mem_append]
  exact and_congr_left fun _ => List.forall_mem_map

/-- **A source that delivers a text serves the loads that end inside it.** -/
theorem fills_served (hd : Delivers read remaining) (hg : g ++ remaining s <+: f) (hn : g.length = n)
    (hle : ∀ load ∈ loads, load.2 ≤ (g ++ remaining s).length) :
    ∀ x ∈ fills read chunk loads s n, x.2.items ≠ [] ∧ x.2.items <+: f.drop x.2.loaded := by
  induction loads generalizing g s n with
  | nil => exact fun x hx => absurd hx List.not_mem_nil
  | cons load loads ih =>
    obtain ⟨b, last⟩ := load
    have hrem : g ++ remaining s = (g ++ brought (fill read chunk last s n).1) ++ remaining (fill read chunk last s n).2 := by
      rw [List.append_assoc, ← fill_remaining hd]
    rw [List.forall_mem_cons] at hle
    rw [forall_fills_cons]
    refine ⟨(fill_served ((List.prefix_append _ _).trans hg) hn).2 ⟨fill_delivered hd ?_, ?_⟩, ?_⟩
    · have hfirst := hle.1
      rw [List.length_append] at hfirst
      omega
    · exact (List.prefix_append _ _).trans (hrem ▸ hg)
    · exact ih (hrem ▸ hg) (by rw [List.length_append, hn]) (hrem ▸ hle.2)

/-- A source that delivers a text serves no load that ends beyond it. -/
theorem fills_le (hd : Delivers read remaining) (hn : g.length = n)
    (hs : ∀ x ∈ fills read chunk loads s n, x.2.items ≠ []) : ∀ load ∈ loads, load.2 ≤ (g ++ remaining s).length := by
  induction loads generalizing g s n with
  | nil => exact fun x hx => absurd hx List.not_mem_nil
  | cons load loads ih =>
    obtain ⟨b, last⟩ := load
    rw [forall_fills_cons] at hs
    have hrem : g ++ remaining s = (g ++ brought (fill read chunk last s n).1) ++ remaining (fill read chunk last s n).2 := by
      rw [List.append_assoc, ← fill_remaining hd]
    rw [List.forall_mem_cons, hrem]
    refine ⟨?_, ih (by rw [List.length_append, hn]) hs.2⟩
    have hreach := fill_reaches.1 hs.1
    rw [List.length_append, List.length_append]
    omega

/-! ### One item a read -/

/-- A text, delivered one item a read. -/
def drip (s : List α) (n : ℕ) : List α × List α := (s.take (min n 1), s.drop (min n 1))

theorem drip_delivers : Delivers (drip (α := α)) id := by
  intro s n
  refine ⟨(List.take_append_drop _ s).symm, fun hn hs h => ?_⟩
  rcases List.take_eq_nil_iff.1 h with h | h
  · omega
  · exact hs h

/-- The last read of a load asks for its last item only. -/
theorem fill_drip {text : List α} (hlt : n < last) (hle : last ≤ n + text.length) :
    (∃ r ∈ (fill drip chunk last text n).1, r.loaded + 1 = last) ∧
      n + (brought (fill drip chunk last text n).1).length = last ∧
      last + ((fill drip chunk last text n).2).length = n + text.length := by
  have hread : ∀ {text : List α} {want : ℕ}, 0 < want → 0 < text.length → (drip text want).1.length = 1 := by
    intro text want hw ht
    unfold drip
    rw [List.length_take]
    omega
  induction hk : last - n generalizing n text with
  | zero => omega
  | succ k ih =>
    have hone := @hread text (max chunk (last - n)) (by omega) (by omega)
    have hrest : (drip text (max chunk (last - n))).2.length = text.length - 1 := by
      unfold drip
      rw [List.length_drop]
      omega
    rw [fill, if_pos hlt]
    dsimp only
    rw [if_neg (by omega), hone, brought_cons, List.length_append, hone]
    by_cases hmore : n + 1 < last
    · obtain ⟨⟨r, hr, hlastr⟩, hb, hl⟩ := @ih _ (drip text (max chunk (last - n))).2 hmore (by omega) (by omega)
      exact ⟨⟨r, List.mem_cons_of_mem _ hr, hlastr⟩, by omega, by dsimp only; omega⟩
    · rw [fill_loaded (by omega)]
      refine ⟨⟨_, List.mem_cons_self, by dsimp only; omega⟩, ?_, by dsimp only; omega⟩
      rw [brought_nil, List.length_nil]
      omega

/-- **Loads that end further and further** are each read to the last item. -/
theorem mem_fills_drip (chunk : ℕ) {text : List α} (hn : ∀ load ∈ loads, n < load.2) (hasc : (loads.map Prod.snd).Pairwise (· < ·))
    (hle : ∀ load ∈ loads, load.2 ≤ n + text.length) {b : β} (hmem : (b, last) ∈ loads) :
    ∃ x ∈ fills drip chunk loads text n, x.1 = b ∧ x.2.loaded + 1 = last := by
  induction loads generalizing n text with
  | nil => exact absurd hmem List.not_mem_nil
  | cons load loads ih =>
    obtain ⟨c, first⟩ := load
    rw [List.map_cons, List.pairwise_cons] at hasc
    obtain ⟨⟨r, hr, hfirst⟩, hb, hl⟩ := @fill_drip _ chunk first n text (hn _ List.mem_cons_self) (hle _ List.mem_cons_self)
    rcases List.mem_cons.1 hmem with heq | hmem
    · obtain ⟨rfl, rfl⟩ := Prod.mk.inj heq
      exact ⟨(b, r), List.mem_append_left _ (List.mem_map_of_mem hr), rfl, hfirst⟩
    · obtain ⟨x, hx, hxb, hxl⟩ := @ih first (fill drip chunk first text n).2
        (fun load hload => hasc.1 _ (List.mem_map_of_mem hload)) hasc.2
        (fun load hload => hl ▸ hle load (List.mem_cons_of_mem _ hload)) hmem
      refine ⟨x, List.mem_append_right _ ?_, hxb, hxl⟩
      rw [hb]
      exact hx

end Loads

end ReadAhead
