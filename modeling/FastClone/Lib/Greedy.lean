import Mathlib.Data.List.Basic
import Mathlib.Data.List.Perm.Subperm

/-!
# Greedy matching of blocks along a text

A window of fixed length slides over a text. At each position the first block of a
preference list that is not taken yet and hits is taken, and the window jumps past it;
otherwise the window moves by one.
-/

namespace Greedy

variable (hit : ℕ → ℕ → Bool) (prefs : List ℕ) (L N : ℕ)

/-- The block taken at position `p`. -/
def choose (p : ℕ) (taken : List (ℕ × ℕ)) : Option ℕ :=
  prefs.find? fun i => hit p i && !(taken.map Prod.fst).contains i

/-- The blocks taken from position `p` on, each with its position, in front of those
taken before. -/
def greedy (hL : 0 < L) (p : ℕ) (taken : List (ℕ × ℕ)) : List (ℕ × ℕ) :=
  if p + L ≤ N then
    match choose hit prefs p taken with
    | some i => greedy hL (p + L) ((i, p) :: taken)
    | none => greedy hL (p + 1) taken
  else taken
termination_by N - p

variable {hit prefs L N}

theorem greedy_done {hL : 0 < L} {p : ℕ} {taken : List (ℕ × ℕ)} (h : ¬ p + L ≤ N) :
    greedy hit prefs L N hL p taken = taken := by
  rw [greedy, if_neg h]

theorem greedy_hit {hL : 0 < L} {p i : ℕ} {taken : List (ℕ × ℕ)} (h : p + L ≤ N)
    (hi : choose hit prefs p taken = some i) :
    greedy hit prefs L N hL p taken = greedy hit prefs L N hL (p + L) ((i, p) :: taken) := by
  rw [greedy, if_pos h, hi]

theorem greedy_miss {hL : 0 < L} {p : ℕ} {taken : List (ℕ × ℕ)} (h : p + L ≤ N)
    (hi : choose hit prefs p taken = none) :
    greedy hit prefs L N hL p taken = greedy hit prefs L N hL (p + 1) taken := by
  rw [greedy, if_pos h, hi]

theorem choose_some {p i : ℕ} {taken : List (ℕ × ℕ)} (h : choose hit prefs p taken = some i) :
    i ∈ prefs ∧ hit p i = true ∧ i ∉ taken.map Prod.fst := by
  have h1 := List.mem_of_find?_eq_some h
  have h2 := List.find?_some h
  simp only [Bool.and_eq_true, Bool.not_eq_true', List.contains_eq_mem, decide_eq_false_iff_not] at h2
  exact ⟨h1, h2.1, h2.2⟩

theorem choose_congr {hit' : ℕ → ℕ → Bool} (h : ∀ p, ∀ i ∈ prefs, hit p i = hit' p i) (p : ℕ)
    (taken : List (ℕ × ℕ)) : choose hit prefs p taken = choose hit' prefs p taken := by
  unfold choose
  induction prefs with
  | nil => rfl
  | cons i l ih =>
    simp only [List.find?_cons, h p i List.mem_cons_self]
    rw [ih (fun p j hj => h p j (List.mem_cons_of_mem _ hj))]

/-- Only the hits of blocks of the preference list matter. -/
theorem greedy_congr {hit' : ℕ → ℕ → Bool} (h : ∀ p, ∀ i ∈ prefs, hit p i = hit' p i) {hL : 0 < L}
    (p : ℕ) (taken : List (ℕ × ℕ)) :
    greedy hit prefs L N hL p taken = greedy hit' prefs L N hL p taken := by
  fun_induction greedy hit prefs L N hL p taken with
  | case1 p taken hp i hi ih => rw [ih, greedy_hit hp (choose_congr h p taken ▸ hi)]
  | case2 p taken hp hi ih => rw [ih, greedy_miss hp (choose_congr h p taken ▸ hi)]
  | case3 p taken hp => rw [greedy_done hp]

/-! ### The moves of the window

Between two positions a rule may end the walk: it sees the position moved to and the number of
blocks taken, and carries a state of its own. -/

/-- One move of the window: a jump past a block, or a step by one. -/
structure Move where
  start : ℕ
  stop : ℕ
  jump : Bool
  deriving DecidableEq, Repr

section Moves

variable {κ : Type*}

/-- The move from `p`, and the blocks taken behind it. -/
def move (hit : ℕ → ℕ → Bool) (prefs : List ℕ) (L p : ℕ) (taken : List (ℕ × ℕ)) : Move × List (ℕ × ℕ) :=
  match choose hit prefs p taken with
  | some i => (⟨p, p + L, true⟩, (i, p) :: taken)
  | none => (⟨p, p + 1, false⟩, taken)

theorem lt_move_stop (hL : 0 < L) (p : ℕ) (taken : List (ℕ × ℕ)) : p < (move hit prefs L p taken).1.stop := by
  unfold move
  split <;> dsimp only <;> omega

/-- The move depends on the hits at `p` only. -/
theorem move_congr {hit' : ℕ → ℕ → Bool} {p : ℕ} (h : hit p = hit' p) (taken : List (ℕ × ℕ)) :
    move hit prefs L p taken = move hit' prefs L p taken := by
  unfold move choose
  rw [h]

/-- The moves from `p` on, as long as the window moved to fits and the rule goes on. -/
def moves (hit : ℕ → ℕ → Bool) (prefs : List ℕ) (L N : ℕ) (rule : κ → ℕ → ℕ → Option κ) (hL : 0 < L) (k : κ) (p : ℕ)
    (taken : List (ℕ × ℕ)) : List Move :=
  if (move hit prefs L p taken).1.stop + L ≤ N then
    (move hit prefs L p taken).1 ::
      match rule k (move hit prefs L p taken).2.length (move hit prefs L p taken).1.stop with
      | some k => moves hit prefs L N rule hL k (move hit prefs L p taken).1.stop (move hit prefs L p taken).2
      | none => []
  else []
termination_by N - p
decreasing_by
  have := @lt_move_stop hit prefs L hL p taken
  omega

variable {rule : κ → ℕ → ℕ → Option κ} {hL : 0 < L} {k : κ} {p : ℕ} {taken : List (ℕ × ℕ)}

theorem moves_end (h : ¬ (move hit prefs L p taken).1.stop + L ≤ N) : moves hit prefs L N rule hL k p taken = [] := by
  rw [moves, if_neg h]

theorem moves_stop (h : (move hit prefs L p taken).1.stop + L ≤ N)
    (hr : rule k (move hit prefs L p taken).2.length (move hit prefs L p taken).1.stop = none) :
    moves hit prefs L N rule hL k p taken = [(move hit prefs L p taken).1] := by
  rw [moves, if_pos h, hr]

theorem moves_go {k' : κ} (h : (move hit prefs L p taken).1.stop + L ≤ N)
    (hr : rule k (move hit prefs L p taken).2.length (move hit prefs L p taken).1.stop = some k') :
    moves hit prefs L N rule hL k p taken = (move hit prefs L p taken).1 ::
      moves hit prefs L N rule hL k' (move hit prefs L p taken).1.stop (move hit prefs L p taken).2 := by
  rw [moves, if_pos h, hr]

/-- The window moves forward and stays in the text. -/
theorem moves_ascending : (∀ m ∈ moves hit prefs L N rule hL k p taken, p < m.stop ∧ m.stop + L ≤ N) ∧
    ((moves hit prefs L N rule hL k p taken).map Move.stop).Pairwise (· < ·) := by
  fun_induction moves hit prefs L N rule hL k p taken with
  | case1 k p taken h ih =>
    have hlt := @lt_move_stop hit prefs L hL p taken
    cases hr : rule k (move hit prefs L p taken).2.length (move hit prefs L p taken).1.stop with
    | none =>
      refine ⟨fun m hm => ?_, List.pairwise_singleton _ _⟩
      obtain rfl := List.mem_singleton.1 hm
      exact ⟨hlt, h⟩
    | some k' =>
      obtain ⟨hinside, hpairs⟩ := ih k'
      refine ⟨fun m hm => ?_, ?_⟩
      · rcases List.mem_cons.1 hm with rfl | hm
        · exact ⟨hlt, h⟩
        · have hrest := hinside m hm
          exact ⟨by omega, hrest.2⟩
      · rw [List.map_cons, List.pairwise_cons]
        refine ⟨fun q hq => ?_, hpairs⟩
        obtain ⟨m, hm, rfl⟩ := List.mem_map.1 hq
        exact (hinside m hm).1
  | case2 k p taken h => exact ⟨fun m hm => absurd hm List.not_mem_nil, List.Pairwise.nil⟩

end Moves

/-! ### A text against its own blocks

Each block has a class, and the window over block `j` hits the blocks of the class of `j`.
However the choices go, block `j` of the text finds a block that is not taken yet: so far one
block of its class was taken for each earlier block of that class. -/

section Self

variable {κ : Type*} (cls : ℕ → κ) {n : ℕ}

/-- The first `k` windows have taken blocks of their own classes, each block once. -/
structure SelfTaken (n k : ℕ) (taken : List (ℕ × ℕ)) : Prop where
  nodup : (taken.map Prod.fst).Nodup
  lt : ∀ i ∈ taken.map Prod.fst, i < n
  classes : (taken.map Prod.fst).map cls = ((List.range k).map cls).reverse

theorem SelfTaken.nil : SelfTaken cls n 0 [] := ⟨List.nodup_nil, fun _ h => absurd h List.not_mem_nil, rfl⟩

variable {cls} {k : ℕ} {taken : List (ℕ × ℕ)}

theorem SelfTaken.cons (h : SelfTaken cls n k taken) {i p : ℕ} (hi : i < n) (hnew : i ∉ taken.map Prod.fst)
    (hcls : cls i = cls k) : SelfTaken cls n (k + 1) ((i, p) :: taken) := by
  refine ⟨List.nodup_cons.2 ⟨hnew, h.nodup⟩, ?_, ?_⟩
  · intro j hj
    rcases List.mem_cons.1 hj with rfl | hj
    · exact hi
    · exact h.lt j hj
  · have hrange : (List.range (k + 1)).map cls = (List.range k).map cls ++ [cls k] := by
      rw [List.range_succ, List.map_append, List.map_singleton]
    rw [hrange, List.reverse_append, List.map_cons, List.map_cons, h.classes, hcls]
    rfl

variable [DecidableEq κ]

/-- Some block of the class of window `k` is left. -/
theorem SelfTaken.left (h : SelfTaken cls n k taken) (hk : k < n) :
    ∃ i < n, cls i = cls k ∧ i ∉ taken.map Prod.fst := by
  by_contra hnone
  -- then all blocks of the class are among those taken for the earlier blocks of the class
  have hsub : (List.range n).filter (fun i => cls i = cls k) ⊆
      (taken.map Prod.fst).filter fun i => cls i = cls k := by
    intro i hi
    obtain ⟨hin, hcls⟩ := List.mem_filter.1 hi
    refine List.mem_filter.2 ⟨?_, hcls⟩
    by_contra hnot
    exact hnone ⟨i, List.mem_range.1 hin, by simpa using hcls, hnot⟩
  have hle := (List.subperm_of_subset (List.nodup_range.filter _) hsub).length_le
  rw [← List.countP_eq_length_filter, ← List.countP_eq_length_filter] at hle
  have htaken : (taken.map Prod.fst).countP (fun i => cls i = cls k) = (List.range k).countP fun i => cls i = cls k := by
    have hmap : ∀ l : List ℕ, l.countP (fun i => cls i = cls k) = (l.map cls).countP fun c => c = cls k := by
      intro l
      rw [List.countP_map]
      rfl
    rw [hmap, hmap, h.classes, List.countP_reverse]
  have hmore : (List.range (k + 1)).countP (fun i => cls i = cls k) ≤ (List.range n).countP fun i => cls i = cls k :=
    (List.range_sublist.2 hk).countP_le
  rw [List.range_succ, List.countP_append, List.countP_singleton, if_pos (by simp)] at hmore
  omega

/-- **Window `k` takes a block of its class.** -/
theorem SelfTaken.choose (h : SelfTaken cls n k taken) (hk : k < n) {p : ℕ} (hprefs : ∀ i, i ∈ prefs ↔ i < n)
    (hhit : ∀ i < n, hit p i = true ↔ cls i = cls k) :
    ∃ i, Greedy.choose hit prefs p taken = some i ∧ SelfTaken cls n (k + 1) ((i, p) :: taken) := by
  obtain ⟨j, hj, hcls, hnew⟩ := h.left hk
  cases hc : Greedy.choose hit prefs p taken with
  | none =>
    exfalso
    have hno := List.find?_eq_none.1 hc j ((hprefs j).2 hj)
    rw [(hhit j hj).2 hcls] at hno
    simp only [Bool.true_and, Bool.not_eq_true', List.contains_eq_mem, decide_eq_false_iff_not] at hno
    exact hno hnew
  | some i =>
    obtain ⟨hi, hh, hfresh⟩ := choose_some hc
    have hin := (hprefs i).1 hi
    exact ⟨i, rfl, h.cons hin hfresh ((hhit i hin).1 hh)⟩

omit [DecidableEq κ] in
/-- After all windows every block is taken. -/
theorem SelfTaken.all (h : SelfTaken cls n n taken) {i : ℕ} (hi : i < n) : i ∈ taken.map Prod.fst := by
  have hlen : (taken.map Prod.fst).length = n := by
    have := congrArg List.length h.classes
    simpa using this
  have hsub : taken.map Prod.fst ⊆ List.range n := fun j hj => List.mem_range.2 (h.lt j hj)
  have hperm := (List.subperm_of_subset h.nodup hsub).perm_of_length_le (by rw [List.length_range]; omega)
  exact hperm.mem_iff.2 (List.mem_range.2 hi)

end Self

end Greedy
