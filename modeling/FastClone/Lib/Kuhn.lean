import Mathlib.Algebra.Order.BigOperators.Group.Finset
import Mathlib.Algebra.Order.Group.Multiset
import Mathlib.Tactic.Abel

/-!
# Maximum matchings by augmenting paths

A bipartite graph is given by the neighbours of each vertex of the left side; some vertices of the right
side may be blocked. `augment` searches an alternating path from a vertex and flips it, `phases` calls it
for one vertex after the other. `augment_spec`: where the search fails, what it visited is matched and
closed under neighbours. `phases_maximum`: the matching is as large as any. The argument keeps, after each
call, that the matching is maximum among those of the vertices seen so far; where a call fails, a larger
one that uses the new vertex can be exchanged on what was visited for one that does not.
-/

namespace Kuhn

variable {C S : Type} [DecidableEq S]

structure State (C S : Type) where
  matchS : S → Option C
  visited : Finset S

def State.visit (st : State C S) (s : S) : State C S := { st with visited := insert s st.visited }

def State.set (st : State C S) (s : S) (c : C) : State C S :=
  { st with matchS := Function.update st.matchS s (some c) }

/-- The loop over neighbours of `c`; `search` is the search from a vertex whose partner is wanted. -/
def scan (blocked : S → Bool) (search : C → State C S → Bool × State C S) (c : C) :
    List S → State C S → Bool × State C S
  | [], st => (false, st)
  | s :: rest, st =>
    if blocked s = true ∨ s ∈ st.visited then scan blocked search c rest st
    else
      match st.matchS s with
      | none => (true, (st.visit s).set s c)
      | some d =>
        let r := search d (st.visit s)
        if r.1 then (true, r.2.set s c) else scan blocked search c rest r.2

def augment (adj : C → List S) (blocked : S → Bool) : ℕ → C → State C S → Bool × State C S
  | 0, _, st => (false, st)
  | fuel + 1, c, st => scan blocked (augment adj blocked fuel) c (adj c) st

/-- One call for each vertex, with nothing visited: the matching, and how many calls succeeded. -/
def phases (adj : C → List S) (blocked : S → Bool) (fuel : ℕ) (clients : List C) : (S → Option C) × ℕ :=
  clients.foldl (fun m c =>
    let r := augment adj blocked fuel c ⟨m.1, ∅⟩
    (r.2.matchS, if r.1 then m.2 + 1 else m.2)) (fun _ => none, 0)

/-! ### Matchings -/

/-- The edges of `M` are edges of the graph. -/
def Valid (adj : C → List S) (blocked : S → Bool) (M : S → Option C) : Prop :=
  ∀ s c, M s = some c → s ∈ adj c ∧ blocked s = false

structure Matching (adj : C → List S) (blocked : S → Bool) (M : S → Option C) : Prop where
  valid : Valid adj blocked M
  inj : ∀ s t c, M s = some c → M t = some c → s = t

def single : Option C → Multiset C
  | none => 0
  | some c => {c}

/-- The vertices that `M` matches with `servers`. -/
def held (servers : Finset S) (M : S → Option C) : Multiset C := ∑ s ∈ servers, single (M s)

def size (servers : Finset S) (M : S → Option C) : ℕ := (held servers M).card

variable {adj : C → List S} {blocked : S → Bool} {servers : Finset S} {M N : S → Option C}

/-- A vertex gets a new partner. -/
theorem held_update {s : S} (hs : s ∈ servers) (M : S → Option C) (c : C) :
    held servers (Function.update M s (some c)) + single (M s) = held servers M + {c} := by
  have hrest : ∑ t ∈ servers.erase s, single (Function.update M s (some c) t) = ∑ t ∈ servers.erase s, single (M t) := by
    refine Finset.sum_congr rfl fun t ht => ?_
    rw [Function.update_of_ne (Finset.ne_of_mem_erase ht)]
  unfold held
  rw [← Finset.add_sum_erase _ _ hs, ← Finset.add_sum_erase servers (fun t => single (M t)) hs, hrest,
    Function.update_self]
  show {c} + _ + single (M s) = single (M s) + _ + {c}
  abel

omit [DecidableEq S] in
theorem mem_held {c : C} : c ∈ held servers M ↔ ∃ s ∈ servers, M s = some c := by
  unfold held
  rw [Multiset.mem_sum]
  refine exists_congr fun s => and_congr_right fun _ => ?_
  cases M s with
  | none => simp [single]
  | some d => simp [single, eq_comm]

/-- Where no vertex is held twice, the partners are unique. -/
theorem inj_of_nodup (h : (held servers M).Nodup) {s t : S} {c : C} (hs : s ∈ servers) (ht : t ∈ servers)
    (hsc : M s = some c) (htc : M t = some c) : s = t := by
  by_contra hne
  have ht' : t ∈ servers.erase s := Finset.mem_erase.2 ⟨fun heq => hne heq.symm, ht⟩
  unfold held at h
  rw [← Finset.add_sum_erase _ _ hs, ← Finset.add_sum_erase _ _ ht', hsc, htc] at h
  have hdisjoint := (Multiset.nodup_add.1 h).2.2
  refine Multiset.disjoint_left.1 hdisjoint (Multiset.mem_singleton_self c) ?_
  exact Multiset.mem_add.2 (.inl (Multiset.mem_singleton_self c))

omit [DecidableEq S] in
/-- What matches wherever another does is as large. -/
theorem size_le_size (h : ∀ s ∈ servers, M s ≠ none → N s ≠ none) : size servers M ≤ size servers N := by
  unfold size held
  rw [Multiset.card_sum, Multiset.card_sum]
  refine Finset.sum_le_sum fun s hs => ?_
  cases hM : M s with
  | none => exact Nat.zero_le _
  | some c =>
    obtain ⟨d, hd⟩ := Option.ne_none_iff_exists'.1 (h s hs (by rw [hM]; nofun))
    rw [hd]
    exact Nat.le_refl _

/-! ### One search -/

/-- The search has matched `c`, and changed partners only of what it visited. -/
structure Found (adj : C → List S) (blocked : S → Bool) (servers : Finset S) (c : C) (st st' : State C S) : Prop where
  visited : st.visited ⊆ st'.visited
  same : ∀ s ∈ st.visited, st'.matchS s = st.matchS s
  valid : Valid adj blocked st'.matchS
  held : held servers st'.matchS = held servers st.matchS + {c}

/-- The search through `l` has changed nothing, and what it visited is matched and closed. -/
structure Failed (adj : C → List S) (blocked : S → Bool) (l : List S) (st st' : State C S) : Prop where
  visited : st.visited ⊆ st'.visited
  same : st'.matchS = st.matchS
  all : ∀ s ∈ l, blocked s = false → s ∈ st'.visited
  closed : ∀ s ∈ st'.visited, s ∉ st.visited → ∃ d, st.matchS s = some d ∧
    ∀ t ∈ adj d, blocked t = false → t ∈ st'.visited

/-- What a search from `c` may do, by its result. -/
def Spec (adj : C → List S) (blocked : S → Bool) (servers : Finset S) (c : C) (l : List S) (st : State C S)
    (r : Bool × State C S) : Prop :=
  (r.1 = true → Found adj blocked servers c st r.2) ∧ (r.1 = false → Failed adj blocked l st r.2)

theorem scan_spec {search : C → State C S → Bool × State C S} {fuel : ℕ} {c : C}
    (hsearch : ∀ d st, Valid adj blocked st.matchS → (servers \ st.visited).card < fuel →
      Spec adj blocked servers d (adj d) st (search d st))
    (l : List S) (hl : ∀ s ∈ l, s ∈ adj c ∧ s ∈ servers) (st : State C S) (hvalid : Valid adj blocked st.matchS)
    (hfuel : (servers \ st.visited).card < fuel + 1) :
    Spec adj blocked servers c l st (scan blocked search c l st) := by
  induction l generalizing st with
  | nil => exact ⟨nofun, fun _ => ⟨Finset.Subset.refl _, rfl, nofun, fun s hs hno => absurd hs hno⟩⟩
  | cons s rest ih =>
    obtain ⟨⟨hadj, hserver⟩, hrest⟩ := List.forall_mem_cons.1 hl
    by_cases hskip : blocked s = true ∨ s ∈ st.visited
    · rw [scan, if_pos hskip]
      obtain ⟨hfound, hfailed⟩ := ih hrest st hvalid hfuel
      refine ⟨hfound, fun hno => ?_⟩
      obtain ⟨hvisited, hsame, hall, hclosed⟩ := hfailed hno
      refine ⟨hvisited, hsame, fun t ht hfree => ?_, hclosed⟩
      rcases List.mem_cons.1 ht with rfl | ht
      · exact hvisited (hskip.resolve_left (by rw [hfree]; nofun))
      · exact hall t ht hfree
    · obtain ⟨hfree, hnew⟩ := not_or.1 hskip
      rw [Bool.not_eq_true] at hfree
      -- the vertex is marked, so there is less to visit
      have hvisit : st.visited ⊆ (st.visit s).visited := Finset.subset_insert s st.visited
      have hmem : s ∈ (st.visit s).visited := Finset.mem_insert_self s st.visited
      have hless : (servers \ (st.visit s).visited).card < fuel := by
        have hsub : servers \ (st.visit s).visited ⊂ servers \ st.visited := by
          refine Finset.ssubset_iff_subset_ne.2 ⟨Finset.sdiff_subset_sdiff (Finset.Subset.refl _) hvisit, fun heq => ?_⟩
          have hin : s ∈ servers \ st.visited := Finset.mem_sdiff.2 ⟨hserver, hnew⟩
          rw [← heq] at hin
          exact (Finset.mem_sdiff.1 hin).2 hmem
        have hlt := Finset.card_lt_card hsub
        omega
      -- the new partner of `s` is a neighbour, and the others stay
      have hset : ∀ st' : State C S, Valid adj blocked st'.matchS → Valid adj blocked (st'.set s c).matchS := by
        intro st' hv t d ht
        by_cases hts : t = s
        · rw [hts] at ht ⊢
          have heq : (st'.set s c).matchS s = some c := Function.update_self ..
          rw [heq] at ht
          cases ht
          exact ⟨hadj, hfree⟩
        · exact hv t d ((Function.update_of_ne hts ..).symm.trans ht)
      have hkeep : ∀ (st' : State C S) (t : S), t ∈ st.visited → (st'.set s c).matchS t = st'.matchS t := by
        intro st' t ht
        have hne : t ≠ s := fun heq => hnew (heq ▸ ht)
        exact Function.update_of_ne hne ..
      rw [scan, if_neg hskip]
      cases hpartner : st.matchS s with
      | none =>
        refine ⟨fun _ => ⟨hvisit, hkeep (st.visit s), hset _ hvalid, ?_⟩, nofun⟩
        have hupdate := held_update hserver st.matchS c
        rw [hpartner] at hupdate
        show held servers (Function.update st.matchS s (some c)) = _
        exact (add_zero _).symm.trans hupdate
      | some d =>
        obtain ⟨hfound, hfailed⟩ := hsearch d (st.visit s) hvalid hless
        dsimp only
        cases hr : (search d (st.visit s)).1 with
        | true =>
          obtain ⟨hvisited, hsame, hvalid', hheld⟩ := hfound hr
          refine ⟨fun _ => ⟨hvisit.trans hvisited, fun t ht => ?_, hset _ hvalid', ?_⟩, nofun⟩
          · exact (hkeep _ t ht).trans (hsame t (hvisit ht))
          · -- `d` has found another partner and leaves `s` to `c`
            have hupdate := held_update hserver (search d (st.visit s)).2.matchS c
            rw [hsame s hmem, hheld] at hupdate
            have hd : single ((st.visit s).matchS s) = {d} := congrArg single hpartner
            rw [hd, add_right_comm] at hupdate
            exact add_right_cancel hupdate
        | false =>
          obtain ⟨hvisited, hsame, hall, hclosed⟩ := hfailed hr
          have hless' : (servers \ (search d (st.visit s)).2.visited).card < fuel + 1 := by
            have hle := Finset.card_le_card (Finset.sdiff_subset_sdiff (Finset.Subset.refl servers) hvisited)
            omega
          obtain ⟨hfound', hfailed'⟩ := ih hrest (search d (st.visit s)).2 (by rw [hsame]; exact hvalid) hless'
          refine ⟨fun hyes => ?_, fun hno => ?_⟩
          · obtain ⟨hvisited', hsame', hvalid', hheld'⟩ := hfound' hyes
            refine ⟨hvisit.trans (hvisited.trans hvisited'), fun t ht => ?_, hvalid', ?_⟩
            · exact (hsame' t (hvisited (hvisit ht))).trans (congrFun hsame t)
            · exact hheld'.trans (by rw [hsame]; rfl)
          · obtain ⟨hvisited', hsame', hall', hclosed'⟩ := hfailed' hno
            refine ⟨hvisit.trans (hvisited.trans hvisited'), hsame'.trans hsame, fun t ht hfree' => ?_, fun t ht hno' => ?_⟩
            · rcases List.mem_cons.1 ht with rfl | ht
              · exact hvisited' (hvisited hmem)
              · exact hall' t ht hfree'
            · by_cases hs2 : t ∈ (search d (st.visit s)).2.visited
              · by_cases hs1 : t ∈ (st.visit s).visited
                · rcases Finset.mem_insert.1 hs1 with rfl | hold
                  · exact ⟨d, hpartner, fun u hu hfree' => hvisited' (hall u hu hfree')⟩
                  · exact absurd hold hno'
                · obtain ⟨e, he, hin⟩ := hclosed t hs2 hs1
                  exact ⟨e, he, fun u hu hfree' => hvisited' (hin u hu hfree')⟩
              · obtain ⟨e, he, hin⟩ := hclosed' t ht hs2
                exact ⟨e, (congrFun hsame t).symm.trans he, hin⟩

/-- A search with enough fuel. -/
theorem augment_spec (hadj : ∀ c, ∀ s ∈ adj c, s ∈ servers) (fuel : ℕ) (c : C) (st : State C S)
    (hvalid : Valid adj blocked st.matchS) (hfuel : (servers \ st.visited).card < fuel) :
    Spec adj blocked servers c (adj c) st (augment adj blocked fuel c st) := by
  induction fuel generalizing c st with
  | zero => exact absurd hfuel (Nat.not_lt_zero _)
  | succ fuel ih => exact scan_spec (fun d st' => ih d st') (adj c) (fun s hs => ⟨hs, hadj c s hs⟩) st hvalid hfuel

/-! ### Phases -/

/-- After the vertices of `seen`: the matching, its size, and that it is maximum among those of `seen`. -/
structure Best (adj : C → List S) (blocked : S → Bool) (servers : Finset S) (seen : List C) (m : (S → Option C) × ℕ) :
    Prop where
  valid : Valid adj blocked m.1
  nodup : (held servers m.1).Nodup
  inside : ∀ c ∈ held servers m.1, c ∈ seen
  count : (held servers m.1).card = m.2
  maximum : ∀ N, Matching adj blocked N → (∀ s c, N s = some c → c ∈ seen) → size servers N ≤ m.2

omit [DecidableEq S] in
theorem best_start : Best adj blocked servers [] (fun _ => none, 0) := by
  have hzero : held servers (fun _ => (none : Option C)) = 0 := Finset.sum_eq_zero fun _ _ => rfl
  refine ⟨nofun, ?_, fun c hc => ?_, ?_, fun N hN hin => ?_⟩
  · rw [hzero]
    exact Multiset.nodup_zero
  · rw [hzero] at hc
    exact absurd hc (Multiset.notMem_zero c)
  · rw [hzero]
    rfl
  · have hempty : held servers N = 0 := by
      refine Finset.sum_eq_zero fun s _ => ?_
      cases hs : N s with
      | none => rfl
      | some c => exact absurd (hin s c hs) List.not_mem_nil
    unfold size
    rw [hempty]
    exact Nat.zero_le _

variable [DecidableEq C]

/-- A matching without one of its vertices has lost one edge at most. -/
theorem size_without (hN : Matching adj blocked N) (c : C) :
    size servers N ≤ size servers (fun s => if N s = some c then none else N s) + 1 := by
  by_cases hc : ∃ s ∈ servers, N s = some c
  · obtain ⟨s, hs, hsc⟩ := hc
    have heq : (fun t => if N t = some c then none else N t) = Function.update N s none := by
      funext t
      by_cases ht : t = s
      · rw [ht, Function.update_self, if_pos hsc]
      · rw [Function.update_of_ne ht, if_neg fun htc => ht (hN.inj t s c htc hsc)]
    unfold size held
    rw [heq, ← Finset.add_sum_erase _ _ hs, ← Finset.add_sum_erase servers (fun t => single (Function.update N s none t)) hs,
      hsc, Function.update_self]
    have hrest : ∑ t ∈ servers.erase s, single (Function.update N s none t) = ∑ t ∈ servers.erase s, single (N t) := by
      refine Finset.sum_congr rfl fun t ht => ?_
      rw [Function.update_of_ne (Finset.ne_of_mem_erase ht)]
    rw [hrest]
    show (Multiset.card ({c} + _)) ≤ Multiset.card (0 + _) + 1
    rw [Multiset.card_add, Multiset.card_singleton, zero_add, add_comm]
  · refine (size_le_size fun s hs hne => ?_).trans (Nat.le_add_right _ 1)
    have hne' : N s ≠ some c := fun hsc => hc ⟨s, hs, hsc⟩
    rw [if_neg hne']
    exact hne

omit [DecidableEq S] in
theorem of_without {c d : C} {s : S} (h : (if N s = some c then none else N s) = some d) : N s = some d ∧ d ≠ c := by
  split at h
  · cases h
  · rename_i hne
    exact ⟨h, fun hdc => hne (hdc ▸ h)⟩

/-- One more vertex. -/
theorem Best.step (hadj : ∀ c, ∀ s ∈ adj c, s ∈ servers) {seen : List C} {m : (S → Option C) × ℕ}
    (h : Best adj blocked servers seen m) {fuel : ℕ} (hfuel : servers.card < fuel) {c : C} (hnew : c ∉ seen) :
    Best adj blocked servers (seen ++ [c])
      ((augment adj blocked fuel c ⟨m.1, ∅⟩).2.matchS,
        if (augment adj blocked fuel c ⟨m.1, ∅⟩).1 then m.2 + 1 else m.2) := by
  have hspec := augment_spec hadj fuel c ⟨m.1, ∅⟩ h.valid (by rw [Finset.sdiff_empty]; exact hfuel)
  cases hr : (augment adj blocked fuel c ⟨m.1, ∅⟩).1 with
  | true =>
    have hfound := hspec.1 hr
    have hheld : held servers (augment adj blocked fuel c ⟨m.1, ∅⟩).2.matchS = held servers m.1 + {c} := hfound.held
    refine ⟨hfound.valid, ?_, fun d hd => ?_, ?_, fun N hN hin => ?_⟩
    · rw [hheld]
      refine Multiset.nodup_add.2 ⟨h.nodup, Multiset.nodup_singleton c, ?_⟩
      refine Multiset.disjoint_left.2 fun {d} hd hdc => ?_
      rw [Multiset.mem_singleton.1 hdc] at hd
      exact hnew (h.inside c hd)
    · rw [hheld] at hd
      rcases Multiset.mem_add.1 hd with hd | hd
      · exact List.mem_append_left _ (h.inside d hd)
      · exact List.mem_append_right _ (List.mem_singleton.2 (Multiset.mem_singleton.1 hd))
    · rw [hheld, Multiset.card_add, Multiset.card_singleton, h.count]
      rfl
    · -- without `c` it is a matching of the vertices seen before
      have hless := h.maximum (fun s => if N s = some c then none else N s)
        ⟨fun s d hs => hN.valid s d (of_without hs).1, fun s t d hs ht => hN.inj s t d (of_without hs).1 (of_without ht).1⟩
        (fun s d hs => by
          rcases List.mem_append.1 (hin s d (of_without hs).1) with hd | hd
          · exact hd
          · exact absurd (List.mem_singleton.1 hd) (of_without hs).2)
      exact (size_without hN c).trans (Nat.add_le_add_right hless 1)
  | false =>
    have hfailed := hspec.2 hr
    have hsame : (augment adj blocked fuel c ⟨m.1, ∅⟩).2.matchS = m.1 := hfailed.same
    rw [hsame]
    refine ⟨h.valid, h.nodup, fun d hd => List.mem_append_left _ (h.inside d hd), h.count, fun N hN hin => ?_⟩
    -- on what was visited, exchange it for the present matching
    obtain ⟨V, hV⟩ : ∃ V, V = (augment adj blocked fuel c ⟨m.1, ∅⟩).2.visited := ⟨_, rfl⟩
    have hclosed : ∀ s ∈ V, ∃ d, m.1 s = some d ∧ ∀ t ∈ adj d, blocked t = false → t ∈ V := by
      rw [hV]
      exact fun s hs => hfailed.closed s hs (Finset.notMem_empty s)
    have hstart : ∀ s ∈ adj c, blocked s = false → s ∈ V := by
      rw [hV]
      exact hfailed.all
    have hserver : ∀ {s d}, m.1 s = some d → s ∈ servers := fun hs => hadj _ _ (h.valid _ _ hs).1
    have hlarger : size servers N ≤ size servers (fun s => if s ∈ V then m.1 s else N s) := by
      refine size_le_size fun s _ hs => ?_
      by_cases hsV : s ∈ V
      · obtain ⟨d, hd, -⟩ := hclosed s hsV
        rw [if_pos hsV, hd]
        nofun
      · rw [if_neg hsV]
        exact hs
    refine hlarger.trans (h.maximum _ ⟨fun s d hs => ?_, fun s t d hs ht => ?_⟩ fun s d hs => ?_)
    · by_cases hsV : s ∈ V
      · exact h.valid s d (by rwa [if_pos hsV] at hs)
      · exact hN.valid s d (by rwa [if_neg hsV] at hs)
    · -- a vertex held inside has all its neighbours inside
      have hmixed : ∀ {s t}, s ∈ V → t ∉ V → m.1 s = some d → N t = some d → False := by
        intro s t hsV htV hs ht
        obtain ⟨e, he, hin'⟩ := hclosed s hsV
        cases he.symm.trans hs
        exact htV (hin' t (hN.valid t d ht).1 (hN.valid t d ht).2)
      by_cases hsV : s ∈ V
      · rw [if_pos hsV] at hs
        by_cases htV : t ∈ V
        · rw [if_pos htV] at ht
          exact inj_of_nodup h.nodup (hserver hs) (hserver ht) hs ht
        · rw [if_neg htV] at ht
          exact (hmixed hsV htV hs ht).elim
      · rw [if_neg hsV] at hs
        by_cases htV : t ∈ V
        · rw [if_pos htV] at ht
          exact (hmixed htV hsV ht hs).elim
        · rw [if_neg htV] at ht
          exact hN.inj s t d hs ht
    · by_cases hsV : s ∈ V
      · rw [if_pos hsV] at hs
        exact h.inside d (mem_held.2 ⟨s, hserver hs, hs⟩)
      · rw [if_neg hsV] at hs
        rcases List.mem_append.1 (hin s d hs) with hd | hd
        · exact hd
        · rw [List.mem_singleton.1 hd] at hs
          exact absurd (hstart s (hN.valid s c hs).1 (hN.valid s c hs).2) hsV

/-- **The matching found is maximum.** -/
theorem phases_maximum (hadj : ∀ c, ∀ s ∈ adj c, s ∈ servers) {fuel : ℕ} (hfuel : servers.card < fuel) {clients : List C}
    (hnodup : clients.Nodup) : Best adj blocked servers clients (phases adj blocked fuel clients) := by
  have hrun : ∀ (rest seen : List C) (m : (S → Option C) × ℕ), (seen ++ rest).Nodup → Best adj blocked servers seen m →
      Best adj blocked servers (seen ++ rest) (rest.foldl (fun m c =>
        let r := augment adj blocked fuel c ⟨m.1, ∅⟩
        (r.2.matchS, if r.1 then m.2 + 1 else m.2)) m) := by
    intro rest
    induction rest with
    | nil =>
      intro seen m _ hm
      rw [List.append_nil]
      exact hm
    | cons c rest ih =>
      intro seen m hnd hm
      have hnew : c ∉ seen := fun hc => (List.nodup_append.1 hnd).2.2 c hc c List.mem_cons_self rfl
      have hassoc : seen ++ c :: rest = (seen ++ [c]) ++ rest := by rw [List.append_assoc]; rfl
      rw [hassoc] at hnd ⊢
      exact ih (seen ++ [c]) _ hnd (hm.step hadj hfuel hnew)
  exact hrun clients [] _ hnodup best_start

end Kuhn
