import FastClone.Lib.LexGreedy
import FastClone.Spec.Links
import Mathlib.Data.Char
import Mathlib.Data.Prod.Lex

/-!
# The selected links are an optimal matching

`better` is a strict order of all edges (`better_iff`). The best edges of the pairs of NICs come out sorted and
unique (`edges_sorted`, `mem_edges`), `maxMatching` is the size of a maximum matching of what is left
(`maxMatching_spec`), so the guard of the last loop knows which links still belong to a matching of the wanted
size, and the loop is the greedy selection of the least one (`selectAutoLinks_optimal`).
-/

namespace FastClone.Links

open FastClone.Endpoint

/-! ### The order of the edges -/

theorem level_iff {α : Type} [LT α] {a b : α} {inst : Decidable (a < b)} {inst' : Decidable (a ≠ b)} (rest : Bool)
    (hne : a < b → a ≠ b) : (if a ≠ b then decide (a < b) else rest) = true ↔ a < b ∨ a = b ∧ rest = true := by
  by_cases hab : a = b
  · rw [if_neg (not_not.2 hab)]
    exact ⟨fun h => .inr ⟨hab, h⟩, fun h => h.elim (fun hlt => absurd hab (hne hlt)) And.right⟩
  · rw [if_pos hab, decide_eq_true_iff]
    exact ⟨.inl, fun h => h.elim id fun heq => absurd heq.1 hab⟩

/-- What `better` compares. -/
def Rank := ℕ ×ₗ ℕ ×ₗ ℤ ×ₗ Text ×ₗ Text ×ₗ ℕ ×ₗ ℕ

instance : LinearOrder Rank := inferInstanceAs (LinearOrder (ℕ ×ₗ ℕ ×ₗ ℤ ×ₗ Text ×ₗ Text ×ₗ ℕ ×ₗ ℕ))

def Edge.rank (e : Edge) : Rank :=
  toLex (e.family, toLex (e.subnet, toLex (e.rtt, toLex (e.clientNic, toLex (e.serverNic, toLex (e.row, e.col))))))

theorem text_ne {a b : Text} (h : a < b) : a ≠ b := ne_of_lt (α := List Char) h

theorem better_iff (a b : Edge) : better a b = true ↔ a.rank < b.rank := by
  unfold better Edge.rank
  rw [level_iff _ ne_of_lt, level_iff _ ne_of_lt, level_iff _ ne_of_lt, level_iff _ text_ne, level_iff _ text_ne,
    level_iff _ ne_of_lt, decide_eq_true_iff]
  refine Iff.trans ?_ Prod.Lex.toLex_lt_toLex.symm
  simp only [Prod.Lex.toLex_lt_toLex]

theorem rank_injective : Function.Injective Edge.rank := by
  intro a b h
  cases a
  cases b
  cases h
  rfl

theorem better_irrefl (a : Edge) : better a a = false := by
  rw [← Bool.not_eq_true, better_iff]
  exact lt_irrefl _

theorem better_trans {a b c : Edge} (hab : better a b = true) (hbc : better b c = true) : better a c = true :=
  (better_iff a c).2 (((better_iff a b).1 hab).trans ((better_iff b c).1 hbc))

theorem better_total {a b : Edge} (hab : a ≠ b) (h : better b a = false) : better a b = true := by
  rw [← Bool.not_eq_true, better_iff, not_lt] at h
  exact (better_iff a b).2 (lt_of_le_of_ne h fun heq => hab (rank_injective heq))

/-! ### The best edge of each pair -/

/-- The better edge of each pair of those seen. -/
structure BestOf (seen : List Edge) (best : AList fun _ : Text × Text => Edge) : Prop where
  own : ∀ k e, best.lookup k = some e → e.key = k ∧ e ∈ seen
  best : ∀ e ∈ seen, ∃ b, best.lookup e.key = some b ∧ better e b = false

theorem bestOf_keepBest {seen : List Edge} {best : AList fun _ : Text × Text => Edge} (h : BestOf seen best) (e : Edge) :
    BestOf (seen ++ [e]) (keepBest best e) := by
  have hmem : e ∈ seen ++ [e] := List.mem_append_right _ List.mem_cons_self
  -- `e` takes the place of its pair, and is no worse than what was there
  have hinsert : (∀ b, best.lookup e.key = some b → better e b = true) → BestOf (seen ++ [e]) (best.insert e.key e) := by
    intro hold
    refine ⟨fun k x hx => ?_, fun x hx => ?_⟩
    · by_cases hk : k = e.key
      · rw [hk, AList.lookup_insert] at hx
        cases hx
        exact ⟨hk.symm, hmem⟩
      · rw [AList.lookup_insert_ne hk] at hx
        exact ⟨(h.own k x hx).1, List.mem_append_left _ (h.own k x hx).2⟩
    · by_cases hk : x.key = e.key
      · refine ⟨e, by rw [hk, AList.lookup_insert], ?_⟩
        rcases List.mem_append.1 hx with hx | hx
        · obtain ⟨b, hb, hbest⟩ := h.best x hx
          have heb := hold b (hk ▸ hb)
          rw [← Bool.not_eq_true]
          intro hxe
          rw [better_trans hxe heb] at hbest
          cases hbest
        · rw [List.mem_singleton.1 hx]
          exact better_irrefl e
      · rw [AList.lookup_insert_ne hk]
        rcases List.mem_append.1 hx with hx | hx
        · exact h.best x hx
        · exact absurd (congrArg Edge.key (List.mem_singleton.1 hx)) hk
  unfold keepBest
  split
  · rename_i hnone
    exact hinsert fun b hb => by rw [hnone] at hb; cases hb
  · rename_i old hold
    split
    · rename_i hbetter
      exact hinsert fun b hb => by rw [hold] at hb; cases hb; exact hbetter
    · rename_i hworse
      refine ⟨fun k x hx => ⟨(h.own k x hx).1, List.mem_append_left _ (h.own k x hx).2⟩, fun x hx => ?_⟩
      rcases List.mem_append.1 hx with hx | hx
      · exact h.best x hx
      · rw [List.mem_singleton.1 hx]
        exact ⟨old, hold, Bool.eq_false_of_not_eq_true hworse⟩

theorem bestOf_foldl (l seen : List Edge) {best : AList fun _ : Text × Text => Edge} (h : BestOf seen best) :
    BestOf (seen ++ l) (l.foldl keepBest best) := by
  induction l generalizing seen best with
  | nil =>
    rw [List.append_nil]
    exact h
  | cons e l ih =>
    have hassoc : seen ++ e :: l = (seen ++ [e]) ++ l := by rw [List.append_assoc]; rfl
    rw [hassoc]
    exact ih (seen ++ [e]) (bestOf_keepBest h e)

section Matrix

variable {m : ReachabilityMatrix} {primaryInterface primaryServerKey : Text}

theorem bestOf_cells : BestOf (cellEdges m primaryInterface primaryServerKey)
    ((cellEdges m primaryInterface primaryServerKey).foldl keepBest ∅) :=
  bestOf_foldl _ [] ⟨nofun, nofun⟩

/-- The edges are the best ones of their pairs. -/
theorem mem_edges {e : Edge} : e ∈ edges m primaryInterface primaryServerKey ↔
    ((cellEdges m primaryInterface primaryServerKey).foldl keepBest ∅).lookup e.key = some e := by
  unfold edges
  rw [List.mem_insertionSort, List.mem_map]
  constructor
  · rintro ⟨⟨k, x⟩, hx, rfl⟩
    have hl := AList.mem_lookup_iff.2 hx
    rw [(bestOf_cells.own k x hl).1]
    exact hl
  · intro hl
    exact ⟨⟨e.key, e⟩, AList.mem_lookup_iff.1 hl, rfl⟩

theorem eq_of_key {a b : Edge} (ha : a ∈ edges m primaryInterface primaryServerKey)
    (hb : b ∈ edges m primaryInterface primaryServerKey) (h : a.key = b.key) : a = b := by
  have hl := mem_edges.1 ha
  rw [h, mem_edges.1 hb] at hl
  cases hl
  rfl

theorem edges_nodup : (edges m primaryInterface primaryServerKey).Nodup := by
  refine (List.perm_insertionSort _ _).nodup_iff.2 ?_
  refine (List.nodup_map_iff_inj_on ?_).2 fun x hx y hy hxy => ?_
  · exact List.Nodup.of_map Sigma.fst (AList.nodupKeys _)
  · have hkx := (bestOf_cells.own x.1 x.2 (AList.mem_lookup_iff.2 hx)).1
    have hky := (bestOf_cells.own y.1 y.2 (AList.mem_lookup_iff.2 hy)).1
    cases x
    cases y
    cases hxy
    cases hkx.symm.trans hky
    rfl

theorem edges_sorted : (edges m primaryInterface primaryServerKey).Pairwise fun a b => better a b = true := by
  have hsorted : (edges m primaryInterface primaryServerKey).Pairwise fun a b => better b a = false := by
    have htotal : Std.Total fun a b => better b a = false := ⟨fun a b => by
      by_cases hab : a = b
      · rw [hab]
        exact .inl (better_irrefl b)
      · cases hba : better b a with
        | false => exact .inl rfl
        | true =>
          refine .inr (Bool.eq_false_of_not_eq_true fun h => ?_)
          have hcycle := better_trans h hba
          rw [better_irrefl] at hcycle
          cases hcycle⟩
    have htrans : IsTrans Edge fun a b => better b a = false := ⟨fun a b c hab hbc => by
      rw [← Bool.not_eq_true, better_iff, not_lt] at hab hbc ⊢
      exact hab.trans hbc⟩
    exact List.pairwise_insertionSort _ _
  refine (hsorted.and edges_nodup).imp fun h => ?_
  exact better_total h.2 h.1

theorem mem_cellEdges {e : Edge} : e ∈ cellEdges m primaryInterface primaryServerKey ↔
    ∃ i j, e = edgeAt m i j ∧ Reachable m i j ∧ m.ifaceKeyOf i ∉ usedClient primaryInterface ∧
      groupOf (m.endpoint j) ∉ usedServer m primaryServerKey := by
  unfold cellEdges
  rw [List.mem_flatMap]
  constructor
  · rintro ⟨i, hi, he⟩
    unfold rowEdges at he
    split at he
    · cases he
    · rename_i hfree
      obtain ⟨j, hj, rfl⟩ := List.mem_map.1 he
      obtain ⟨hrange, hcell⟩ := List.mem_filter.1 hj
      rw [Bool.and_eq_true, Bool.not_eq_true', decide_eq_false_iff_not] at hcell
      have hlt := List.mem_range.1 hrange
      exact ⟨i, j, rfl, ⟨List.mem_range.1 hi, by omega, hcell.1⟩, hfree, hcell.2⟩
  · rintro ⟨i, j, rfl, ⟨hi, hj, hcell⟩, hfree, hserver⟩
    refine ⟨i, List.mem_range.2 hi, ?_⟩
    unfold rowEdges
    rw [if_neg hfree]
    refine List.mem_map.2 ⟨j, List.mem_filter.2 ⟨List.mem_range.2 ?_, ?_⟩, rfl⟩
    · -- a cell that is not there is not reachable
      have hlength : j < (m.cells.getD i []).length := by
        by_contra hge
        unfold ReachabilityMatrix.cell at hcell
        rw [List.getD_eq_getElem?_getD, List.getElem?_eq_none (Nat.le_of_not_lt hge)] at hcell
        cases hcell
      omega
    · rw [hcell, decide_eq_false hserver]
      rfl

/-- Every pair of the NIC graph has its best edge. -/
theorem edge_of_pair {pair : Text × Text} (h : NicEdge m primaryInterface primaryServerKey pair) :
    ∃ e ∈ edges m primaryInterface primaryServerKey, e.key = pair := by
  obtain ⟨hclient, hserver, i, j, hreach, hi, hj⟩ := h
  have hcell : edgeAt m i j ∈ cellEdges m primaryInterface primaryServerKey :=
    mem_cellEdges.2 ⟨i, j, rfl, hreach, by rw [hi]; exact hclient, by rw [hj]; exact hserver⟩
  obtain ⟨b, hb, -⟩ := bestOf_cells.best _ hcell
  have hkey := (bestOf_cells.own _ _ hb).1
  refine ⟨b, mem_edges.2 (by rw [hkey]; exact hb), hkey.trans ?_⟩
  exact Prod.ext hi hj

/-- An edge belongs to a reachable cell between NICs that are free, and no such cell of its pair is better. -/
theorem of_mem_edges {e : Edge} (he : e ∈ edges m primaryInterface primaryServerKey) :
    (e = edgeAt m e.row e.col ∧ Reachable m e.row e.col ∧ e.clientNic ∉ usedClient primaryInterface ∧
        e.serverNic ∉ usedServer m primaryServerKey) ∧
      ∀ i j, Reachable m i j → (edgeAt m i j).key = e.key → better (edgeAt m i j) e = false := by
  have hl := mem_edges.1 he
  obtain ⟨i, j, rfl, hreach, hclient, hserver⟩ := mem_cellEdges.1 (bestOf_cells.own _ _ hl).2
  refine ⟨⟨rfl, hreach, hclient, hserver⟩, fun i' j' hreach' hkey => ?_⟩
  have hi : m.ifaceKeyOf i' = m.ifaceKeyOf i := congrArg Prod.fst hkey
  have hj : groupOf (m.endpoint j') = groupOf (m.endpoint j) := congrArg Prod.snd hkey
  obtain ⟨b, hb, hbest⟩ := bestOf_cells.best (edgeAt m i' j')
    (mem_cellEdges.2 ⟨i', j', rfl, hreach', by rw [hi]; exact hclient, by rw [hj]; exact hserver⟩)
  rw [hkey, hl] at hb
  cases hb
  exact hbest

theorem nicEdge_of_mem {e : Edge} (he : e ∈ edges m primaryInterface primaryServerKey) :
    NicEdge m primaryInterface primaryServerKey e.key := by
  obtain ⟨⟨heq, hreach, hclient, hserver⟩, -⟩ := of_mem_edges he
  exact ⟨hclient, hserver, e.row, e.col, hreach, congrArg Edge.clientNic heq.symm, congrArg Edge.serverNic heq.symm⟩

end Matrix

/-! ### Matchings of edges -/

/-- No two edges share a NIC. -/
def EdgeMatching (l : List Edge) : Prop := (l.map Edge.clientNic).Nodup ∧ (l.map Edge.serverNic).Nodup

theorem EdgeMatching.nodup {l : List Edge} (h : EdgeMatching l) : l.Nodup := h.1.of_map

theorem EdgeMatching.perm {l l' : List Edge} (h : EdgeMatching l) (hp : l.Perm l') : EdgeMatching l' :=
  ⟨(hp.map _).nodup_iff.1 h.1, (hp.map _).nodup_iff.1 h.2⟩

theorem EdgeMatching.sublist {l l' : List Edge} (h : EdgeMatching l) (hs : l'.Sublist l) : EdgeMatching l' :=
  ⟨h.1.sublist (hs.map _), h.2.sublist (hs.map _)⟩

theorem EdgeMatching.subset {l l' : List Edge} (h : EdgeMatching l) (hnodup : l'.Nodup) (hs : l' ⊆ l) : EdgeMatching l' := by
  obtain ⟨l'', hperm, hsub⟩ := hnodup.subperm hs
  exact (h.sublist hsub).perm hperm

/-- The edges of `l` in the order of `edges`. -/
def inOrder (edges l : List Edge) : List Edge := edges.filter fun e => decide (e ∈ l)

theorem inOrder_sublist (edges l : List Edge) : (inOrder edges l).Sublist edges := List.filter_sublist

theorem inOrder_perm {edges l : List Edge} (hedges : edges.Nodup) (hl : l.Nodup) (hs : l ⊆ edges) :
    (inOrder edges l).Perm l := by
  refine (List.perm_ext_iff_of_nodup (hedges.filter _) hl).2 fun e => ?_
  rw [List.mem_filter, decide_eq_true_iff]
  exact ⟨And.right, fun he => ⟨hs he, he⟩⟩

/-- The edges without a NIC of `committed`. -/
def Free (committed : List Edge) (e : Edge) : Prop :=
  e.clientNic ∉ committed.map Edge.clientNic ∧ e.serverNic ∉ committed.map Edge.serverNic

theorem matching_append {l l' : List Edge} (h : EdgeMatching l) (h' : EdgeMatching l') (hfree : ∀ e ∈ l', Free l e) :
    EdgeMatching (l ++ l') := by
  unfold EdgeMatching
  rw [List.map_append, List.map_append, List.nodup_append, List.nodup_append]
  refine ⟨⟨h.1, h'.1, fun a ha b hb hab => ?_⟩, ⟨h.2, h'.2, fun a ha b hb hab => ?_⟩⟩
  · obtain ⟨e, he, rfl⟩ := List.mem_map.1 hb
    exact (hfree e he).1 (hab ▸ ha)
  · obtain ⟨e, he, rfl⟩ := List.mem_map.1 hb
    exact (hfree e he).2 (hab ▸ ha)

/-! ### What `maxMatching` computes -/

theorem mem_nicsOf {names : List Text} {n : Text} : n ∈ nicsOf names ↔ n ∈ names := by
  unfold nicsOf
  rw [List.mem_dedup, List.mem_insertionSort]

theorem mem_adjacency {edges : List Edge} {c s : Text} : s ∈ adjacency edges c ↔ ∃ e ∈ edges, e.key = (c, s) := by
  unfold adjacency
  rw [List.mem_map]
  constructor
  · rintro ⟨e, he, rfl⟩
    obtain ⟨hmem, hc⟩ := List.mem_filter.1 he
    exact ⟨e, hmem, Prod.ext (of_decide_eq_true hc) rfl⟩
  · rintro ⟨e, he, hkey⟩
    cases hkey
    exact ⟨e, List.mem_filter.2 ⟨he, decide_eq_true rfl⟩, rfl⟩

section Kuhn

variable {edges : List Edge} {blocked : Text → Bool} {servers : Finset Text}

/-- The edges of a matching of NICs. -/
def matched (edges : List Edge) (M : Text → Option Text) : List Edge :=
  edges.filter fun e => decide (M e.serverNic = some e.clientNic)

theorem mem_matched {M : Text → Option Text} {e : Edge} :
    e ∈ matched edges M ↔ e ∈ edges ∧ M e.serverNic = some e.clientNic := by
  unfold matched
  rw [List.mem_filter, decide_eq_true_iff]

theorem matched_spec (hnodup : edges.Nodup) (hkeys : ∀ a ∈ edges, ∀ b ∈ edges, a.key = b.key → a = b)
    (hadj : ∀ c, ∀ s ∈ adjacency edges c, s ∈ servers) {M : Text → Option Text}
    (hvalid : Kuhn.Valid (adjacency edges) blocked M) (hheld : (Kuhn.held servers M).Nodup) :
    EdgeMatching (matched edges M) ∧ (matched edges M).length = (Kuhn.held servers M).card := by
  have hserver : ∀ {s c}, M s = some c → s ∈ servers := fun hsc => hadj _ _ (hvalid _ _ hsc).1
  have hclients : ((matched edges M).map Edge.clientNic).Nodup := by
    refine List.Nodup.map_on (fun a ha b hb hab => ?_) (hnodup.filter _)
    obtain ⟨ha, hpa⟩ := mem_matched.1 ha
    obtain ⟨hb, hpb⟩ := mem_matched.1 hb
    rw [← hab] at hpb
    exact hkeys a ha b hb (Prod.ext hab (Kuhn.inj_of_nodup hheld (hserver hpa) (hserver hpb) hpa hpb))
  refine ⟨⟨hclients, List.Nodup.map_on (fun a ha b hb hab => ?_) (hnodup.filter _)⟩, ?_⟩
  · obtain ⟨ha, hpa⟩ := mem_matched.1 ha
    obtain ⟨hb, hpb⟩ := mem_matched.1 hb
    rw [← hab, hpa] at hpb
    exact hkeys a ha b hb (Prod.ext (Option.some.inj hpb) hab)
  · have heq : (((matched edges M).map Edge.clientNic : List Text) : Multiset Text) = Kuhn.held servers M := by
      refine (Multiset.Nodup.ext (Multiset.coe_nodup.2 hclients) hheld).2 fun c => ?_
      rw [Multiset.mem_coe, List.mem_map, Kuhn.mem_held]
      constructor
      · rintro ⟨e, he, rfl⟩
        exact ⟨e.serverNic, hserver (mem_matched.1 he).2, (mem_matched.1 he).2⟩
      · rintro ⟨s, hs, hsc⟩
        obtain ⟨e, he, hkey⟩ := mem_adjacency.1 (hvalid s c hsc).1
        cases hkey
        exact ⟨e, mem_matched.2 ⟨he, hsc⟩, rfl⟩
    rw [← heq, Multiset.coe_card, List.length_map]

/-- The client's NIC that `l` links with a server's. -/
def partner (l : List Edge) (s : Text) : Option Text :=
  (l.find? fun e => decide (e.serverNic = s)).map Edge.clientNic

theorem edge_of_partner {l : List Edge} {s c : Text} (h : partner l s = some c) : ∃ e ∈ l, e.key = (c, s) := by
  obtain ⟨e, he, rfl⟩ := Option.map_eq_some_iff.1 h
  have hs : e.serverNic = s := by simpa using List.find?_some he
  exact ⟨e, List.mem_of_find?_eq_some he, Prod.ext rfl hs⟩

theorem partner_of_mem {l : List Edge} (h : EdgeMatching l) {e : Edge} (he : e ∈ l) :
    partner l e.serverNic = some e.clientNic := by
  unfold partner
  cases hfind : l.find? fun x => decide (x.serverNic = e.serverNic) with
  | none => exact absurd (decide_eq_true rfl) (List.find?_eq_none.1 hfind e he)
  | some x =>
    have hx : x.serverNic = e.serverNic := by simpa using List.find?_some hfind
    rw [List.inj_on_of_nodup_map h.2 (List.mem_of_find?_eq_some hfind) he hx]
    rfl

theorem partner_matching {l : List Edge} (hl : l ⊆ edges) (h : EdgeMatching l)
    (hfree : ∀ e ∈ l, blocked e.serverNic = false) : Kuhn.Matching (adjacency edges) blocked (partner l) := by
  refine ⟨fun s c hsc => ?_, fun s t c hsc htc => ?_⟩
  · obtain ⟨e, he, hkey⟩ := edge_of_partner hsc
    cases hkey
    exact ⟨mem_adjacency.2 ⟨e, hl he, rfl⟩, hfree e he⟩
  · obtain ⟨a, ha, hkeya⟩ := edge_of_partner hsc
    obtain ⟨b, hb, hkeyb⟩ := edge_of_partner htc
    cases hkeya
    have hab : b.clientNic = a.clientNic := congrArg Prod.fst hkeyb
    rw [List.inj_on_of_nodup_map h.1 hb ha hab] at hkeyb
    exact congrArg Prod.snd hkeyb

theorem length_le_size (hadj : ∀ c, ∀ s ∈ adjacency edges c, s ∈ servers) {l : List Edge} (hl : l ⊆ edges)
    (h : EdgeMatching l) : l.length ≤ Kuhn.size servers (partner l) := by
  have hle : ((l.map Edge.clientNic : List Text) : Multiset Text) ≤ Kuhn.held servers (partner l) := by
    refine (Multiset.le_iff_subset (Multiset.coe_nodup.2 h.1)).2 fun c hc => ?_
    obtain ⟨e, he, rfl⟩ := List.mem_map.1 (Multiset.mem_coe.1 hc)
    have hin := hadj e.clientNic e.serverNic (mem_adjacency.2 ⟨e, hl he, rfl⟩)
    exact Kuhn.mem_held.2 ⟨e.serverNic, hin, partner_of_mem h he⟩
  have hcard := Multiset.card_le_card hle
  rwa [Multiset.coe_card, List.length_map] at hcard

end Kuhn

/-- `maxMatching` is the size of a largest matching of the edges that are free, and some matching has it. -/
theorem maxMatching_spec {edges : List Edge} (hnodup : edges.Nodup)
    (hkeys : ∀ a ∈ edges, ∀ b ∈ edges, a.key = b.key → a = b) (committed : List Edge) :
    (∃ l ⊆ edges, EdgeMatching l ∧ (∀ e ∈ l, Free committed e) ∧ l.length = maxMatching edges committed) ∧
      ∀ l ⊆ edges, EdgeMatching l → (∀ e ∈ l, Free committed e) → l.length ≤ maxMatching edges committed := by
  obtain ⟨servers, hservers⟩ : ∃ servers, servers = (nicsOf (edges.map Edge.serverNic)).toFinset := ⟨_, rfl⟩
  have hadj : ∀ c, ∀ s ∈ adjacency edges c, s ∈ servers := by
    intro c s hs
    obtain ⟨e, he, hkey⟩ := mem_adjacency.1 hs
    rw [hservers, List.mem_toFinset, mem_nicsOf]
    exact List.mem_map.2 ⟨e, he, congrArg Prod.snd hkey⟩
  have hcard : servers.card < (nicsOf (edges.map Edge.serverNic)).length + 1 := by
    rw [hservers]
    exact Nat.lt_succ_of_le (List.toFinset_card_le _)
  have hclients : ((nicsOf (edges.map Edge.clientNic)).filter fun c =>
      !decide (c ∈ committed.map Edge.clientNic)).Nodup := (List.nodup_dedup _).filter _
  have hbest : Kuhn.Best (adjacency edges) (fun s => decide (s ∈ committed.map Edge.serverNic)) servers _ _ :=
    Kuhn.phases_maximum hadj hcard hclients
  have hcount : _ = maxMatching edges committed := hbest.count
  obtain ⟨hmatch, hlength⟩ := matched_spec hnodup hkeys hadj hbest.valid hbest.nodup
  refine ⟨⟨_, List.filter_subset_self .., hmatch, fun e he => ?_, hlength.trans hcount⟩, fun l hl h hfree => ?_⟩
  · have hpartner := (mem_matched.1 he).2
    have hserver := hbest.valid _ _ hpartner
    have hclient := hbest.inside _ (Kuhn.mem_held.2 ⟨_, hadj _ _ hserver.1, hpartner⟩)
    exact ⟨by simpa using (List.mem_filter.1 hclient).2, of_decide_eq_false hserver.2⟩
  · refine (length_le_size hadj hl h).trans (hbest.maximum _ ?_ fun s c hsc => ?_)
    · exact partner_matching hl h fun e he => decide_eq_false (hfree e he).2
    · obtain ⟨e, he, hkey⟩ := edge_of_partner hsc
      cases hkey
      refine List.mem_filter.2 ⟨mem_nicsOf.2 (List.mem_map_of_mem (hl he)), ?_⟩
      rw [decide_eq_false (hfree e he).1]
      rfl

/-! ### The last loop -/

/-- The guards of the last loop. -/
def Takes (edges : List Edge) (kMax : ℕ) (chosen : List Edge) (e : Edge) : Prop :=
  chosen.length < kMax ∧ Free chosen e ∧ kMax ≤ chosen.length + 1 + maxMatching edges (chosen ++ [e])

open Classical in
/-- The last loop is a greedy selection. -/
theorem foldl_commit (edges : List Edge) (kMax : ℕ) (l chosen : List Edge) :
    l.foldl (commit edges kMax) chosen =
      LexGreedy.select (fun chosen e => decide (Takes edges kMax chosen e)) chosen l := by
  induction l generalizing chosen with
  | nil => rfl
  | cons e l ih =>
    rw [List.foldl_cons, ih, LexGreedy.select]
    congr 1
    unfold commit
    by_cases htakes : Takes edges kMax chosen e
    · rw [if_neg (Nat.not_le_of_lt htakes.1), if_neg (not_or.2 htakes.2.1), if_pos htakes.2.2,
        if_pos (decide_eq_true htakes)]
    · rw [if_neg (c := decide (Takes edges kMax chosen e) = true) (by simpa using htakes)]
      split_ifs with hfull hused hrest
      · rfl
      · rfl
      · exact absurd ⟨Nat.lt_of_not_le hfull, not_or.1 hused, hrest⟩ htakes
      · rfl

/-- The matchings of the wanted size, best first. -/
def Base (edges : List Edge) (kMax : ℕ) (B : List Edge) : Prop :=
  B.Sublist edges ∧ EdgeMatching B ∧ B.length = kMax

section Loop

variable {edges : List Edge} {kMax : ℕ}

/-- Some matching in any order is one best first. -/
theorem base_of_matching (hnodup : edges.Nodup) {l : List Edge} (hsub : l ⊆ edges) (hmatch : EdgeMatching l)
    (hlength : l.length = kMax) : ∃ B, Base edges kMax B ∧ l ⊆ B := by
  have hperm := inOrder_perm hnodup hmatch.nodup hsub
  exact ⟨inOrder edges l, ⟨inOrder_sublist _ _, hmatch.perm hperm.symm, hperm.length_eq.trans hlength⟩, hperm.symm.subset⟩

/-- What is left of a matching beside some of its edges is free. -/
theorem free_of_matching {B l : List Edge} (hmatch : EdgeMatching B) (hl : l ⊆ B) {x : Edge} (hx : x ∈ B)
    (hout : x ∉ l) : Free l x := by
  refine ⟨fun h => ?_, fun h => ?_⟩
  · obtain ⟨a, ha, hax⟩ := List.mem_map.1 h
    exact hout (List.inj_on_of_nodup_map hmatch.1 (hl ha) hx hax ▸ ha)
  · obtain ⟨a, ha, hax⟩ := List.mem_map.1 h
    exact hout (List.inj_on_of_nodup_map hmatch.2 (hl ha) hx hax ▸ ha)

theorem takes_iff (hnodup : edges.Nodup) (hkeys : ∀ a ∈ edges, ∀ b ∈ edges, a.key = b.key → a = b)
    {chosen : List Edge} {e : Edge} (hsub : (chosen ++ [e]).Sublist edges) (hbasis : ∃ B, Base edges kMax B ∧ chosen ⊆ B) :
    Takes edges kMax chosen e ↔ ∃ B, Base edges kMax B ∧ chosen ++ [e] ⊆ B := by
  have hnodup' : (chosen ++ [e]).Nodup := hnodup.sublist hsub
  obtain ⟨⟨l, hl, hmatch, hfree, hlength⟩, hmax⟩ := maxMatching_spec hnodup hkeys (chosen ++ [e])
  constructor
  · rintro ⟨hlt, hfreeE, hrest⟩
    obtain ⟨B, hB, hin⟩ := hbasis
    have hchosen : EdgeMatching chosen := hB.2.1.subset hnodup'.of_append_left hin
    have hcommit : EdgeMatching (chosen ++ [e]) := by
      refine matching_append hchosen ⟨List.nodup_singleton _, List.nodup_singleton _⟩ fun x hx => ?_
      rw [List.mem_singleton.1 hx]
      exact hfreeE
    -- as many of the free edges as are missing
    have hrestSub : (l.take (kMax - (chosen.length + 1))).Sublist l := List.take_sublist _ _
    have hall : (chosen ++ [e]) ++ l.take (kMax - (chosen.length + 1)) ⊆ edges :=
      List.append_subset.2 ⟨hsub.subset, List.Subset.trans hrestSub.subset hl⟩
    have hsize : ((chosen ++ [e]) ++ l.take (kMax - (chosen.length + 1))).length = kMax := by
      rw [List.length_append, List.length_append, List.length_take, List.length_singleton]
      omega
    obtain ⟨B', hB', hin'⟩ := base_of_matching hnodup hall
      (matching_append hcommit (hmatch.sublist hrestSub) fun x hx => hfree x (hrestSub.mem hx)) hsize
    exact ⟨B', hB', List.Subset.trans (List.subset_append_left _ _) hin'⟩
  · rintro ⟨B, ⟨hBsub, hBmatch, hBlength⟩, hin⟩
    have hinside : (inOrder B (chosen ++ [e])).length = chosen.length + 1 := by
      rw [(inOrder_perm hBmatch.nodup hnodup' hin).length_eq, List.length_append, List.length_singleton]
    have hsplit := List.length_eq_length_filter_add (l := B) fun x => decide (x ∈ chosen ++ [e])
    have hrest := hmax (B.filter fun x => !decide (x ∈ chosen ++ [e]))
      (List.Subset.trans (List.filter_subset_self ..) hBsub.subset) (hBmatch.sublist List.filter_sublist) fun x hx => by
        obtain ⟨hx, hout⟩ := List.mem_filter.1 hx
        exact free_of_matching hBmatch hin hx (by simpa using hout)
    unfold inOrder at hinside
    refine ⟨by omega, ?_, by omega⟩
    refine free_of_matching hBmatch (fun x hx => hin (List.mem_append_left _ hx)) (hin ?_) fun he => ?_
    · exact List.mem_append_right _ List.mem_cons_self
    · exact (List.nodup_append.1 hnodup').2.2 e he e List.mem_cons_self rfl

open Classical in
theorem family (hsorted : edges.Pairwise fun a b => better a b = true) (hnodup : edges.Nodup)
    (hkeys : ∀ a ∈ edges, ∀ b ∈ edges, a.key = b.key → a = b) :
    LexGreedy.Family (fun a b => better a b = true) edges (Base edges kMax)
      (fun chosen e => decide (Takes edges kMax chosen e)) where
  sorted := hsorted
  nodup := hnodup
  sublist _ hB := hB.1
  length _ _ hB hB' := hB.2.2.trans hB'.2.2.symm
  test _ _ hsub hbasis := decide_eq_true_iff.trans (takes_iff hnodup hkeys hsub hbasis)

end Loop

/-! ### The selection -/

section Matrix

variable (m : ReachabilityMatrix) (primaryInterface primaryServerKey : Text)

/-- The matchings of the NIC graph are as large as those of its best edges. -/
theorem maxMatching_maximumSize : MaximumSize (NicEdge m primaryInterface primaryServerKey)
    (maxMatching (edges m primaryInterface primaryServerKey) []) := by
  have hnodup : (edges m primaryInterface primaryServerKey).Nodup := edges_nodup
  obtain ⟨⟨l, hl, hmatch, -, hlength⟩, hmax⟩ := maxMatching_spec hnodup (fun a ha b hb => eq_of_key ha hb) []
  refine ⟨⟨l.map Edge.key, fun p hp => ?_, ?_, (List.length_map _).trans hlength⟩, fun P hP hmatchP => ?_⟩
  · obtain ⟨e, he, rfl⟩ := List.mem_map.1 hp
    exact nicEdge_of_mem (hl he)
  · unfold IsMatching
    rw [List.map_map, List.map_map]
    exact hmatch
  · -- the best edges of the pairs
    have : Nonempty Edge := ⟨edgeAt m 0 0⟩
    choose! edgeOf hmem hkey using fun p (hp : p ∈ P) => edge_of_pair (hP p hp)
    have hfst : (P.map edgeOf).map Edge.clientNic = P.map Prod.fst := by
      rw [List.map_map]
      exact List.map_congr_left fun p hp => congrArg Prod.fst (hkey p hp)
    have hsnd : (P.map edgeOf).map Edge.serverNic = P.map Prod.snd := by
      rw [List.map_map]
      exact List.map_congr_left fun p hp => congrArg Prod.snd (hkey p hp)
    have hle := hmax (P.map edgeOf) (fun e he => ?_) ⟨hfst ▸ hmatchP.1, hsnd ▸ hmatchP.2⟩ fun _ _ => ⟨nofun, nofun⟩
    · rwa [List.length_map] at hle
    · obtain ⟨p, hp, rfl⟩ := List.mem_map.1 he
      exact hmem p hp

variable {m primaryInterface primaryServerKey} in
theorem mem_edges_iff {e : Edge} :
    e ∈ edges m primaryInterface primaryServerKey ↔ BestEdge m primaryInterface primaryServerKey e := by
  constructor
  · intro he
    obtain ⟨⟨heq, hreach, -⟩, hbest⟩ := of_mem_edges he
    exact ⟨⟨heq, hreach, nicEdge_of_mem he⟩, hbest⟩
  · rintro ⟨⟨heq, hreach, hnic⟩, hbest⟩
    obtain ⟨b, hb, hkey⟩ := edge_of_pair hnic
    obtain ⟨⟨hbeq, hbreach, -⟩, hbbest⟩ := of_mem_edges hb
    have hbe := hbest b.row b.col hbreach (by rw [← hbeq, hkey])
    have heb := hbbest e.row e.col hreach (by rw [← heq, hkey])
    rw [← hbeq] at hbe
    rw [← heq] at heb
    by_cases h : b = e
    · exact h ▸ hb
    · rw [better_total (Ne.symm h) hbe] at heb
      cases heb

theorem chosenEdges_base (maxConnections : ℕ) :
    Base (edges m primaryInterface primaryServerKey) (kMax m maxConnections primaryInterface primaryServerKey)
        (chosenEdges m maxConnections primaryInterface primaryServerKey) ∧
      ∀ B, Base (edges m primaryInterface primaryServerKey) (kMax m maxConnections primaryInterface primaryServerKey) B →
        chosenEdges m maxConnections primaryInterface primaryServerKey = B ∨
          List.Lex (fun a b => better a b = true) (chosenEdges m maxConnections primaryInterface primaryServerKey) B := by
  have hkeys : ∀ a ∈ edges m primaryInterface primaryServerKey, ∀ b ∈ edges m primaryInterface primaryServerKey,
      a.key = b.key → a = b := fun a ha b hb => eq_of_key ha hb
  unfold chosenEdges
  split
  · rename_i hfull
    have hzero : kMax m maxConnections primaryInterface primaryServerKey = 0 := by
      unfold kMax
      omega
    rw [hzero]
    exact ⟨⟨List.nil_sublist _, ⟨.nil, .nil⟩, rfl⟩, fun B hB => .inl (List.length_eq_zero_iff.1 hB.2.2).symm⟩
  · rw [foldl_commit]
    refine LexGreedy.select_least (family edges_sorted edges_nodup hkeys) ?_
    obtain ⟨⟨l, hl, hmatch, -, hlength⟩, -⟩ := maxMatching_spec edges_nodup hkeys []
    have hle : kMax m maxConnections primaryInterface primaryServerKey ≤ l.length := by
      rw [hlength]
      exact Nat.min_le_right _ _
    have hsub := List.take_sublist (kMax m maxConnections primaryInterface primaryServerKey) l
    obtain ⟨B, hB, -⟩ := base_of_matching edges_nodup (List.Subset.trans hsub.subset hl) (hmatch.sublist hsub)
      (List.length_take_of_le hle)
    exact ⟨B, hB⟩

variable {m primaryServerKey} in
theorem primaryGroup_of_find {ep : ServerEndpoint}
    (h : (m.serverEndpoints.find? fun ep => serverKey ep = primaryServerKey) = some ep) :
    groupOf ep ∈ usedServer m primaryServerKey := by
  have hkey : serverKey ep = primaryServerKey := by simpa using List.find?_some h
  have hne : primaryServerKey ≠ [] := by
    rw [← hkey]
    unfold serverKey
    simp
  unfold usedServer primaryGroup
  rw [if_neg hne, h]
  exact List.mem_cons_self

/-- **SelectAutoLinks returns an optimal matching.** -/
theorem selectAutoLinks_optimal (maxConnections : ℕ) :
    ∃ links, selectAutoLinks m maxConnections primaryInterface primaryServerKey = links.map (planOf m) ∧
      Optimal m maxConnections primaryInterface primaryServerKey links := by
  obtain ⟨⟨hsub, hmatch, hlength⟩, hleast⟩ := chosenEdges_base m primaryInterface primaryServerKey maxConnections
  have hbest := fun e he => mem_edges_iff.1 (hsub.subset (a := e) he)
  refine ⟨_, rfl, ?_⟩
  constructor
  case cells => exact fun e he => ⟨(hbest e he).1.1, (hbest e he).1.2.1⟩
  case matching =>
    unfold IsMatching
    rw [List.map_map, List.map_map]
    exact hmatch
  case client =>
    intro hne hin
    obtain ⟨e, he, heq⟩ := List.mem_map.1 hin
    refine (hbest e he).1.2.2.1 ?_
    unfold usedClient
    rw [if_neg hne]
    exact List.mem_singleton.2 heq
  case server =>
    intro ep hfind hin
    obtain ⟨e, he, heq⟩ := List.mem_map.1 hin
    refine (hbest e he).1.2.2.2.1 ?_
    show e.serverNic ∈ _
    rw [heq]
    exact primaryGroup_of_find hfind
  case number => exact ⟨_, maxMatching_maximumSize m primaryInterface primaryServerKey, hlength⟩
  case best => exact hbest
  case sorted => exact edges_sorted.sublist hsub
  case least =>
    intro B hB hsorted hmatchB hlengthB
    refine hleast B ⟨?_, ?_, hlengthB.trans hlength⟩
    · -- a sorted list of edges is a sublist of the sorted list of all
      have hnodup : B.Nodup := hsorted.imp fun h heq => by
        rw [heq, better_irrefl] at h
        cases h
      have hantisymm : Std.Antisymm fun a b => better a b = true := ⟨fun a b hab hba => by
        have hcycle := better_trans hab hba
        rw [better_irrefl] at hcycle
        cases hcycle⟩
      exact List.sublist_of_subperm_of_pairwise (hnodup.subperm fun e he => mem_edges_iff.2 (hB e he)) hsorted edges_sorted
    · unfold IsMatching at hmatchB
      rw [List.map_map, List.map_map] at hmatchB
      exact hmatchB

end Matrix

end FastClone.Links
