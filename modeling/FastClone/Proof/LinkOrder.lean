import FastClone.Proof.Endpoint
import FastClone.Proof.Links
import FastClone.Spec.LinkOrder
import Mathlib.Data.List.GetD
import Mathlib.Logic.Equiv.Basic

/-!
# When the links depend on the order of enumeration

The scores of the links are the least maximum matching of the NICs (`leastMatching_of_optimal`), which is unique and
the same in every order of the rows and columns (`Permuted.leastMatching`). Only the cell that stands for two NICs may
change with the order: it does not if and only if no other cell has the same score (`orderFree_iff`).
-/

namespace FastClone.Links

open FastClone.Endpoint

/-! ### Scores -/

theorem score_eq_iff (a b : Edge) : a.score = b.score ↔ a.family = b.family ∧ a.subnet = b.subnet ∧ a.rtt = b.rtt ∧
    a.clientNic = b.clientNic ∧ a.serverNic = b.serverNic := by
  cases a
  cases b
  constructor
  · intro h
    cases h
    exact ⟨rfl, rfl, rfl, rfl, rfl⟩
  · rintro ⟨rfl, rfl, rfl, rfl, rfl⟩
    rfl

theorem better_iff_score (a b : Edge) : better a b = true ↔
    a.score < b.score ∨ a.score = b.score ∧ (a.row < b.row ∨ a.row = b.row ∧ a.col < b.col) := by
  rw [better_iff, score_eq_iff]
  unfold Edge.rank Edge.score
  refine Prod.Lex.toLex_lt_toLex.trans ?_
  refine Iff.trans ?_ (or_congr Prod.Lex.toLex_lt_toLex.symm Iff.rfl)
  simp only [Prod.Lex.toLex_lt_toLex]
  tauto

theorem score_nics (e : Edge) : e.score.nics = e.key := rfl

theorem better_of_score {a b : Edge} (h : a.score < b.score) : better a b = true := (better_iff_score a b).2 (.inl h)

theorem score_le {a b : Edge} (h : better b a = false) : a.score ≤ b.score := by
  by_contra hlt
  rw [better_of_score (not_le.1 hlt)] at h
  cases h

theorem score_lt {a b : Edge} (h : better a b = true) (hkey : a.key ≠ b.key) : a.score < b.score := by
  rcases (better_iff_score a b).1 h with h | ⟨h, -⟩
  · exact h
  · exact absurd (congrArg Score.nics h) hkey

/-! ### The scores of the links -/

section Matrix

variable {m : ReachabilityMatrix} {maxConnections : ℕ} {primaryInterface primaryServerKey : Text}

theorem bestScore_of_bestEdge {e : Edge} (h : BestEdge m primaryInterface primaryServerKey e) :
    BestScore m primaryInterface primaryServerKey e.score :=
  ⟨h.1.2.2, ⟨e.row, e.col, h.1.2.1, congrArg Edge.score h.1.1.symm⟩, fun i j hreach hkey => score_le (h.2 i j hreach hkey)⟩

theorem bestEdge_of_bestScore {s : Score} (h : BestScore m primaryInterface primaryServerKey s) :
    ∃ e, BestEdge m primaryInterface primaryServerKey e ∧ e.score = s := by
  obtain ⟨hnic, ⟨i, j, hreach, rfl⟩, hleast⟩ := h
  obtain ⟨e, he, hkey⟩ := edge_of_pair hnic
  have hbest := mem_edges_iff.1 he
  refine ⟨e, hbest, le_antisymm (score_le (hbest.2 i j hreach hkey.symm)) ?_⟩
  have hle := hleast e.row e.col hbest.1.2.1 (by rw [← hbest.1.1]; exact hkey)
  rwa [← hbest.1.1] at hle

theorem edges_of_scores {Q : List Score} (hQ : ∀ s ∈ Q, BestScore m primaryInterface primaryServerKey s) :
    ∃ B : List Edge, (∀ e ∈ B, BestEdge m primaryInterface primaryServerKey e) ∧ B.map Edge.score = Q := by
  induction Q with
  | nil => exact ⟨[], nofun, rfl⟩
  | cons s Q ih =>
    obtain ⟨e, he, rfl⟩ := bestEdge_of_bestScore (hQ s List.mem_cons_self)
    obtain ⟨B, hB, rfl⟩ := ih fun s hs => hQ s (List.mem_cons_of_mem _ hs)
    exact ⟨e :: B, List.forall_mem_cons.2 ⟨he, hB⟩, rfl⟩

/-- Two lists of best edges compare as their scores do. -/
theorem lex_score {A B : List Edge} (hA : ∀ e ∈ A, BestEdge m primaryInterface primaryServerKey e)
    (hB : ∀ e ∈ B, BestEdge m primaryInterface primaryServerKey e)
    (h : List.Lex (fun a b => better a b = true) A B) : List.Lex (· < ·) (A.map Edge.score) (B.map Edge.score) := by
  induction h with
  | nil => exact .nil
  | cons _ ih =>
    exact .cons (ih (fun e he => hA e (List.mem_cons_of_mem _ he)) fun e he => hB e (List.mem_cons_of_mem _ he))
  | @rel a _ b _ hab =>
    refine .rel (score_lt hab fun hkey => ?_)
    have ha := mem_edges_iff.2 (hA a List.mem_cons_self)
    have hb := mem_edges_iff.2 (hB b List.mem_cons_self)
    rw [eq_of_key ha hb hkey, better_irrefl] at hab
    cases hab

theorem leastMatching_of_optimal {links : List Edge} (h : Optimal m maxConnections primaryInterface primaryServerKey links) :
    LeastMatching m maxConnections primaryInterface primaryServerKey (links.map Edge.score) := by
  constructor
  case best =>
    intro s hs
    obtain ⟨e, he, rfl⟩ := List.mem_map.1 hs
    exact bestScore_of_bestEdge (h.best e he)
  case sorted =>
    have hkeys : links.Pairwise fun a b => a.key ≠ b.key := List.pairwise_map.1 (List.Nodup.of_map Prod.fst h.matching.1)
    exact List.pairwise_map.2 ((h.sorted.and hkeys).imp fun hab => score_lt hab.1 hab.2)
  case matching =>
    rw [List.map_map]
    exact h.matching
  case number =>
    rw [List.length_map]
    exact h.number
  case least =>
    intro Q hQ hsorted hmatch hlength
    obtain ⟨B, hB, rfl⟩ := edges_of_scores hQ
    rw [List.map_map] at hmatch
    rw [List.length_map, List.length_map] at hlength
    rcases h.least B hB ((List.pairwise_map.1 hsorted).imp better_of_score) hmatch hlength with rfl | hlex
    · exact .inl rfl
    · exact .inr (lex_score h.best hB hlex)

theorem leastMatching_unique {P Q : List Score} (hP : LeastMatching m maxConnections primaryInterface primaryServerKey P)
    (hQ : LeastMatching m maxConnections primaryInterface primaryServerKey Q) : P = Q := by
  have hlength : P.length = Q.length := by
    obtain ⟨k, ⟨⟨A, hA, hmatchA, rfl⟩, hmaxA⟩, hnumberP⟩ := hP.number
    obtain ⟨k, ⟨⟨B, hB, hmatchB, rfl⟩, hmaxB⟩, hnumberQ⟩ := hQ.number
    rw [hnumberP, hnumberQ, le_antisymm (hmaxB A hA hmatchA) (hmaxA B hB hmatchB)]
  rcases hP.least Q hQ.best hQ.sorted hQ.matching hlength.symm with h | hPQ
  · exact h
  · rcases hQ.least P hP.best hP.sorted hP.matching hlength with h | hQP
    · exact h.symm
    · exact absurd hQP (Std.Asymm.asymm _ _ hPQ)

end Matrix

/-! ### Other orders -/

theorem serverKey_inj {a b : ServerEndpoint} (h : serverKey a = serverKey b) : a.host = b.host ∧ a.port = b.port := by
  -- the port is what follows the last colon
  have hport : ∀ ep : ServerEndpoint, (serverKey ep).reverse.takeWhile (· ≠ ':') = (toText ep.port.toNat).reverse := by
    intro ep
    unfold serverKey
    rw [List.reverse_append, List.reverse_append, List.takeWhile_append_of_pos]
    · simp
    · intro c hc
      have hne : c ≠ ':' := fun heq => notMem_toText (by rw [heq]; rfl) (List.mem_reverse.1 hc)
      simpa using hne
  have htext := congrArg (fun key => key.reverse.takeWhile (· ≠ ':')) h
  rw [hport, hport, List.reverse_inj] at htext
  unfold serverKey at h
  rw [htext, List.append_left_inj, List.append_left_inj] at h
  refine ⟨h, UInt16.toNat_inj.1 ?_⟩
  have hvalue := congrArg (fun text => Nat.ofDigitChars 10 text 0) htext
  unfold toText at hvalue
  rwa [Nat.ofDigitChars_ten_toDigits, Nat.ofDigitChars_ten_toDigits] at hvalue

theorem mem_endpoints {m : ReachabilityMatrix} {ep : ServerEndpoint} :
    ep ∈ m.serverEndpoints ↔ ∃ j < m.serverEndpoints.length, m.endpoint j = ep := by
  unfold ReachabilityMatrix.endpoint
  rw [List.mem_iff_getElem]
  constructor
  · rintro ⟨j, hj, rfl⟩
    exact ⟨j, hj, List.getD_eq_getElem _ _ hj⟩
  · rintro ⟨j, hj, rfl⟩
    exact ⟨j, hj, (List.getD_eq_getElem _ _ hj).symm⟩

namespace Permuted

variable {m m' : ReachabilityMatrix} {σ τ : Equiv.Perm ℕ}

theorem symm (h : Permuted m m' σ τ) : Permuted m' m σ.symm τ.symm := by
  have hrow : ∀ i, σ.symm i < m.localAddrs.length ↔ i < m.localAddrs.length := fun i => by
    rw [← h.row, Equiv.apply_symm_apply]
  have hcol : ∀ j, τ.symm j < m.serverEndpoints.length ↔ j < m.serverEndpoints.length := fun j => by
    rw [← h.col, Equiv.apply_symm_apply]
  constructor
  case rows => exact h.rows.symm
  case cols => exact h.cols.symm
  case row => rw [h.rows]; exact hrow
  case col => rw [h.cols]; exact hcol
  case addr =>
    intro i hi
    rw [h.rows] at hi
    rw [h.addr _ ((hrow i).2 hi), Equiv.apply_symm_apply]
  case iface =>
    intro i hi
    rw [h.rows] at hi
    rw [h.iface _ ((hrow i).2 hi), Equiv.apply_symm_apply]
  case prefixLen =>
    intro i hi
    rw [h.rows] at hi
    rw [h.prefixLen _ ((hrow i).2 hi), Equiv.apply_symm_apply]
  case endpoint =>
    intro j hj
    rw [h.cols] at hj
    rw [h.endpoint _ ((hcol j).2 hj), Equiv.apply_symm_apply]
  case cell =>
    intro i hi j hj
    rw [h.rows] at hi
    rw [h.cols] at hj
    rw [h.cell _ ((hrow i).2 hi) _ ((hcol j).2 hj), Equiv.apply_symm_apply, Equiv.apply_symm_apply]

theorem reachable_iff (h : Permuted m m' σ τ) (i j : ℕ) : Reachable m' i j ↔ Reachable m (σ i) (τ j) := by
  unfold Reachable
  rw [h.rows, h.cols, h.row, h.col]
  refine and_congr_right fun hi => and_congr_right fun hj => ?_
  rw [h.cell i hi j hj]

theorem score_eq (h : Permuted m m' σ τ) {i j : ℕ} (hreach : Reachable m' i j) :
    (edgeAt m' i j).score = (edgeAt m (σ i) (τ j)).score := by
  have hi : i < m.localAddrs.length := h.rows ▸ hreach.1
  have hj : j < m.serverEndpoints.length := h.cols ▸ hreach.2.1
  unfold Edge.score edgeAt ReachabilityMatrix.ifaceKeyOf
  rw [h.addr i hi, h.iface i hi, h.prefixLen i hi, h.endpoint j hj, h.cell i hi j hj]

theorem mem_endpoints_iff (h : Permuted m m' σ τ) (ep : ServerEndpoint) :
    ep ∈ m'.serverEndpoints ↔ ep ∈ m.serverEndpoints := by
  rw [mem_endpoints, mem_endpoints]
  constructor
  · rintro ⟨j, hj, rfl⟩
    rw [h.cols] at hj
    exact ⟨τ j, (h.col j).2 hj, (h.endpoint j hj).symm⟩
  · rintro ⟨j, hj, rfl⟩
    have hj' : τ.symm j < m.serverEndpoints.length := (h.col _).1 (by rwa [Equiv.apply_symm_apply])
    exact ⟨τ.symm j, h.cols ▸ hj', by rw [h.endpoint _ hj', Equiv.apply_symm_apply]⟩

/-- The primary's column is found in any order. -/
theorem usedServer_eq (h : Permuted m m' σ τ) (hdistinct : (m.serverEndpoints.map fun ep => (ep.host, ep.port)).Nodup)
    (primaryServerKey : Text) : usedServer m' primaryServerKey = usedServer m primaryServerKey := by
  have hgroup : primaryGroup m' primaryServerKey = primaryGroup m primaryServerKey := by
    unfold primaryGroup
    cases hfind : m.serverEndpoints.find? fun ep => serverKey ep = primaryServerKey with
    | none =>
      have hnone : (m'.serverEndpoints.find? fun ep => serverKey ep = primaryServerKey) = none :=
        List.find?_eq_none.2 fun ep hep => List.find?_eq_none.1 hfind ep ((h.mem_endpoints_iff ep).1 hep)
      rw [hnone]
    | some ep =>
      have hep := List.mem_of_find?_eq_some hfind
      have hkey : serverKey ep = primaryServerKey := by simpa using List.find?_some hfind
      cases hfind' : m'.serverEndpoints.find? fun ep => serverKey ep = primaryServerKey with
      | none =>
        exact absurd (decide_eq_true hkey) (List.find?_eq_none.1 hfind' ep ((h.mem_endpoints_iff ep).2 hep))
      | some ep' =>
        have hep' := (h.mem_endpoints_iff ep').1 (List.mem_of_find?_eq_some hfind')
        have hkey' : serverKey ep' = primaryServerKey := by simpa using List.find?_some hfind'
        have hinj := serverKey_inj (hkey'.trans hkey.symm)
        rw [List.inj_on_of_nodup_map hdistinct hep' hep (Prod.ext hinj.1 hinj.2)]
  unfold usedServer
  rw [hgroup]

theorem of_permute (hrow : ∀ i, σ i < m.localAddrs.length ↔ i < m.localAddrs.length)
    (hcol : ∀ j, τ j < m.serverEndpoints.length ↔ j < m.serverEndpoints.length) : Permuted m (permute m σ τ) σ τ := by
  have hget : ∀ {α : Type} (f : ℕ → α) (d : α) (n i : ℕ), i < n → ((List.range n).map f).getD i d = f i := by
    intro α f d n i hi
    rw [List.getD_eq_getElem _ _ (by rwa [List.length_map, List.length_range]), List.getElem_map, List.getElem_range]
  constructor
  case rows => exact (List.length_map _).trans List.length_range
  case cols => exact (List.length_map _).trans List.length_range
  case row => exact hrow
  case col => exact hcol
  case addr => exact fun i hi => hget _ _ _ i hi
  case iface => exact fun i hi => hget _ _ _ i hi
  case prefixLen => exact fun i hi => hget _ _ _ i hi
  case endpoint => exact fun j hj => hget _ _ _ j hj
  case cell =>
    intro i hi j hj
    unfold ReachabilityMatrix.cell permute
    rw [hget _ _ _ i hi, hget _ _ _ j hj]
    rfl

section Matching

variable {maxConnections : ℕ} {primaryInterface primaryServerKey : Text}

theorem nicEdge (h : Permuted m m' σ τ) (hused : usedServer m' primaryServerKey = usedServer m primaryServerKey)
    {pair : Text × Text} (hnic : NicEdge m' primaryInterface primaryServerKey pair) :
    NicEdge m primaryInterface primaryServerKey pair := by
  obtain ⟨hclient, hserver, i, j, hreach, hi, hj⟩ := hnic
  have hscore := (score_eq_iff _ _).1 (h.score_eq hreach)
  refine ⟨hclient, hused ▸ hserver, σ i, τ j, (h.reachable_iff i j).1 hreach, ?_, ?_⟩
  · exact hscore.2.2.2.1.symm.trans hi
  · exact hscore.2.2.2.2.symm.trans hj

theorem nicEdge_iff (h : Permuted m m' σ τ) (hused : usedServer m' primaryServerKey = usedServer m primaryServerKey) :
    NicEdge m' primaryInterface primaryServerKey = NicEdge m primaryInterface primaryServerKey :=
  funext fun _ => propext ⟨h.nicEdge hused, h.symm.nicEdge hused.symm⟩

theorem bestScore (h : Permuted m m' σ τ) (hused : usedServer m' primaryServerKey = usedServer m primaryServerKey)
    {s : Score} (hs : BestScore m' primaryInterface primaryServerKey s) :
    BestScore m primaryInterface primaryServerKey s := by
  obtain ⟨hnic, ⟨i, j, hreach, rfl⟩, hleast⟩ := hs
  refine ⟨h.nicEdge hused hnic, ⟨σ i, τ j, (h.reachable_iff i j).1 hreach, (h.score_eq hreach).symm⟩, ?_⟩
  intro i' j' hreach' hkey
  have hcell := (h.symm.reachable_iff i' j').1 hreach'
  have hscore := h.symm.score_eq hreach'
  rw [hscore]
  exact hleast _ _ hcell (by rw [← score_nics, ← hscore]; exact hkey)

theorem bestScore_iff (h : Permuted m m' σ τ) (hused : usedServer m' primaryServerKey = usedServer m primaryServerKey) :
    BestScore m' primaryInterface primaryServerKey = BestScore m primaryInterface primaryServerKey :=
  funext fun _ => propext ⟨h.bestScore hused, h.symm.bestScore hused.symm⟩

/-- The least matching of the NICs is the same in every order. -/
theorem leastMatching (h : Permuted m m' σ τ) (hused : usedServer m' primaryServerKey = usedServer m primaryServerKey)
    {P : List Score} (hP : LeastMatching m' maxConnections primaryInterface primaryServerKey P) :
    LeastMatching m maxConnections primaryInterface primaryServerKey P := by
  have hnic : _ = NicEdge m primaryInterface primaryServerKey := h.nicEdge_iff hused
  have hbest : _ = BestScore m primaryInterface primaryServerKey := h.bestScore_iff hused
  constructor
  case best => rw [← hbest]; exact hP.best
  case sorted => exact hP.sorted
  case matching => exact hP.matching
  case number => rw [← hnic]; exact hP.number
  case least => rw [← hbest]; exact hP.least

end Matching

end Permuted

/-! ### Ties -/

theorem map_eq_of_map_eq {α β γ δ : Type} {l : List α} {l' : List β} {f : α → γ} {f' : β → γ} {g : α → δ} {g' : β → δ}
    (h : l.map f = l'.map f') (hg : ∀ a ∈ l, ∀ b ∈ l', f a = f' b → g a = g' b) : l.map g = l'.map g' := by
  induction l generalizing l' with
  | nil =>
    rw [List.map_eq_nil_iff.1 h.symm]
    rfl
  | cons a l ih =>
    cases l' with
    | nil => cases h
    | cons b l' =>
      rw [List.map_cons, List.map_cons, List.cons.injEq] at h
      rw [List.map_cons, List.map_cons, hg a List.mem_cons_self b List.mem_cons_self h.1,
        ih h.2 fun a ha b hb => hg a (List.mem_cons_of_mem _ ha) b (List.mem_cons_of_mem _ hb)]

theorem exists_of_maps_eq {α β γ δ : Type} {l : List α} {l' : List β} {f : α → γ} {f' : β → γ} {g : α → δ} {g' : β → δ}
    (h : l.map f = l'.map f') (hg : l.map g = l'.map g') {b : β} (hb : b ∈ l') : ∃ a ∈ l, f a = f' b ∧ g a = g' b := by
  induction l' generalizing l with
  | nil => cases hb
  | cons b' l' ih =>
    cases l with
    | nil => cases h
    | cons a l =>
      rw [List.map_cons, List.map_cons, List.cons.injEq] at h hg
      rcases List.mem_cons.1 hb with rfl | hb
      · exact ⟨a, List.mem_cons_self, h.1, hg.1⟩
      · obtain ⟨a', ha', hfa⟩ := ih h.2 hg.2 hb
        exact ⟨a', List.mem_cons_of_mem _ ha', hfa⟩

section Ties

variable {m : ReachabilityMatrix} {maxConnections : ℕ} {primaryInterface primaryServerKey : Text}

theorem addr_inj (haddrs : m.localAddrs.Nodup) {i j : ℕ} (hi : i < m.localAddrs.length) (hj : j < m.localAddrs.length)
    (h : m.addr i = m.addr j) : i = j := by
  unfold ReachabilityMatrix.addr at h
  rw [List.getD_eq_getElem _ _ hi, List.getD_eq_getElem _ _ hj] at h
  exact (haddrs.getElem_inj_iff).1 h

theorem endpoint_inj (hdistinct : (m.serverEndpoints.map fun ep => (ep.host, ep.port)).Nodup) {i j : ℕ}
    (hi : i < m.serverEndpoints.length) (hj : j < m.serverEndpoints.length)
    (hhost : (m.endpoint i).host = (m.endpoint j).host) (hport : (m.endpoint i).port = (m.endpoint j).port) : i = j := by
  have hnodup := List.Nodup.of_map _ hdistinct
  have hmem : ∀ {j}, j < m.serverEndpoints.length → m.endpoint j ∈ m.serverEndpoints :=
    fun {j} hj => mem_endpoints.2 ⟨j, hj, rfl⟩
  have heq := List.inj_on_of_nodup_map hdistinct (hmem hi) (hmem hj) (Prod.ext hhost hport)
  unfold ReachabilityMatrix.endpoint at heq
  rw [List.getD_eq_getElem _ _ hi, List.getD_eq_getElem _ _ hj] at heq
  exact (hnodup.getElem_inj_iff).1 heq

/-- Without ties every order links the same cells. -/
theorem orderFree_of_noTies (hdistinct : (m.serverEndpoints.map fun ep => (ep.host, ep.port)).Nodup)
    (h : NoTies m maxConnections primaryInterface primaryServerKey) :
    OrderFree m maxConnections primaryInterface primaryServerKey := by
  intro m' σ τ hperm
  obtain ⟨links, hplans, hoptimal⟩ := selectAutoLinks_optimal m primaryInterface primaryServerKey maxConnections
  obtain ⟨links', hplans', hoptimal'⟩ := selectAutoLinks_optimal m' primaryInterface primaryServerKey maxConnections
  have hleast := leastMatching_of_optimal hoptimal
  have hleast' := hperm.leastMatching (hperm.usedServer_eq hdistinct _) (leastMatching_of_optimal hoptimal')
  rw [hplans, hplans']
  refine map_eq_of_map_eq (leastMatching_unique hleast' hleast) fun e' he' e he hscore => ?_
  obtain ⟨heq, hreach⟩ := hoptimal.cells e he
  obtain ⟨heq', hreach'⟩ := hoptimal'.cells e' he'
  have hcell := (hperm.reachable_iff _ _).1 hreach'
  have hcellScore : (edgeAt m (σ e'.row) (τ e'.col)).score = e.score := by
    rw [← hperm.score_eq hreach', ← heq', hscore]
  obtain ⟨hrow, hcol⟩ := h _ hleast e.score (List.mem_map_of_mem he) _ _ _ _ hcell hreach hcellScore
    (congrArg Edge.score heq.symm)
  unfold planOf
  rw [hperm.addr _ (hperm.rows ▸ hreach'.1), hperm.endpoint _ (hperm.cols ▸ hreach'.2.1), hrow, hcol]

/-- Where no order changes the links, no order puts a cell of the same score in front of a linked one. -/
theorem not_before (haddrs : m.localAddrs.Nodup)
    (hdistinct : (m.serverEndpoints.map fun ep => (ep.host, ep.port)).Nodup)
    (h : OrderFree m maxConnections primaryInterface primaryServerKey) {links : List Edge}
    (hplans : selectAutoLinks m maxConnections primaryInterface primaryServerKey = links.map (planOf m))
    (hoptimal : Optimal m maxConnections primaryInterface primaryServerKey links) {e : Edge} (he : e ∈ links)
    {m' : ReachabilityMatrix} {σ τ : Equiv.Perm ℕ} (hperm : Permuted m m' σ τ) {i j : ℕ} (hreach : Reachable m i j)
    (hscore : (edgeAt m i j).score = e.score) :
    ¬ (σ.symm i < σ.symm e.row ∨ σ.symm i = σ.symm e.row ∧ τ.symm j < τ.symm e.col) := by
  obtain ⟨links', hplans', hoptimal'⟩ := selectAutoLinks_optimal m' primaryInterface primaryServerKey maxConnections
  have hscores := leastMatching_unique
    (hperm.leastMatching (hperm.usedServer_eq hdistinct _) (leastMatching_of_optimal hoptimal'))
    (leastMatching_of_optimal hoptimal)
  have hsame := h m' σ τ hperm
  rw [hplans, hplans'] at hsame
  obtain ⟨e', he', hscore', hplan⟩ := exists_of_maps_eq hscores hsame he
  obtain ⟨heq', hreach'⟩ := hoptimal'.cells e' he'
  obtain ⟨-, hreachE⟩ := hoptimal.cells e he
  -- `e'` is the cell of `e`
  have hrow' : e'.row < m.localAddrs.length := hperm.rows ▸ hreach'.1
  have hcol' : e'.col < m.serverEndpoints.length := hperm.cols ▸ hreach'.2.1
  unfold planOf at hplan
  rw [LinkPlan.mk.injEq, hperm.addr _ hrow', hperm.endpoint _ hcol'] at hplan
  have hrow : e'.row = σ.symm e.row :=
    (Equiv.eq_symm_apply σ).2 (addr_inj haddrs ((hperm.row _).2 hrow') hreachE.1 hplan.1)
  have hcol : e'.col = τ.symm e.col :=
    (Equiv.eq_symm_apply τ).2 (endpoint_inj hdistinct ((hperm.col _).2 hcol') hreachE.2.1 hplan.2.1 hplan.2.2)
  -- and nothing of its score comes before it
  have hcellScore : (edgeAt m' (σ.symm i) (τ.symm j)).score = e'.score := by
    rw [← hperm.symm.score_eq hreach, hscore, hscore']
  have hbest := (hoptimal'.best e' he').2 _ _ ((hperm.symm.reachable_iff i j).1 hreach) (congrArg Score.nics hcellScore)
  rw [← hrow, ← hcol]
  intro hbefore
  rw [(better_iff_score _ e').2 (.inr ⟨hcellScore, hbefore⟩)] at hbest
  cases hbest

theorem swap_lt {a b n : ℕ} (ha : a < n) (hb : b < n) (i : ℕ) : Equiv.swap a b i < n ↔ i < n := by
  rw [Equiv.swap_apply_def]
  split_ifs with h h'
  · exact iff_of_true hb (h ▸ ha)
  · exact iff_of_true ha (h' ▸ hb)
  · rfl

/-- A tie is broken the other way when its two rows, or its two columns, change places. -/
theorem noTies_of_orderFree (haddrs : m.localAddrs.Nodup)
    (hdistinct : (m.serverEndpoints.map fun ep => (ep.host, ep.port)).Nodup)
    (h : OrderFree m maxConnections primaryInterface primaryServerKey) :
    NoTies m maxConnections primaryInterface primaryServerKey := by
  intro P hP s hs
  obtain ⟨links, hplans, hoptimal⟩ := selectAutoLinks_optimal m primaryInterface primaryServerKey maxConnections
  rw [leastMatching_unique hP (leastMatching_of_optimal hoptimal)] at hs
  obtain ⟨e, he, rfl⟩ := List.mem_map.1 hs
  have hreachE := (hoptimal.cells e he).2
  -- every cell of the score is the linked one
  have hlinked : ∀ i j, Reachable m i j → (edgeAt m i j).score = e.score → i = e.row ∧ j = e.col := by
    intro i j hreach hscore
    have hbefore := fun {m' σ τ} (hperm : Permuted m m' σ τ) =>
      not_before haddrs hdistinct h hplans hoptimal he hperm hreach hscore
    have hid : Permuted m _ (.refl ℕ) (.refl ℕ) := .of_permute (fun _ => Iff.rfl) fun _ => Iff.rfl
    have hrow : Permuted m _ (Equiv.swap e.row i) (.refl ℕ) := .of_permute (swap_lt hreachE.1 hreach.1) fun _ => Iff.rfl
    have hcol : Permuted m _ (.refl ℕ) (Equiv.swap e.col j) := .of_permute (fun _ => Iff.rfl) (swap_lt hreachE.2.1 hreach.2.1)
    replace hid := hbefore hid
    replace hrow := hbefore hrow
    replace hcol := hbefore hcol
    rw [Equiv.symm_swap, Equiv.swap_apply_left, Equiv.swap_apply_right] at hrow hcol
    have hrefl : ∀ n, (Equiv.refl ℕ).symm n = n := fun _ => rfl
    rw [hrefl, hrefl] at hrow hcol
    rw [hrefl, hrefl, hrefl, hrefl] at hid
    omega
  intro i j i' j' hreach hreach' hscore hscore'
  obtain ⟨hi, hj⟩ := hlinked i j hreach hscore
  obtain ⟨hi', hj'⟩ := hlinked i' j' hreach' hscore'
  exact ⟨hi.trans hi'.symm, hj.trans hj'.symm⟩

/-- **The links are independent of the order of enumeration if and only if no linked NICs have a tie.** -/
theorem orderFree_iff (m : ReachabilityMatrix) (maxConnections : ℕ) (primaryInterface primaryServerKey : Text)
    (haddrs : m.localAddrs.Nodup) (hdistinct : (m.serverEndpoints.map fun ep => (ep.host, ep.port)).Nodup) :
    OrderFree m maxConnections primaryInterface primaryServerKey ↔
      NoTies m maxConnections primaryInterface primaryServerKey :=
  ⟨noTies_of_orderFree haddrs hdistinct, orderFree_of_noTies hdistinct⟩

end Ties

/-- A NIC with two addresses that are equally good. -/
def twoAddresses : ReachabilityMatrix where
  localAddrs := [['1', '0', '.', '0', '.', '0', '.', '1'], ['1', '0', '.', '0', '.', '0', '.', '2']]
  localIfaces := [['e', 't', 'h', '0'], ['e', 't', 'h', '0']]
  localPrefixLens := [24, 24]
  serverEndpoints := [⟨['1', '0', '.', '0', '.', '0', '.', '9'], 9000, ['g', '0']⟩]
  cells := [[⟨true, 1⟩], [⟨true, 1⟩]]

theorem not_orderFree_twoAddresses : ¬ OrderFree twoAddresses 1 [] [] := by
  intro h
  have hperm : Permuted twoAddresses _ (Equiv.swap 0 1) (.refl ℕ) :=
    .of_permute (swap_lt (by decide) (by decide)) fun _ => Iff.rfl
  have hsame := h _ _ _ hperm
  revert hsame
  decide +kernel

/-- The two addresses in the other order give the other address. -/
theorem order_shows : ¬ ∀ m maxConnections primaryInterface primaryServerKey, m.localAddrs.Nodup →
    (m.serverEndpoints.map fun ep => (ep.host, ep.port)).Nodup →
    OrderFree m maxConnections primaryInterface primaryServerKey :=
  fun h => not_orderFree_twoAddresses (h _ _ _ _ (by decide) (by decide))

theorem ties_twoAddresses : ¬ NoTies twoAddresses 1 [] [] := fun h =>
  not_orderFree_twoAddresses ((orderFree_iff twoAddresses 1 [] [] (by decide) (by decide)).2 h)

end FastClone.Links
