import Mathlib.Data.List.Nodup
import Mathlib.Tactic.ByContra

/-!
# Sessions that share a sender

A table holds sessions under different keys. In a round a loop visits each of them, in any order; a visit puts
something out, tagged with the key, and keeps the session or closes it.

* `serve`: a session on its own, visited with the inputs of its rounds.
* `on_visitAll`: what a round puts out under a key is what the visit of that session puts out.
* `mem_visitAll`: what is kept of a session is what its visit keeps.
-/

namespace Mux

variable {κ σ ρ φ : Type}

/-! ### One session -/

/-- The session after some visits, and what they put out; a closed session is not visited. -/
def serve (visit : ρ → σ → Option σ × List φ) : List ρ → σ → Option σ × List φ
  | [], s => (some s, [])
  | r :: rs, s =>
    match visit r s with
    | (none, out) => (none, out)
    | (some s', out) => ((serve visit rs s').1, out ++ (serve visit rs s').2)

theorem serve_closed {visit : ρ → σ → Option σ × List φ} {rs : List ρ} {s : σ} (h : (serve visit rs s).1 = none)
    (r : ρ) : serve visit (rs ++ [r]) s = serve visit rs s := by
  induction rs generalizing s with
  | nil => nomatch h
  | cons q rs ih =>
    rw [List.cons_append]
    unfold serve at h ⊢
    cases hvisit : visit q s with
    | mk kept out =>
      rw [hvisit] at h
      cases kept with
      | none => rfl
      | some s' =>
        dsimp only at h ⊢
        rw [ih h]

theorem serve_open {visit : ρ → σ → Option σ × List φ} {rs : List ρ} {s t : σ} (h : (serve visit rs s).1 = some t)
    (r : ρ) : serve visit (rs ++ [r]) s = ((visit r t).1, (serve visit rs s).2 ++ (visit r t).2) := by
  induction rs generalizing s with
  | nil =>
    obtain rfl := Option.some.inj h
    rw [List.nil_append]
    unfold serve
    cases hvisit : visit r s with
    | mk kept out =>
      cases kept with
      | none => rfl
      | some s' =>
        dsimp only [serve]
        rw [List.append_nil, List.nil_append]
  | cons q rs ih =>
    rw [List.cons_append]
    unfold serve at h ⊢
    cases hvisit : visit q s with
    | mk kept out =>
      rw [hvisit] at h
      cases kept with
      | none => nomatch h
      | some s' =>
        dsimp only at h ⊢
        rw [ih h, List.append_assoc]

/-! ### A round -/

/-- The loop over the table. -/
def visitAll (visit : κ → σ → Option σ × List φ) : List (κ × σ) → List (κ × σ) × List φ
  | [] => ([], [])
  | (k, s) :: rest =>
    let here := visit k s
    let there := visitAll visit rest
    (here.1.toList.map (Prod.mk k) ++ there.1, here.2 ++ there.2)

variable {visit : κ → σ → Option σ × List φ} {table : List (κ × σ)} {k : κ}

theorem visitAll_cons (s : σ) (rest : List (κ × σ)) : visitAll visit ((k, s) :: rest) =
    ((visit k s).1.toList.map (Prod.mk k) ++ (visitAll visit rest).1, (visit k s).2 ++ (visitAll visit rest).2) := rfl

theorem mem_visitAll {s' : σ} :
    (k, s') ∈ (visitAll visit table).1 ↔ ∃ s, (k, s) ∈ table ∧ (visit k s).1 = some s' := by
  induction table with
  | nil => simp [visitAll]
  | cons entry rest ih =>
    obtain ⟨j, t⟩ := entry
    rw [visitAll_cons, List.mem_append, ih]
    constructor
    · rintro (hhere | ⟨s, hs, hvisit⟩)
      · obtain ⟨u, hu, heq⟩ := List.mem_map.1 hhere
        obtain ⟨rfl, rfl⟩ := Prod.mk.inj heq
        exact ⟨t, List.mem_cons_self, Option.mem_toList.1 hu⟩
      · exact ⟨s, List.mem_cons_of_mem _ hs, hvisit⟩
    · rintro ⟨s, hs, hvisit⟩
      rcases List.mem_cons.1 hs with heq | hrest
      · obtain ⟨rfl, rfl⟩ := Prod.mk.inj heq
        exact Or.inl (List.mem_map.2 ⟨s', Option.mem_toList.2 hvisit, rfl⟩)
      · exact Or.inr ⟨s, hrest, hvisit⟩

/-- No key is new. -/
theorem keys_visitAll : ((visitAll visit table).1.map Prod.fst).Sublist (table.map Prod.fst) := by
  induction table with
  | nil => exact List.Sublist.refl _
  | cons entry rest ih =>
    obtain ⟨j, t⟩ := entry
    rw [visitAll_cons]
    cases (visit j t).1 with
    | none => exact ih.cons j
    | some s' => exact ih.cons_cons j

theorem visitAll_append (more : List (κ × σ)) : visitAll visit (table ++ more) =
    ((visitAll visit table).1 ++ (visitAll visit more).1, (visitAll visit table).2 ++ (visitAll visit more).2) := by
  induction table with
  | nil => rfl
  | cons entry rest ih =>
    obtain ⟨j, t⟩ := entry
    rw [List.cons_append, visitAll_cons, visitAll_cons, ih, List.append_assoc, List.append_assoc]

/-- Sessions of one kind among others. -/
theorem visitAll_map {τ : Type} (embed : σ → τ) {visitAny : κ → τ → Option τ × List φ}
    (h : ∀ j s, visitAny j (embed s) = ((visit j s).1.map embed, (visit j s).2)) :
    visitAll visitAny (table.map (Prod.map id embed)) =
      ((visitAll visit table).1.map (Prod.map id embed), (visitAll visit table).2) := by
  induction table with
  | nil => rfl
  | cons entry rest ih =>
    obtain ⟨j, t⟩ := entry
    have hhead : Prod.map id embed (j, t) = (j, embed t) := rfl
    rw [List.map_cons, hhead, visitAll_cons, visitAll_cons, ih, h, List.map_append]
    cases (visit j t).1 with
    | none => rfl
    | some s' => rfl

section Tags

variable [DecidableEq κ] {tag : φ → κ}

/-- What goes out under a key. -/
def on (tag : φ → κ) (k : κ) (out : List φ) : List φ := out.filter fun f => tag f = k

theorem on_append (out more : List φ) : on tag k (out ++ more) = on tag k out ++ on tag k more := List.filter_append ..

theorem on_of_tagged {out : List φ} (h : ∀ f ∈ out, tag f = k) : on tag k out = out :=
  List.filter_eq_self.2 fun f hf => decide_eq_true (h f hf)

theorem on_of_other {j : κ} {out : List φ} (h : ∀ f ∈ out, tag f = j) (hne : j ≠ k) : on tag k out = [] := by
  refine List.filter_eq_nil_iff.2 fun f hf => ?_
  rw [h f hf]
  simpa using hne

/-- Nothing goes out under a key that is not in the table. -/
theorem on_visitAll_other (htag : ∀ j s, ∀ f ∈ (visit j s).2, tag f = j) (hk : k ∉ table.map Prod.fst) :
    on tag k (visitAll visit table).2 = [] := by
  induction table with
  | nil => rfl
  | cons entry rest ih =>
    obtain ⟨j, t⟩ := entry
    obtain ⟨hne, hrest⟩ : k ≠ j ∧ k ∉ rest.map Prod.fst := by simpa using hk
    rw [visitAll_cons, on_append, on_of_other (htag j t) hne.symm, ih hrest, List.append_nil]

/-- What goes out has a key of the table. -/
theorem tag_visitAll (htag : ∀ j s, ∀ f ∈ (visit j s).2, tag f = j) {f : φ} (hf : f ∈ (visitAll visit table).2) :
    tag f ∈ table.map Prod.fst := by
  by_contra hnot
  have hon := on_visitAll_other htag hnot
  have hmem : f ∈ on tag (tag f) (visitAll visit table).2 := List.mem_filter.2 ⟨hf, decide_eq_true rfl⟩
  rw [hon] at hmem
  nomatch hmem

theorem on_visitAll (htag : ∀ j s, ∀ f ∈ (visit j s).2, tag f = j) (hnodup : (table.map Prod.fst).Nodup) {s : σ}
    (hs : (k, s) ∈ table) : on tag k (visitAll visit table).2 = (visit k s).2 := by
  induction table with
  | nil => nomatch hs
  | cons entry rest ih =>
    obtain ⟨j, t⟩ := entry
    obtain ⟨hnot, hnodup'⟩ := List.nodup_cons.1 hnodup
    rw [visitAll_cons, on_append]
    rcases List.mem_cons.1 hs with heq | hrest
    · obtain ⟨rfl, rfl⟩ := Prod.mk.inj heq
      rw [on_of_tagged (htag k s), on_visitAll_other htag hnot, List.append_nil]
    · have hne : j ≠ k := by
        rintro rfl
        exact hnot (List.mem_map.2 ⟨(j, s), hrest, rfl⟩)
      rw [on_of_other (htag j t) hne, List.nil_append]
      exact ih hnodup' hrest

end Tags

end Mux
