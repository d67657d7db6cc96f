import FastClone.Spec.DiskIo
import Mathlib.Tactic.Common

/-!
# The completions of the disk driver

`Holds` ties the three containers under `cmu_` together: which completions they hold, in which
nodes and in which order. Every operation on them is proved against it.
-/

namespace FastClone.DiskIo

namespace Completions

variable {c : Completions} {l : List (Addr × Done)}

/-- The containers under `cmu_` hold the completions of `l`, each in its node, in the order of
arrival. -/
structure Holds (c : Completions) (l : List (Addr × Done)) : Prop where
  order : c.order.Spells (l.map Prod.fst)
  nodes : ∀ p ∈ l, c.nodes p.1 = some p.2
  free : ∀ a, a ∉ l.map Prod.fst → c.nodes a = none
  files : ∀ f, c.completionsByFile f = (l.filter fun p => p.2.fileId = f).map Prod.fst

theorem holds_nil : ({} : Completions).Holds [] where
  order := Intrusive.Chain.spells_empty
  nodes := by simp
  free := fun _ _ => rfl
  files := fun _ => rfl

/-- **A pushed completion comes last.** -/
theorem Holds.push (h : c.Holds l) {addr : Addr} (haddr : c.nodes addr = none) (d : Done) :
    (c.push addr d).Holds (l ++ [(addr, d)]) := by
  have hfresh : addr ∉ l.map Prod.fst := by
    intro hmem
    obtain ⟨p, hp, rfl⟩ := List.mem_map.1 hmem
    have hnode := h.nodes p hp
    rw [haddr] at hnode
    cases hnode
  have hne : ∀ p ∈ l, p.1 ≠ addr := by
    rintro p hp rfl
    exact hfresh (List.mem_map_of_mem hp)
  refine ⟨?_, ?_, ?_, ?_⟩
  · rw [List.map_append]
    exact h.order.link hfresh
  · intro p hp
    rcases List.mem_append.1 hp with hp | hp
    · exact (Function.update_of_ne (hne p hp) _ _).trans (h.nodes p hp)
    · rw [List.mem_singleton.1 hp]
      exact Function.update_self _ _ _
  · intro a ha
    rw [List.map_append, List.mem_append, not_or] at ha
    have haa : a ≠ addr := by
      rintro rfl
      exact ha.2 List.mem_cons_self
    exact (Function.update_of_ne haa _ _).trans (h.free a ha.1)
  · intro f
    show Function.update _ _ _ f = _
    rw [List.filter_append, List.map_append, ← h.files f]
    by_cases hf : f = d.fileId
    · subst hf
      rw [Function.update_self]
      simp
    · rw [Function.update_of_ne hf]
      have hf' : d.fileId ≠ f := fun e => hf e.symm
      simp [hf']

/-- Taking out the first completion of a file: the node is unlinked, then popped. -/
theorem Holds.popFront {a b : List (Addr × Done)} {p : Addr × Done} (h : c.Holds (a ++ p :: b))
    (ha : ∀ q ∈ a, q.2.fileId ≠ p.2.fileId) :
    ∃ c', ({ c with order := c.order.unlink p.1 } : Completions).popFront p.2.fileId = (c', [p.2]) ∧
      c'.Holds (a ++ b) := by
  -- the first completion of the file is the head of the file's own list
  have hskip : a.filter (fun q => q.2.fileId = p.2.fileId) = [] := by
    rw [List.filter_eq_nil_iff]
    intro q hq
    simpa using ha q hq
  have hfile : c.completionsByFile p.2.fileId =
      p.1 :: (b.filter fun q => q.2.fileId = p.2.fileId).map Prod.fst := by
    rw [h.files, List.filter_append, hskip]
    simp
  have hnode : c.nodes p.1 = some p.2 := h.nodes p (by simp)
  have horder := h.order
  rw [List.map_append, List.map_cons] at horder
  have hnd := horder.nodup
  have hp : p.1 ∉ (a ++ b).map Prod.fst := by
    rw [List.map_append]
    exact (List.nodup_middle.1 hnd |> List.nodup_cons.1).1
  have heq : ({ c with order := c.order.unlink p.1 } : Completions).popFront p.2.fileId =
      ({ order := c.order.unlink p.1
         completionsByFile := Function.update c.completionsByFile p.2.fileId
           ((b.filter fun q => q.2.fileId = p.2.fileId).map Prod.fst)
         nodes := Function.update c.nodes p.1 none }, [p.2]) := by
    unfold Completions.popFront
    rw [hfile]
    dsimp only
    rw [hnode]
    rfl
  refine ⟨_, heq, ?_, ?_, ?_, ?_⟩
  · rw [List.map_append]
    exact horder.unlink
  · intro q hq
    have hqp : q.1 ≠ p.1 := by
      intro e
      exact hp (e ▸ List.mem_map_of_mem hq)
    refine (Function.update_of_ne hqp _ _).trans (h.nodes q ?_)
    rcases List.mem_append.1 hq with hq | hq
    · exact List.mem_append_left _ hq
    · exact List.mem_append_right _ (List.mem_cons_of_mem p hq)
  · intro x hx
    by_cases hxp : x = p.1
    · rw [hxp]
      exact Function.update_self _ _ _
    · refine (Function.update_of_ne hxp _ _).trans (h.free x ?_)
      simp only [List.map_append, List.map_cons, List.mem_append, List.mem_cons] at hx ⊢
      tauto
  · -- the lists of the other files stay as they are
    intro f
    show Function.update _ _ _ f = _
    by_cases hf : f = p.2.fileId
    · subst hf
      rw [Function.update_self, List.filter_append, hskip]
      rfl
    · rw [Function.update_of_ne hf, h.files f]
      have hf' : p.2.fileId ≠ f := fun e => hf e.symm
      simp [List.filter_append, hf']

/-- **The global drain returns everything, in the order of arrival.** -/
theorem Holds.drainCompletions (h : c.Holds l) :
    ∃ c', c.drainCompletions = (c', l.map Prod.snd) ∧ c'.Holds [] := by
  unfold Completions.drainCompletions
  rw [h.order.count, List.length_map]
  induction l generalizing c with
  | nil => exact ⟨c, rfl, h⟩
  | cons p l ih =>
    obtain ⟨c₁, hpop, h₁⟩ := Holds.popFront (a := []) h (by simp)
    obtain ⟨c₂, hloop, h₂⟩ := ih h₁
    have hhead : c.order.head = some p.1 := h.order.head
    have hnode : c.nodes p.1 = some p.2 := h.nodes p List.mem_cons_self
    refine ⟨c₂, ?_, h₂⟩
    rw [List.length_cons, drainLoop, hhead]
    dsimp only
    rw [hnode]
    dsimp only
    rw [hpop, hloop]
    rfl

/-- **The drain of a file returns what the file has, and leaves the rest as it was.** -/
theorem Holds.drainCompletionsForFile (h : c.Holds l) (f : ℕ) :
    ∃ c', c.drainCompletionsForFile f = (c', (l.filter fun p => p.2.fileId = f).map Prod.snd) ∧
      c'.Holds (l.filter fun p => p.2.fileId ≠ f) := by
  -- `a` are the completions of other files passed so far
  suffices hgen : ∀ (b a : List (Addr × Done)) (c : Completions), c.Holds (a ++ b) →
      (∀ q ∈ a, q.2.fileId ≠ f) → ∃ c', drainFileLoop f (b.filter fun p => p.2.fileId = f).length c =
        (c', (b.filter fun p => p.2.fileId = f).map Prod.snd) ∧
        c'.Holds (a ++ b.filter fun p => p.2.fileId ≠ f) by
    unfold Completions.drainCompletionsForFile
    rw [h.files, List.length_map]
    exact hgen l [] c h (by simp)
  intro b
  induction b with
  | nil =>
    intro a c h _
    exact ⟨c, rfl, h⟩
  | cons p b ih =>
    intro a c h ha
    by_cases hp : p.2.fileId = f
    · subst hp
      obtain ⟨c₁, hpop, h₁⟩ := h.popFront ha
      obtain ⟨c₂, hloop, h₂⟩ := ih a c₁ h₁ ha
      have hskip : a.filter (fun q => q.2.fileId = p.2.fileId) = [] := by
        rw [List.filter_eq_nil_iff]
        intro q hq
        simpa using ha q hq
      refine ⟨c₂, ?_, by simpa using h₂⟩
      rw [List.filter_cons_of_pos (by simp), List.length_cons, drainFileLoop, h.files,
        List.filter_append, hskip, List.filter_cons_of_pos (by simp)]
      simp only [List.nil_append, List.map_cons]
      rw [hpop, hloop]
      rfl
    · obtain ⟨c₁, hloop, h₁⟩ := ih (a ++ [p]) c (by simpa using h) (by
        intro q hq
        rcases List.mem_append.1 hq with hq | hq
        · exact ha q hq
        · rw [List.mem_singleton.1 hq]
          exact hp)
      refine ⟨c₁, ?_, ?_⟩
      · rw [List.filter_cons_of_neg (by simpa using hp)]
        exact hloop
      · rw [List.filter_cons_of_pos (by simpa using hp)]
        simpa using h₁

/-- **A release drops what its file has, and leaves the rest as it was.** -/
theorem Holds.releaseFileLocked (h : c.Holds l) (f : ℕ) :
    ∃ c', c.releaseFileLocked f = (c', (l.filter fun p => p.2.fileId = f).map Prod.snd) ∧
      c'.Holds (l.filter fun p => p.2.fileId ≠ f) := by
  -- the file of an address, for the nodes of `l`
  have hat : ∀ q ∈ l, ((c.nodes q.1).map Done.fileId == some f) = decide (q.2.fileId = f) := by
    intro q hq
    rw [h.nodes q hq, Bool.eq_iff_iff]
    simp
  have hpcs : (l.filter fun p => p.2.fileId = f).map Prod.fst =
      (l.map Prod.fst).filter fun a => (c.nodes a).map Done.fileId == some f := by
    rw [List.filter_map]
    congr 1
    refine List.filter_congr fun q hq => ?_
    exact (hat q hq).symm
  have hrest : (l.filter fun p => p.2.fileId ≠ f).map Prod.fst =
      (l.map Prod.fst).filter fun a => !((c.nodes a).map Done.fileId == some f) := by
    rw [List.filter_map]
    congr 1
    refine List.filter_congr fun q hq => ?_
    show decide (q.2.fileId ≠ f) = !((c.nodes q.1).map Done.fileId == some f)
    rw [hat q hq, decide_not]
  have hmem : ∀ q ∈ l, q.1 ∈ (l.filter fun p => p.2.fileId = f).map Prod.fst ↔ q.2.fileId = f := by
    intro q hq
    rw [hpcs, List.mem_filter]
    rw [hat q hq]
    simpa using fun _ => ⟨q.2, hq⟩
  have hout : ((l.filter fun p => p.2.fileId = f).map Prod.fst).filterMap c.nodes =
      (l.filter fun p => p.2.fileId = f).map Prod.snd := by
    rw [List.filterMap_map]
    rw [← List.filterMap_eq_map]
    refine List.filterMap_congr fun q hq => ?_
    exact h.nodes q (List.mem_filter.1 hq).1
  refine ⟨(c.releaseFileLocked f).1, ?_, ?_, ?_, ?_, ?_⟩
  · refine Prod.ext rfl ?_
    show (c.completionsByFile f).filterMap c.nodes = _
    rw [h.files, hout]
  · show (List.foldl _ c.order (c.completionsByFile f)).Spells _
    rw [h.files, hpcs, hrest]
    exact h.order.unlink_filter _
  · intro q hq
    obtain ⟨hq, hqf⟩ := List.mem_filter.1 hq
    show (if q.1 ∈ c.completionsByFile f then none else c.nodes q.1) = _
    rw [h.files, if_neg, h.nodes q hq]
    rw [hmem q hq]
    simpa using hqf
  · intro a ha
    show (if a ∈ c.completionsByFile f then none else c.nodes a) = none
    rw [h.files]
    split
    · rfl
    · rename_i hnot
      refine h.free a fun hal => ?_
      obtain ⟨q, hq, rfl⟩ := List.mem_map.1 hal
      refine ha (List.mem_map_of_mem (List.mem_filter.2 ⟨hq, ?_⟩))
      rw [hmem q hq] at hnot
      simpa using hnot
  · intro g
    show Function.update _ _ _ g = _
    rw [List.filter_filter]
    by_cases hg : g = f
    · subst hg
      rw [Function.update_self]
      symm
      rw [List.map_eq_nil_iff, List.filter_eq_nil_iff]
      intro q _
      simp
    · rw [Function.update_of_ne hg, h.files]
      congr 1
      refine List.filter_congr fun q _ => ?_
      by_cases hq : q.2.fileId = g
      · simp [hq, hg]
      · simp [hq]

end Completions

end FastClone.DiskIo
