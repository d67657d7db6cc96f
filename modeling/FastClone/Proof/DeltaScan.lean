import FastClone.Proof.DeltaCsr

/-!
# What the rolling scan finds

`tryCandidates_cases` says what one window can do to the log: nothing but counters,
or one new match. `scan_sound` carries it through the scan: **every matched block is
a full-length block whose truncated strong hash equals that of the old window it is
copied from, and that window lies inside the old file.**
-/

namespace FastClone.Delta

variable {strongHash : Bytes → Strong} {sig : SignatureSet} {old : Bytes} {opt : BuildOptions}

/-- Two logs that agree on which blocks are matched, and where. -/
def SameMatches (a b : ScanLog) : Prop := b.matched = a.matched ∧ b.matchedSrc = a.matchedSrc

/-- Block `i`, unmatched in `a`, is matched in `b` with the old window at `p`. -/
structure NewMatch (strongHash : Bytes → Strong) (sig : SignatureSet) (old : Bytes)
    (i p : ℕ) (a b : ScanLog) : Prop where
  fresh : a.matched.getD i false = false
  index : i < sig.blockCount
  full : sig.blockLen i = sig.blockSize
  inside : p + sig.blockSize ≤ old.length
  strong : strongEq sig.strongLen (strongHash (slice old p sig.blockSize))
    (sig.blocks.getD i default).strong = true
  matched : b.matched = a.matched.setIfInBounds i true
  matchedSrc : b.matchedSrc = a.matchedSrc.setIfInBounds i p

/-- The candidates are full-length blocks. -/
def FullEntries (sig : SignatureSet) (es : List Entry) : Prop :=
  ∀ e ∈ es, e.blockIndex < sig.blockCount ∧ sig.blockLen e.blockIndex = sig.blockSize

/-- The candidate is still unmatched and equals the window in both checksums. -/
def hits (strongHash : Bytes → Strong) (sig : SignatureSet) (old : Bytes) (p : ℕ) (weak32 : UInt32)
    (log : ScanLog) (e : Entry) : Bool :=
  e.weak = weak32 && !log.matched.getD e.blockIndex false &&
    strongEq sig.strongLen (strongHash (slice old p sig.blockSize))
      (sig.blocks.getD e.blockIndex default).strong

theorem hits_iff {p : ℕ} {weak32 : UInt32} {log : ScanLog} {e : Entry} :
    hits strongHash sig old p weak32 log e = true ↔
      e.weak = weak32 ∧ log.matched.getD e.blockIndex false = false ∧
      strongEq sig.strongLen (strongHash (slice old p sig.blockSize))
        (sig.blocks.getD e.blockIndex default).strong = true := by
  simp only [hits, Bool.and_eq_true, Bool.not_eq_true', decide_eq_true_eq, and_assoc]

/-- What one window does to the log: nothing but counters, or one new match. -/
def WindowOutcome (p : ℕ) (log : ScanLog) (r : ScanLog × Bool) : Option Entry → Prop
  | none => r.2 = false ∧ SameMatches log r.1
  | some e => r.2 = true ∧ r.1.matched = log.matched.setIfInBounds e.blockIndex true ∧
    r.1.matchedSrc = log.matchedSrc.setIfInBounds e.blockIndex p

theorem WindowOutcome.of_same {p : ℕ} {a b : ScanLog} {r : ScanLog × Bool} {found : Option Entry}
    (h : SameMatches a b) (hb : WindowOutcome p b r found) : WindowOutcome p a r found := by
  cases found with
  | none => exact ⟨hb.1, hb.2.1.trans h.1, hb.2.2.trans h.2⟩
  | some e => exact ⟨hb.1, h.1 ▸ hb.2.1, h.2 ▸ hb.2.2⟩

/-- The candidate loop takes the first candidate that hits. -/
theorem tryCandidates_find (p : ℕ) (weak32 : UInt32) (es : List Entry) (strong : Option Strong)
    (log : ScanLog) (hstrong : ∀ h, strong = some h → h = strongHash (slice old p sig.blockSize)) :
    WindowOutcome p log (tryCandidates strongHash sig old p weak32 es strong log)
      (es.find? (hits strongHash sig old p weak32 log)) := by
  induction es generalizing strong log with
  | nil => exact ⟨rfl, rfl, rfl⟩
  | cons e es ih =>
    have hh : strong.getD (strongHash (slice old p sig.blockSize)) =
        strongHash (slice old p sig.blockSize) := by
      cases strong with
      | none => rfl
      | some h => exact hstrong h rfl
    simp only [tryCandidates]
    split
    · rename_i hweak
      rw [List.find?_cons_of_neg (fun h => hweak (hits_iff.1 h).1)]
      exact ih strong log hstrong
    rename_i hweak
    split
    · rename_i hmatched
      rw [List.find?_cons_of_neg (fun h => by rw [hits_iff, hmatched] at h; cases h.2.1)]
      exact WindowOutcome.of_same (b := { log with weakCandidateHits := log.weakCandidateHits + 1 })
        ⟨rfl, rfl⟩ (ih strong _ hstrong)
    rename_i hfresh
    rw [hh]
    -- the counter of strong computations does not touch the matches
    split
    · rename_i heq
      rw [List.find?_cons_of_pos
        (hits_iff.2 ⟨not_not.1 hweak, Bool.not_eq_true _ ▸ hfresh, heq⟩)]
      refine ⟨rfl, ?_, ?_⟩ <;> (dsimp only; split <;> rfl)
    · rename_i hne
      rw [List.find?_cons_of_neg (fun h => hne (hits_iff.1 h).2.2)]
      have hsame : SameMatches log (if strong.isSome = true then
            { log with weakCandidateHits := log.weakCandidateHits + 1 }
          else { log with
            weakCandidateHits := log.weakCandidateHits + 1
            strongComputations := log.strongComputations + 1 }) := by
        split <;> exact ⟨rfl, rfl⟩
      have hhits : hits strongHash sig old p weak32 log = hits strongHash sig old p weak32
          (if strong.isSome = true then
            { log with weakCandidateHits := log.weakCandidateHits + 1 }
          else { log with
            weakCandidateHits := log.weakCandidateHits + 1
            strongComputations := log.strongComputations + 1 }) := by
        funext e
        rw [hits, hits, hsame.1]
      rw [hhits]
      exact (ih _ _ (fun h hs => (Option.some.inj hs).symm)).of_same hsame

/-- Only a match changes the number of matched bytes, and that after the candidates. -/
theorem tryCandidates_matchedBytes (old : Bytes) (p : ℕ) (weak32 : UInt32) (es : List Entry)
    (strong : Option Strong) (log : ScanLog) :
    (tryCandidates strongHash sig old p weak32 es strong log).1.matchedBytes = log.matchedBytes := by
  induction es generalizing strong log with
  | nil => rfl
  | cons e es ih =>
    simp only [tryCandidates]
    split
    · exact ih strong log
    split
    · rw [ih]
    split
    · split <;> rfl
    · rw [ih]
      split <;> rfl

theorem tryCandidates_cases {p : ℕ} (hp : p + sig.blockSize ≤ old.length) (weak32 : UInt32)
    (es : List Entry) (hes : FullEntries sig es) (log : ScanLog) :
    let r := tryCandidates strongHash sig old p weak32 es none log
    (r.2 = false ∧ SameMatches log r.1) ∨
      (r.2 = true ∧ ∃ i, NewMatch strongHash sig old i p log r.1) := by
  have h := @tryCandidates_find strongHash sig old p weak32 es none log
    (fun _ h => by cases h)
  cases hf : es.find? (hits strongHash sig old p weak32 log) with
  | none => rw [hf] at h; exact .inl h
  | some e =>
    rw [hf] at h
    have hhit := hits_iff.1 (List.find?_some hf)
    obtain ⟨h1, h2⟩ := hes e (List.mem_of_find?_eq_some hf)
    exact .inr ⟨h.1, e.blockIndex, hhit.2.1, h1, h2, hp, hhit.2.2, h.2.1, h.2.2⟩

/-- Invariant rule of the scan: what is kept by counters and by new matches holds of
the log at the end. -/
theorem scanLoop_rule {csr : Csr} {hL : 0 < sig.blockSize} {I : ScanLog → Prop}
    (hcsr : ∀ weak32, FullEntries sig (csr.candidates weak32))
    (hsame : ∀ a b, I a → SameMatches a b → I b)
    (hnew : ∀ i p a b, I a → NewMatch strongHash sig old i p a b → I b)
    (c : Cursor) (log : ScanLog) (hp : c.p + sig.blockSize ≤ old.length) (h : I log) :
    I (scanLoop strongHash sig csr old opt hL c log).1 := by
  -- one window
  have hwin : ∀ (c : Cursor) (log : ScanLog), c.p + sig.blockSize ≤ old.length → I log →
      I (tryCandidates strongHash sig old c.p c.w.value (csr.candidates c.w.value) none log).1 := by
    intro c log hp h
    rcases tryCandidates_cases hp c.w.value _ (hcsr _) log with ⟨-, hs⟩ | ⟨-, i, hm⟩
    · exact hsame _ _ h hs
    · exact hnew _ _ _ _ h hm
  fun_induction scanLoop strongHash sig csr old opt hL c log with
  | case1 c log weak32 r hr log' p hend => exact hsame _ _ (hwin c log hp h) ⟨rfl, rfl⟩
  | case2 c log weak32 r hr log' p hend hstop => exact hsame _ _ (hwin c log hp h) ⟨rfl, rfl⟩
  | case3 c log weak32 r hr log' p hend hstop ih =>
    exact ih (by dsimp only; omega) (hsame _ _ (hwin c log hp h) ⟨rfl, rfl⟩)
  | case4 c log weak32 r hr hend => exact hwin c log hp h
  | case5 c log weak32 r hr hend p hstop => exact hwin c log hp h
  | case6 c log weak32 r hr hend w p hstop ih => exact ih (by dsimp only; omega) (hwin c log hp h)

theorem scan_rule {hL : 0 < sig.blockSize} {I : ScanLog → Prop}
    (hsame : ∀ a b, I a → SameMatches a b → I b)
    (hnew : ∀ i p a b, I a → NewMatch strongHash sig old i p a b → I b)
    (h : I (ScanLog.init sig.blockCount)) : I (scan strongHash sig old opt hL).1 := by
  unfold scan
  split
  · exact scanLoop_rule (fun _ e he => mem_candidates sig he) hsame hnew _ _ (by simpa using ‹_›) h
  · exact h

/-- Every matched block is a full block, equal in truncated strong hash to the old
window it is copied from. -/
structure Sound (strongHash : Bytes → Strong) (sig : SignatureSet) (old : Bytes) (log : ScanLog) :
    Prop where
  size : log.matched.size = sig.blockCount
  sizeSrc : log.matchedSrc.size = sig.blockCount
  found : ∀ i, log.matched.getD i false = true →
    i < sig.blockCount ∧ sig.blockLen i = sig.blockSize ∧
    log.matchedSrc.getD i 0 + sig.blockSize ≤ old.length ∧
    strongEq sig.strongLen (strongHash (slice old (log.matchedSrc.getD i 0) sig.blockSize))
      (sig.blocks.getD i default).strong = true

theorem getD_setIfInBounds {α : Type} (a : Array α) (i k : ℕ) (x d : α) (hi : i < a.size) :
    (a.setIfInBounds i x).getD k d = if k = i then x else a.getD k d := by
  rw [Array.getD_eq_getD_getElem?, Array.getD_eq_getD_getElem?, Array.getElem?_setIfInBounds]
  by_cases h : k = i
  · subst h
    simp [hi]
  · rw [if_neg (fun h' => h h'.symm), if_neg h]

theorem Sound.new {i p : ℕ} {a b : ScanLog} (h : Sound strongHash sig old a)
    (hm : NewMatch strongHash sig old i p a b) : Sound strongHash sig old b := by
  refine ⟨by rw [hm.matched, Array.size_setIfInBounds, h.size],
    by rw [hm.matchedSrc, Array.size_setIfInBounds, h.sizeSrc], ?_⟩
  intro k hk
  rw [hm.matched, getD_setIfInBounds _ _ _ _ _ (by rw [h.size]; exact hm.index)] at hk
  rw [hm.matchedSrc, getD_setIfInBounds _ _ _ _ _ (by rw [h.sizeSrc]; exact hm.index)]
  by_cases hki : k = i
  · subst hki
    rw [if_pos rfl]
    exact ⟨hm.index, hm.full, hm.inside, hm.strong⟩
  · rw [if_neg hki] at hk ⊢
    exact h.found k hk

theorem Sound.init : Sound strongHash sig old (ScanLog.init sig.blockCount) := by
  refine ⟨by simp [ScanLog.init], by simp [ScanLog.init], ?_⟩
  intro i hi
  simp [ScanLog.init, Array.getD] at hi

/-- **Soundness of the scan.** -/
theorem scan_sound (hL : 0 < sig.blockSize) :
    Sound strongHash sig old (scan strongHash sig old opt hL).1 :=
  scan_rule (fun _ _ h hs => ⟨hs.1 ▸ h.size, hs.2 ▸ h.sizeSrc, hs.1 ▸ hs.2 ▸ h.found⟩)
    (fun _ _ _ _ h hm => h.new hm) Sound.init

end FastClone.Delta
