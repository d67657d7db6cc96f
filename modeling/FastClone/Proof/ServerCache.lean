import FastClone.Proof.DeltaSigner
import FastClone.Spec.ServerHash
import Mathlib.Data.List.TakeDrop

/-!
# What the server's caches hold
-/

namespace FastClone.ServerHash

open Delta

/-! ### What a job computes -/

theorem flatten_pieces {n : ℕ} (hn : 0 < n) {fuel : ℕ} {bytes : Bytes} (h : bytes.length ≤ fuel) :
    (pieces n fuel bytes).flatten = bytes := by
  induction fuel generalizing bytes with
  | zero =>
    have hnil := List.length_eq_zero_iff.1 (Nat.le_zero.1 h)
    rw [hnil]
    rfl
  | succ fuel ih =>
    rw [pieces]
    split
    · rename_i hnil
      rw [hnil]
      rfl
    · rename_i hne
      have hpos := List.length_pos_iff.2 hne
      have hlen : (bytes.drop n).length ≤ fuel := by
        rw [List.length_drop]
        omega
      rw [List.flatten_cons, ih hlen, List.take_append_drop]

/-- The answer for a content. -/
def Kind.value (X : Xxh3) (content : Bytes) : Kind → Value
  | .hash => .hash (X.computeBufferHash content)
  | .blockSig => .blockSig ⟨generateSignatures X.strongHash content, X.computeBufferHash content⟩

theorem computeFileHash_eq {X : Xxh3} (hX : X.stream.Computes X.xxh3_128bits) (bytes : Bytes) :
    computeFileHash X bytes = X.computeBufferHash bytes := by
  unfold computeFileHash
  split
  · rfl
  · rw [hX, flatten_pieces (by decide) le_rfl]
    rfl

/-- **A job that has read a content computes its answer.** -/
theorem compute_eq {X : Xxh3} (hX : X.stream.Computes X.xxh3_128bits) {bytes : Bytes}
    (hlt : bytes.length < 2 ^ 64) (k : Kind) : k.compute X bytes = some (k.value X bytes) := by
  cases k with
  | hash => exact congrArg (fun h => some (Value.hash h)) (computeFileHash_eq hX bytes)
  | blockSig =>
    have hflat : (pieces kServerSigChunkBytes bytes.length bytes).flatten = bytes :=
      flatten_pieces (by decide) le_rfl
    obtain ⟨s, hrun, hfin⟩ := StreamingSigner.feed_whole hX hflat hlt
    show (signFile X bytes).map Value.blockSig = _
    unfold signFile
    rw [hrun]
    dsimp only [Option.bind]
    rw [hfin]
    rfl

/-- A lookup adds no entry, and a hit is an entry with the fingerprint asked for. -/
theorem MemCache.tryGet_spec {P V : Type} [DecidableEq P] (c : MemCache P V) (rel : P)
    (fp : HashFingerprint) :
    (∀ rel' e, (c.tryGet rel fp).1.cache rel' = some e → c.cache rel' = some e) ∧
      ∀ v, (c.tryGet rel fp).2 = some v → c.cache rel = some (fp, v) := by
  unfold MemCache.tryGet
  split
  · split
    · exact ⟨fun rel' e he => he, fun v hv => by cases hv⟩
    · rename_i fp' v hentry
      split
      · rename_i hfp
        subst hfp
        refine ⟨fun rel' e he => he, fun v' hv' => ?_⟩
        cases hv'
        exact hentry
      · refine ⟨fun rel' e he => ?_, fun v hv => by cases hv⟩
        dsimp only at he
        by_cases hrel : rel' = rel
        · subst hrel
          rw [Function.update_self] at he
          cases he
        · rwa [Function.update_of_ne hrel] at he
  · exact ⟨fun rel' e he => he, fun v hv => by cases hv⟩

/-! ### The states of a path -/

/-- The regular files among the states from an index on. -/
def History.Has (h : History) (i : ℕ) (u : Version) : Prop := some u ∈ h.drop i

/-- A fingerprint comes with one content. -/
def History.Unique (h : History) : Prop :=
  ∀ u w, h.Has 0 u → h.Has 0 w → u.fingerprint = w.fingerprint → u.content = w.content

/-- From an index on there is one content. -/
def History.One (h : History) (i : ℕ) : Prop := ∀ u w, h.Has i u → h.Has i w → u.content = w.content

/-- Bytes read from the states since an index: as many as one of them has, and each from one of
them. -/
structure History.Gathered (h : History) (i : ℕ) (got : List (Option UInt8)) : Prop where
  size : ∃ u, h.Has i u ∧ u.content.length = got.length
  bytes : ∀ (j : ℕ) (b : UInt8), got[j]? = some (some b) → ∃ u, h.Has i u ∧ u.content[j]? = some b

variable {h : History} {i j : ℕ} {u w : Version}

theorem History.Has.mono (hu : h.Has j u) (hij : i ≤ j) : h.Has i u := by
  have hdrop : h.drop j = (h.drop i).drop (j - i) := by
    rw [List.drop_drop, Nat.add_sub_cancel' hij]
  unfold History.Has at hu ⊢
  rw [hdrop] at hu
  exact List.mem_of_mem_drop hu

theorem History.Has.append (hu : h.Has i u) (l : History) : (h ++ l).Has i u := by
  unfold History.Has at hu ⊢
  rw [List.drop_append]
  exact List.mem_append_left _ hu

/-- The states after one more. -/
theorem History.has_snoc {v : Option Version} (hu : (h ++ [v]).Has i u) :
    h.Has i u ∨ v = some u := by
  unfold History.Has at hu ⊢
  rw [List.drop_append] at hu
  rcases List.mem_append.1 hu with hu | hu
  · exact Or.inl hu
  · have := List.mem_of_mem_drop hu
    exact Or.inr (List.mem_singleton.1 this).symm

/-- The new state has the fingerprint of none before it with another content. -/
theorem History.Unique.snoc (hh : h.Unique) {o : Option Version}
    (hnew : ∀ u, h.Has 0 u → ∀ v, o = some v → u.fingerprint = v.fingerprint → u.content = v.content) :
    History.Unique (h ++ [o]) := by
  -- of two versions with one fingerprint, at most one is the new one
  intro u w hu hw hfp
  rcases History.has_snoc hu with hu | hu
  · rcases History.has_snoc hw with hw | hw
    · exact hh u w hu hw hfp
    · exact hnew u hu w hw hfp
  · rcases History.has_snoc hw with hw | hw
    · exact (hnew w hw u hu hfp.symm).symm
    · rw [hu] at hw
      cases hw
      rfl

theorem History.current_snoc (h : History) (v : Option Version) : History.current (h ++ [v]) = v := by
  unfold History.current
  rw [List.getLast?_append]
  cases v <;> rfl

/-- The state a path is in is among the states since any index below their number. -/
theorem History.has_current (hu : h.current = some u) (hi : i < h.length) : h.Has i u := by
  unfold History.current at hu
  unfold History.Has
  have hlast : h.getLast? = some (some u) := by
    cases hl : h.getLast? with
    | none =>
      rw [hl] at hu
      cases hu
    | some o =>
      rw [hl] at hu
      rw [show o = some u from hu]
  have hdrop : (h.drop i).getLast? = some (some u) := by
    rw [List.getLast?_drop, if_neg (by omega), hlast]
  exact List.mem_of_getLast? hdrop

theorem History.current_eq (hu : h.current = some u) : h[h.length - 1]? = some (some u) := by
  unfold History.current at hu
  rw [← List.getLast?_eq_getElem?]
  cases hl : h.getLast? with
  | none =>
    rw [hl] at hu
    cases hu
  | some o =>
    rw [hl] at hu
    rw [show o = some u from hu]

/-- From the last state on there is only that. -/
theorem History.eq_of_has_last (hw : h.current = some w) (hu : h.Has (h.length - 1) u) : u = w := by
  have hne : h ≠ [] := by
    rintro rfl
    cases hu
  have hlast := History.current_eq hw
  unfold History.Has at hu
  rw [List.drop_length_sub_one hne, List.mem_singleton] at hu
  rw [← List.getLast?_eq_getElem?, List.getLast?_eq_some_getLast hne, ← hu] at hlast
  cases hlast
  rfl

/-- A new version is among the states since any index. -/
theorem History.has_new (hi : i ≤ h.length) : (h ++ [some u]).Has i u := by
  unfold History.Has
  rw [List.drop_append_of_le_length hi]
  exact List.mem_append_right _ (List.mem_singleton_self _)

/-- The path is in a version with this fingerprint. -/
def History.At (h : History) (fp : HashFingerprint) : Prop :=
  h.current.map Version.fingerprint = some fp

instance (h : History) (fp : HashFingerprint) : Decidable (h.At fp) :=
  inferInstanceAs (Decidable (_ = _))

theorem History.Gathered.append {got : List (Option UInt8)} (hg : h.Gathered i got) (l : History) :
    (h ++ l).Gathered i got := by
  refine ⟨?_, ?_⟩
  · obtain ⟨u, hu, hlen⟩ := hg.size
    exact ⟨u, hu.append l, hlen⟩
  · intro j b hb
    obtain ⟨u, hu, hbyte⟩ := hg.bytes j b hb
    exact ⟨u, hu.append l, hbyte⟩

/-- A read of the disk. -/
theorem History.Gathered.read {got : List (Option UInt8)} (hg : h.Gathered i got) (hu : h.Has i u)
    {off len : ℕ} (hgot : off + len ≤ got.length) (hcontent : off + len ≤ u.content.length) :
    h.Gathered i (got.take off ++ ((u.content.drop off).take len).map some ++ got.drop (off + len)) := by
  have hpiece : (((u.content.drop off).take len).map some).length = len := by
    rw [List.length_map, List.length_take, List.length_drop]
    omega
  have hfront : (got.take off).length = off := by
    rw [List.length_take]
    omega
  refine ⟨?_, ?_⟩
  · obtain ⟨w, hw, hlen⟩ := hg.size
    refine ⟨w, hw, ?_⟩
    rw [List.length_append, List.length_append, hpiece, hfront, List.length_drop, hlen]
    omega
  · intro j b hb
    rw [List.append_assoc] at hb
    by_cases hj : j < off
    · rw [List.getElem?_append_left (by omega), List.getElem?_take, if_pos hj] at hb
      exact hg.bytes j b hb
    · rw [List.getElem?_append_right (by omega), hfront] at hb
      by_cases hj' : j - off < len
      · rw [List.getElem?_append_left (by omega), List.getElem?_map, List.getElem?_take, if_pos hj',
          List.getElem?_drop, Nat.add_sub_cancel' (by omega)] at hb
        obtain ⟨b', hb', heq⟩ := Option.map_eq_some_iff.1 hb
        cases heq
        exact ⟨u, hu, hb'⟩
      · rw [List.getElem?_append_right (by omega), hpiece, List.getElem?_drop] at hb
        refine hg.bytes j b ?_
        rw [← hb]
        congr 1
        omega

theorem map_some_filterMap {got : List (Option UInt8)} (h : none ∉ got) :
    (got.filterMap id).map some = got := by
  induction got with
  | nil => rfl
  | cons o got ih =>
    rw [List.mem_cons, not_or] at h
    cases o with
    | none => exact absurd rfl h.1
    | some b => exact congrArg (some b :: ·) (ih h.2)

/-- **With one content among the states, complete bytes are that content.** -/
theorem History.Gathered.eq {bytes : Bytes} (hg : h.Gathered i (bytes.map some)) (hone : h.One i)
    (hu : h.Has i u) : bytes = u.content := by
  obtain ⟨w, hw, hlen⟩ := hg.size
  rw [List.length_map] at hlen
  refine List.ext_getElem? fun j => ?_
  by_cases hj : j < bytes.length
  · have hget : (bytes.map some)[j]? = some (some bytes[j]) := by
      rw [List.getElem?_map, List.getElem?_eq_getElem hj]
      rfl
    obtain ⟨w', hw', hbyte⟩ := hg.bytes j _ hget
    rw [List.getElem?_eq_getElem hj, hone u w' hu hw', hbyte]
  · rw [List.getElem?_eq_none (by omega), hone u w hu hw, List.getElem?_eq_none (by omega)]

/-! ### Jobs on their way -/

variable {P : Type}

/-- The job the receive loop may yet put into the pool. -/
def Recv.toRead : Recv P → Option (Job P)
  | .looking job | .missed job | .counted job => some job
  | _ => none

/-- All jobs, from the first fingerprint on. -/
def State.flights (s : State P) : List (Job P × Phase) :=
  (s.sessions.filterMap fun t => t.recv.toRead).map (fun job => (job, .started)) ++
    s.tasks.map (fun job => (job, .started)) ++ s.running

/-- A version with the first fingerprint is one of those since it was read; either the path has
had no other since, or it is not back at it. -/
structure Job.Faithful (h : History) (job : Job P) : Prop where
  since_lt : job.since < h.length
  source : ∀ fp, job.fingerprint = some fp → ∀ u, h.Has 0 u → u.fingerprint = fp →
    ∃ w, h.Has job.since w ∧ w.fingerprint = fp
  stayed : ∀ fp, job.fingerprint = some fp →
    (∀ u, h.Has job.since u → u.fingerprint = fp) ∨ ¬ h.At fp

/-- The read began after the first fingerprint; without one, the path has had one content
since. -/
structure Job.Window (h : History) (job : Job P) (start : ℕ) : Prop where
  since_le : job.since ≤ start
  start_lt : start < h.length
  one : job.fingerprint = none → h.One start

/-- The answer is that of a content the fingerprint came with. -/
def Entry (X : Xxh3) (h : History) (k : Kind) (fp : HashFingerprint) (v : Value) : Prop :=
  ∃ u, h.Has 0 u ∧ u.fingerprint = fp ∧ v = k.value X u.content

/-- What holds of a job in a phase. -/
def Job.Sound (X : Xxh3) (h : History) (job : Job P) : Phase → Prop
  | .started => job.Faithful h
  | .reading start got => job.Faithful h ∧ job.Window h start ∧ h.Gathered start got
  | .computed start v | .resized start v _ => job.Faithful h ∧ job.Window h start ∧
      ∃ bytes, h.Gathered start (bytes.map some) ∧ job.kind.compute X bytes = some v
  | .caching fp v => Entry X h job.kind fp v
  | .answering _ | .cleared _ | .ending => True

/-- The change of a path to `v` leaves a job its answer: a path whose first fingerprint was read
does not come back to it from another; a path whose first fingerprint was not read does not
change while the job reads it. -/
def Job.Undisturbed (h : History) (job : Job P) (v : Version) : Phase → Prop
  | .started =>
    ∀ fp ∈ job.fingerprint, v.fingerprint = fp → ∀ o ∈ h.drop job.since, ∀ u ∈ o, u.fingerprint = fp
  | .reading _ _ | .computed _ _ | .resized _ _ _ =>
    job.fingerprint ≠ none ∧
      ∀ fp ∈ job.fingerprint, v.fingerprint = fp → ∀ o ∈ h.drop job.since, ∀ u ∈ o, u.fingerprint = fp
  | .caching _ _ | .answering _ | .cleared _ | .ending => True

variable {X : Xxh3} {job : Job P} {phase : Phase} {k : Kind} {fp : HashFingerprint} {v : Value}

theorem Entry.append (he : Entry X h k fp v) (l : History) : Entry X (h ++ l) k fp v := by
  obtain ⟨u, hu, hfp, hv⟩ := he
  exact ⟨u, hu.append l, hfp, hv⟩

theorem Job.Faithful.snoc (hf : job.Faithful h) {o : Option Version}
    (hv : ∀ w, o = some w → ∀ fp ∈ job.fingerprint, w.fingerprint = fp →
      ∀ u, h.Has job.since u → u.fingerprint = fp) : job.Faithful (h ++ [o]) := by
  refine ⟨?_, ?_, ?_⟩
  · rw [List.length_append]
    exact Nat.lt_add_right _ hf.since_lt
  · intro fp hfp u hu hufp
    rcases History.has_snoc hu with hold | hnew
    · obtain ⟨w, hw, hwfp⟩ := hf.source fp hfp u hold hufp
      exact ⟨w, hw.append _, hwfp⟩
    · rw [hnew]
      exact ⟨u, History.has_new hf.since_lt.le, hufp⟩
  · intro fp hfp
    unfold History.At
    rw [History.current_snoc]
    cases o with
    | none => exact Or.inr (by simp)
    | some w =>
      by_cases hw : w.fingerprint = fp
      · refine Or.inl fun u hu => ?_
        rcases History.has_snoc hu with hu | hu
        · exact hv w rfl fp hfp hw u hu
        · cases hu
          exact hw
      · refine Or.inr ?_
        simpa using hw

theorem Job.Window.snoc {start : ℕ} (hw : job.Window h start) {o : Option Version}
    (ho : job.fingerprint = none → o = none) : job.Window (h ++ [o]) start := by
  refine ⟨hw.since_le, ?_, ?_⟩
  · rw [List.length_append]
    exact Nat.lt_add_right _ hw.start_lt
  · intro hfp u w hu hw'
    have ho' := ho hfp
    subst ho'
    have hold : ∀ u, (h ++ [none]).Has start u → h.Has start u := by
      intro u hu
      rcases History.has_snoc hu with hu | hu
      · exact hu
      · cases hu
    exact hw.one hfp u w (hold u hu) (hold w hw')

/-- While a job without a fingerprint reads, nothing appears. -/
theorem Job.Window.undisturbed {start : ℕ} (hw : job.Window h start) {o : Option Version}
    (ho : ∀ v, o = some v → job.fingerprint ≠ none) : job.Window (h ++ [o]) start := by
  refine hw.snoc fun hnone => ?_
  cases o with
  | none => rfl
  | some w => exact absurd hnone (ho w rfl)

/-- **A change that leaves a job undisturbed keeps it sound.** -/
theorem Job.Sound.snoc (hs : job.Sound X h phase) {o : Option Version}
    (ho : ∀ v, o = some v → job.Undisturbed h v phase) : job.Sound X (h ++ [o]) phase := by
  cases phase with
  | started =>
    refine Job.Faithful.snoc hs ?_
    intro w hw fp hfp hwfp u hu
    exact ho w hw fp hfp hwfp _ hu u rfl
  | reading start got =>
    obtain ⟨hf, hwin, hg⟩ := hs
    refine ⟨hf.snoc ?_, hwin.undisturbed fun w hw => (ho w hw).1, hg.append _⟩
    intro w hw fp hfp hwfp u hu
    exact (ho w hw).2 fp hfp hwfp _ hu u rfl
  | computed start v =>
    obtain ⟨hf, hwin, bytes, hg, hv⟩ := hs
    refine ⟨hf.snoc ?_, hwin.undisturbed fun w hw => (ho w hw).1, bytes, hg.append _, hv⟩
    intro w hw fp hfp hwfp u hu
    exact (ho w hw).2 fp hfp hwfp _ hu u rfl
  | resized start v size =>
    obtain ⟨hf, hwin, bytes, hg, hv⟩ := hs
    refine ⟨hf.snoc ?_, hwin.undisturbed fun w hw => (ho w hw).1, bytes, hg.append _, hv⟩
    intro w hw fp hfp hwfp u hu
    exact (ho w hw).2 fp hfp hwfp _ hu u rfl
  | caching fp v => exact Entry.append hs _
  | answering v => trivial
  | cleared v => trivial
  | ending => trivial

/-- **The second fingerprint is that of the content read.** -/
theorem Job.Sound.entry (hX : X.stream.Computes X.xxh3_128bits) {start size : ℕ}
    (hs : job.Sound X h (.resized start v size)) (huniq : h.Unique) (hu : h.current = some u)
    (hfp : job.fingerprint = none ∨ job.fingerprint = some u.fingerprint) :
    Entry X h job.kind u.fingerprint v := by
  obtain ⟨hf, hwin, bytes, hg, hv⟩ := hs
  have hhas : h.Has start u := History.has_current hu hwin.start_lt
  have hone : h.One start := by
    rcases hfp with hnone | hsome
    · exact hwin.one hnone
    · -- the fingerprint has not changed, so neither has the content
      have hstay : ∀ w, h.Has job.since w → w.fingerprint = u.fingerprint := by
        rcases hf.stayed _ hsome with hstay | hleft
        · exact hstay
        · exact absurd (congrArg (Option.map Version.fingerprint) hu) hleft
      intro a b ha hb
      refine huniq a b (ha.mono (Nat.zero_le _)) (hb.mono (Nat.zero_le _)) ?_
      rw [hstay a (ha.mono hwin.since_le), hstay b (hb.mono hwin.since_le)]
  have hbytes := hg.eq hone hhas
  subst hbytes
  rw [compute_eq hX u.size_lt] at hv
  exact ⟨u, hhas.mono (Nat.zero_le _), rfl, (Option.some.inj hv).symm⟩

/-! ### The invariant -/

namespace State

variable {s s' : State P} {r : Job P × Phase}

theorem mem_flights_onSession {sid : ℕ} {f : Session P → Session P}
    (hr : r ∈ (s.onSession sid f).flights) :
    r ∈ s.flights ∨ ∃ t, s.sessions[sid]? = some t ∧ (f t).recv.toRead = some r.1 ∧ r.2 = .started := by
  unfold flights onSession at hr
  rcases List.mem_append.1 hr with hr | hr
  · rcases List.mem_append.1 hr with hr | hr
    · obtain ⟨job, hjob, rfl⟩ := List.mem_map.1 hr
      obtain ⟨t, ht, hread⟩ := List.mem_filterMap.1 hjob
      obtain ⟨n, hn⟩ := List.mem_iff_getElem?.1 ht
      rw [List.getElem?_modify] at hn
      obtain ⟨t₀, ht₀, hft⟩ := Option.map_eq_some_iff.1 hn
      by_cases hsid : sid = n
      · rw [if_pos hsid] at hft
        subst hsid hft
        exact Or.inr ⟨t₀, ht₀, hread, rfl⟩
      · rw [if_neg hsid] at hft
        subst hft
        refine Or.inl (List.mem_append_left _ (List.mem_append_left _ ?_))
        exact List.mem_map_of_mem (List.mem_filterMap.2 ⟨_, List.mem_of_getElem? ht₀, hread⟩)
    · exact Or.inl (List.mem_append_left _ (List.mem_append_right _ hr))
  · exact Or.inl (List.mem_append_right _ hr)

theorem mem_flights_setPhase {i : ℕ} (hr : r ∈ (s.setPhase i job phase).flights) :
    r ∈ s.flights ∨ r = (job, phase) := by
  unfold flights setPhase at hr
  rcases List.mem_append.1 hr with hr | hr
  · exact Or.inl (List.mem_append_left _ hr)
  · rcases List.mem_or_eq_of_mem_set hr with hr | hr
    · exact Or.inl (List.mem_append_right _ hr)
    · exact Or.inr hr

theorem mem_flights_of_running {i : ℕ} (hr : s.running[i]? = some r) : r ∈ s.flights :=
  List.mem_append_right _ (List.mem_of_getElem? hr)

/-- The job of a receive loop is on its way. -/
theorem mem_flights_of_recv {sid : ℕ} {c : Recv P} (hc : (s.sessions[sid]?).map Session.recv = some c)
    (hjob : c.toRead = some job) : (job, .started) ∈ s.flights := by
  obtain ⟨t, ht, rfl⟩ := Option.map_eq_some_iff.1 hc
  refine List.mem_append_left _ (List.mem_append_left _ (List.mem_map_of_mem ?_))
  exact List.mem_filterMap.2 ⟨t, List.mem_of_getElem? ht, hjob⟩

/-- **The caches are fresh**: every entry, and every answer given from one, is that of the content
its fingerprint came with. -/
structure Fresh (X : Xxh3) (s : State P) : Prop where
  nonempty : ∀ rel, s.history rel ≠ []
  unique : ∀ rel, (s.history rel).Unique
  entries : ∀ k rel fp v, (s.caches k).cache rel = some (fp, v) → Entry X (s.history rel) k fp v
  flights : ∀ r ∈ s.flights, r.1.Sound X (s.history r.1.rel) r.2
  hits : ∀ r ∈ s.hits, ∃ u, (s.history r.1.rel).Has r.1.since u ∧
    r.2 = r.1.kind.value X u.content

theorem fresh_init [DecidableEq P] (X : Xxh3) (start : Start P) : (State.init start).Fresh X where
  nonempty := fun rel => List.cons_ne_nil _ _
  unique := by
    intro rel u w hu hw _
    have hu := List.mem_singleton.1 hu
    have hw := List.mem_singleton.1 hw
    rw [← hu] at hw
    cases hw
    rfl
  entries := by
    intro k rel fp v hc
    cases hc
  flights := by
    intro r hr
    have hnil : (State.init start).flights = [] := by
      unfold State.flights
      have : (State.init start).sessions.filterMap (fun t => t.recv.toRead) = [] := by
        rw [List.filterMap_eq_nil_iff]
        intro t ht
        obtain ⟨c, -, rfl⟩ := List.mem_map.1 ht
        rfl
      rw [this]
      rfl
    rw [hnil] at hr
    cases hr
  hits := by
    intro r hr
    cases hr

/-- A step that leaves files, caches and hits alone keeps the caches fresh when the jobs it moves
are sound. -/
theorem Fresh.step (h : s.Fresh X) (hh : s'.history = s.history) (hc : s'.caches = s.caches)
    (hhits : s'.hits = s.hits)
    (hf : ∀ r ∈ s'.flights, r ∈ s.flights ∨ r.1.Sound X (s.history r.1.rel) r.2) : s'.Fresh X where
  nonempty := by
    rw [hh]
    exact h.nonempty
  unique := by
    rw [hh]
    exact h.unique
  entries := by
    rw [hh, hc]
    exact h.entries
  flights := by
    intro r hr
    rw [hh]
    rcases hf r hr with hold | hnew
    · exact h.flights r hold
    · exact hnew
  hits := by
    rw [hhits, hh]
    exact h.hits

theorem Fresh.onSession (h : s.Fresh X) (sid : ℕ) {f : Session P → Session P}
    (hf : ∀ t, s.sessions[sid]? = some t → ∀ job, (f t).recv.toRead = some job →
      job.Faithful (s.history job.rel)) : (s.onSession sid f).Fresh X := by
  refine h.step rfl rfl rfl fun r hr => ?_
  rcases mem_flights_onSession hr with hold | ⟨t, ht, hread, hph⟩
  · exact Or.inl hold
  · refine Or.inr ?_
    rw [hph]
    exact hf t ht r.1 hread

/-- A step of the receive loop that takes up no new job. -/
theorem Fresh.onSession_keep (h : s.Fresh X) (sid : ℕ) {f : Session P → Session P}
    (hf : ∀ t, s.sessions[sid]? = some t → ∀ job, (f t).recv.toRead = some job →
      t.recv.toRead = some job) : (s.onSession sid f).Fresh X := by
  refine h.onSession sid fun t ht job hjob => ?_
  have hmem : (job, .started) ∈ s.flights :=
    mem_flights_of_recv (Option.map_eq_some_iff.2 ⟨t, ht, rfl⟩) (hf t ht job hjob)
  exact h.flights _ hmem

theorem Fresh.setPhase (h : s.Fresh X) (i : ℕ) (hs : job.Sound X (s.history job.rel) phase) :
    (s.setPhase i job phase).Fresh X := by
  refine h.step rfl rfl rfl fun r hr => ?_
  rcases mem_flights_setPhase hr with hold | rfl
  · exact Or.inl hold
  · exact Or.inr hs

theorem Fresh.running (h : s.Fresh X) {i : ℕ} (hr : s.running[i]? = some (job, phase)) :
    job.Sound X (s.history job.rel) phase :=
  h.flights _ (mem_flights_of_running hr)

/-! ### The steps -/

theorem Fresh.receive (h : s.Fresh X) (sid : ℕ) (kind : Kind) (rel : P) (sizeOk : Bool) :
    (s.receive sid kind rel sizeOk).Fresh X := by
  have hpos := List.length_pos_iff.2 (h.nonempty rel)
  refine h.onSession sid fun t ht job hjob => ?_
  dsimp only at hjob
  split at hjob
  · have hmem : (job, .started) ∈ s.flights :=
      mem_flights_of_recv (Option.map_eq_some_iff.2 ⟨t, ht, rfl⟩) hjob
    exact h.flights _ hmem
  · split at hjob
    · cases hjob
    · cases hjob
      exact ⟨Nat.sub_lt hpos Nat.one_pos, fun fp hfp => (Option.some_ne_none fp hfp.symm).elim,
        fun fp hfp => (Option.some_ne_none fp hfp.symm).elim⟩

theorem Fresh.enqueue (h : s.Fresh X) (sid : ℕ) (ok : Bool) : (s.enqueue sid ok).Fresh X := by
  unfold State.enqueue
  split
  · rename_i job hrecv
    cases ok with
    | true =>
      have htask : ({ s with tasks := s.tasks ++ [job] } : State P).Fresh X := by
        refine h.step rfl rfl rfl fun r hr => ?_
        unfold State.flights at hr
        simp only [List.map_append, List.map_cons, List.map_nil, List.mem_append,
          List.mem_singleton] at hr
        rcases hr with (hr | hr | hr) | hr
        · exact Or.inl (List.mem_append_left _ (List.mem_append_left _ hr))
        · exact Or.inl (List.mem_append_left _ (List.mem_append_right _ hr))
        · refine Or.inl ?_
          rw [hr]
          exact mem_flights_of_recv hrecv rfl
        · exact Or.inl (List.mem_append_right _ hr)
      refine htask.onSession_keep sid fun t ht job' hjob' => ?_
      cases hjob'
    | false =>
      refine h.onSession_keep sid fun t ht job' hjob' => ?_
      cases hjob'
  · exact h

theorem Fresh.take (h : s.Fresh X) : s.take.Fresh X := by
  unfold State.take
  split
  · exact h
  · rename_i job rest htasks
    refine h.step rfl rfl rfl fun r hr => Or.inl ?_
    unfold State.flights at hr ⊢
    rw [htasks]
    simp only [List.mem_append, List.map_cons, List.mem_cons, List.not_mem_nil, or_false] at hr ⊢
    tauto

theorem Fresh.begin (h : s.Fresh X) (i : ℕ) (sizeOk : Bool) : (s.begin i sizeOk).Fresh X := by
  unfold State.begin
  split
  · rename_i job hrun
    have hfaith : job.Faithful (s.history job.rel) := h.running hrun
    have hpos := List.length_pos_iff.2 (h.nonempty job.rel)
    split
    · have hend : (s.setPhase i job .ending).Fresh X := h.setPhase i trivial
      exact hend.onSession_keep _ fun t ht job' hjob' => hjob'
    · split
      · rename_i v hcur
        refine h.setPhase i ⟨hfaith, ⟨?_, Nat.sub_lt hpos Nat.one_pos, ?_⟩, ?_, ?_⟩
        · have := hfaith.since_lt
          omega
        · intro _ a b ha hb
          rw [History.eq_of_has_last hcur ha, History.eq_of_has_last hcur hb]
        · refine ⟨v, History.has_current hcur (Nat.sub_lt hpos Nat.one_pos), ?_⟩
          rw [List.length_replicate]
        · intro j b hb
          rw [List.getElem?_replicate] at hb
          split at hb <;> cases hb
      · exact h.setPhase i trivial
  · exact h

theorem Fresh.read (h : s.Fresh X) {i off len src : ℕ}
    (hcan : (s.running[i]?).any fun r =>
      match r.2, (s.history r.1.rel)[src]? with
      | .reading start got, some (some v) =>
        decide (start ≤ src ∧ 0 < len ∧ off + len ≤ got.length ∧ off + len ≤ v.content.length ∧
          none ∈ (got.drop off).take len)
      | _, _ => false) : (s.read i off len src).Fresh X := by
  unfold State.read
  split
  · rename_i job start got hrun
    rw [hrun] at hcan
    split
    · rename_i v hsrc
      obtain ⟨hf, hwin, hg⟩ : job.Sound X (s.history job.rel) (.reading start got) := h.running hrun
      simp only [Option.any_some, hsrc, decide_eq_true_eq] at hcan
      obtain ⟨hle, -, hgot, hcontent, -⟩ := hcan
      have hhas : (s.history job.rel).Has start v := by
        have : (s.history job.rel).Has src v := by
          unfold History.Has
          refine List.mem_iff_getElem?.2 ⟨0, ?_⟩
          rw [List.getElem?_drop, Nat.add_zero, hsrc]
        exact this.mono hle
      refine h.setPhase i ⟨hf, hwin, hg.read hhas hgot hcontent⟩
    · exact h
  · exact h

theorem Fresh.readFail (h : s.Fresh X) (i : ℕ) : (s.readFail i).Fresh X := by
  unfold State.readFail
  split
  · exact h.setPhase i trivial
  · exact h

theorem Fresh.compute {cfg : Config} (h : s.Fresh cfg.X) {i : ℕ}
    (hcan : (s.running[i]?).any fun r =>
      match r.2 with | .reading _ got => decide (none ∉ got) | _ => false) :
    (s.compute cfg i).Fresh cfg.X := by
  unfold State.compute
  split
  · rename_i job start got hrun
    rw [hrun] at hcan
    simp only [Option.any_some, decide_eq_true_eq] at hcan
    split
    · rename_i v hv
      obtain ⟨hf, hwin, hg⟩ : job.Sound cfg.X (s.history job.rel) (.reading start got) := h.running hrun
      refine h.setPhase i ⟨hf, hwin, got.filterMap id, ?_, hv⟩
      rw [map_some_filterMap hcan]
      exact hg
    · exact h.setPhase i trivial
  · exact h

theorem Fresh.fileSizeAgain (h : s.Fresh X) (i : ℕ) (ok : Bool) : (s.fileSizeAgain i ok).Fresh X := by
  unfold State.fileSizeAgain
  split
  · rename_i job start v hrun
    have hs : job.Sound X (s.history job.rel) (.computed start v) := h.running hrun
    split
    · split
      · exact h.setPhase i hs
      · exact h.setPhase i trivial
    · exact h.setPhase i trivial
  · exact h

theorem Fresh.checkDone (h : s.Fresh X) (i : ℕ) : (s.checkDone i).Fresh X := by
  unfold State.checkDone
  split
  · rename_i job v hrun
    split
    · have hend : (s.setPhase i job .ending).Fresh X := h.setPhase i trivial
      exact hend.onSession_keep _ fun t ht job' hjob' => hjob'
    · exact h.setPhase i trivial
  · exact h

theorem Fresh.respond (h : s.Fresh X) (i : ℕ) (ok : Bool) : (s.respond i ok).Fresh X := by
  unfold State.respond
  split
  · rename_i job v hrun
    have hend : (s.setPhase i job .ending).Fresh X := h.setPhase i trivial
    refine hend.onSession_keep _ fun t ht job' hjob' => ?_
    cases ok <;> exact hjob'
  · exact h

/-- A job that leaves the workers takes nothing with it. -/
theorem Fresh.eraseIdx (h : s.Fresh X) (i : ℕ) :
    ({ s with running := s.running.eraseIdx i } : State P).Fresh X := by
  refine h.step rfl rfl rfl fun r hr => Or.inl ?_
  rcases List.mem_append.1 hr with hr | hr
  · exact List.mem_append_left _ hr
  · exact List.mem_append_right _ (List.mem_of_mem_eraseIdx hr)

theorem Fresh.finishJob (h : s.Fresh X) (i : ℕ) : (s.finishJob i).Fresh X := by
  unfold State.finishJob
  split
  · exact (h.eraseIdx i).onSession_keep _ fun t ht job' hjob' => hjob'
  · exact h

variable [DecidableEq P]

theorem Fresh.lookup (h : s.Fresh X) (sid : ℕ) : (s.lookup sid).Fresh X := by
  unfold State.lookup
  split
  · rename_i job hrecv
    have hfaith : job.Faithful (s.history job.rel) := h.flights _ (mem_flights_of_recv hrecv rfl)
    have hmiss : ∀ s' : State P, s'.Fresh X → s'.history = s.history →
        (s'.onSession sid fun t => { t with recv := .missed job }).Fresh X := by
      intro s' hs' hhist
      refine hs'.onSession sid fun t ht job' hjob' => ?_
      cases hjob'
      rw [hhist]
      exact hfaith
    cases hfp : job.fingerprint with
    | none => exact hmiss s h rfl
    | some fp =>
      dsimp only
      obtain ⟨hold, hhit⟩ := (s.caches job.kind).tryGet_spec job.rel fp
      -- the caches after the lookup hold no entry they did not hold before
      have hsub : ({ s with
          caches := Function.update s.caches job.kind ((s.caches job.kind).tryGet job.rel fp).1 } :
            State P).Fresh X := by
        refine ⟨h.nonempty, h.unique, ?_, h.flights, h.hits⟩
        intro k rel fp v hcache
        dsimp only at hcache
        by_cases hk : k = job.kind
        · subst hk
          rw [Function.update_self] at hcache
          exact h.entries _ rel fp v (hold rel _ hcache)
        · rw [Function.update_of_ne hk] at hcache
          exact h.entries k rel fp v hcache
      split
      · exact hmiss _ hsub rfl
      · rename_i v hv
        -- the path has been in a version with the fingerprint since it was read
        obtain ⟨w, hw, hwfp, hvw⟩ := h.entries job.kind job.rel fp v (hhit v hv)
        obtain ⟨u, hu, hufp⟩ := hfaith.source _ hfp w hw hwfp
        have hcontent := h.unique job.rel u w (hu.mono (Nat.zero_le _)) hw (hufp.trans hwfp.symm)
        have hhits : ({ s with
            caches := Function.update s.caches job.kind ((s.caches job.kind).tryGet job.rel fp).1
            hits := s.hits ++ [(job, v)] } : State P).Fresh X := by
          refine ⟨hsub.nonempty, hsub.unique, hsub.entries, hsub.flights, ?_⟩
          intro r hr
          rcases List.mem_append.1 hr with hr | hr
          · exact hsub.hits r hr
          · rw [List.mem_singleton.1 hr]
            refine ⟨u, hu, ?_⟩
            rw [hcontent]
            exact hvw
        refine hhits.onSession_keep sid fun t ht job' hjob' => ?_
        cases hjob'
  · exact h

theorem Fresh.upsert (h : s.Fresh X) (i : ℕ) (ok : Bool) : (s.upsert i ok).Fresh X := by
  unfold State.upsert
  split
  · rename_i job fp v hrun
    have hentry : Entry X (s.history job.rel) job.kind fp v := h.running hrun
    cases ok with
    | false => exact h.setPhase i trivial
    | true =>
      have hput : ({ s with
          caches := Function.update s.caches job.kind ((s.caches job.kind).upsert job.rel fp v) } :
            State P).Fresh X := by
        refine ⟨h.nonempty, h.unique, ?_, h.flights, h.hits⟩
        intro k rel fp' v' hcache
        dsimp only at hcache
        by_cases hk : k = job.kind
        · subst hk
          rw [Function.update_self] at hcache
          unfold MemCache.upsert at hcache
          split at hcache
          · dsimp only at hcache
            by_cases hrel : rel = job.rel
            · subst hrel
              rw [Function.update_self] at hcache
              cases hcache
              exact hentry
            · rw [Function.update_of_ne hrel] at hcache
              exact h.entries _ rel fp' v' hcache
          · exact h.entries _ rel fp' v' hcache
        · rw [Function.update_of_ne hk] at hcache
          exact h.entries k rel fp' v' hcache
      exact hput.setPhase i trivial
  · exact h

theorem modify_history (s : State P) (rel : P) (o : Option Version) (rel' : P) :
    (s.modify rel o).history rel' = if rel' = rel then s.history rel' ++ [o] else s.history rel' := by
  show Function.update s.history rel (s.history rel ++ [o]) rel' = _
  split
  · rename_i hrel
    subst hrel
    rw [Function.update_self]
  · rename_i hrel
    rw [Function.update_of_ne hrel]

/-- **A change of a path that leaves the jobs undisturbed keeps the caches fresh.** -/
theorem Fresh.modify (h : s.Fresh X) {rel : P} {o : Option Version}
    (hcan : (s.history rel).all fun old =>
      match old, o with
      | some u, some v => decide (u.fingerprint = v.fingerprint → u.content = v.content)
      | _, _ => true)
    (hok : ∀ v, o = some v → ∀ r ∈ s.flights, r.1.rel = rel → r.1.Undisturbed (s.history rel) v r.2) :
    (s.modify rel o).Fresh X := by
  have hmem : ∀ u, (s.history rel).Has 0 u → ∀ v, o = some v → u.fingerprint = v.fingerprint →
      u.content = v.content := by
    intro u hu v hv hfp
    have := List.all_eq_true.1 hcan _ hu
    rw [hv] at this
    exact of_decide_eq_true this hfp
  refine ⟨?_, ?_, ?_, ?_, ?_⟩
  · intro rel'
    rw [modify_history]
    split
    · exact List.append_ne_nil_of_left_ne_nil (h.nonempty rel') _
    · exact h.nonempty rel'
  · intro rel'
    rw [modify_history]
    split
    · rename_i hrel
      subst hrel
      exact (h.unique rel').snoc hmem
    · exact h.unique rel'
  · -- a version that an entry is about stays in the history
    intro k rel' fp v hcache
    have hentry := h.entries k rel' fp v hcache
    rw [modify_history]
    split
    · exact hentry.append _
    · exact hentry
  · -- the jobs in flight are not disturbed by this change
    intro r hr
    have hsound := h.flights r hr
    rw [modify_history]
    split
    · rename_i hrel
      refine hsound.snoc fun v hv => ?_
      rw [hrel]
      exact hok v hv r hr hrel
    · exact hsound
  · intro r hr
    obtain ⟨u, hu, hv⟩ := h.hits r hr
    refine ⟨u, ?_, hv⟩
    rw [modify_history]
    split
    · exact hu.append _
    · exact hu

end State

/-- The first fingerprint is one: a time read after a size does not make up the fingerprint of a
version the path has had and is not in. -/
def Recv.Whole (history : P → History) (mtimeNs : ℤ) : Recv P → Prop
  | .dating job size => ∀ o ∈ history job.rel, ∀ u ∈ o, u.fingerprint = ⟨size, mtimeNs⟩ →
      (history job.rel).At ⟨size, mtimeNs⟩
  | _ => True

/-- The second fingerprint is one, where the answer is about to be cached under it: the path is in
a version that has it. -/
def Job.Whole (h : History) (job : Job P) (mtimeNs : ℤ) : Phase → Prop
  | .resized _ _ size => job.fingerprint = none ∨ job.fingerprint = some ⟨size, mtimeNs⟩ →
      h.At ⟨size, mtimeNs⟩
  | _ => True

/-- The steps leave the jobs their answers. -/
def Event.Undisturbed (s : State P) : Event P → Prop
  | .modify rel (some v) => ∀ r ∈ s.flights, r.1.rel = rel → r.1.Undisturbed (s.history rel) v r.2
  | .lastWriteTime sid (some m) => ∀ t ∈ s.sessions[sid]?, t.recv.Whole s.history m
  | .lastWriteTimeAgain i (some m) => ∀ r ∈ s.running[i]?, r.1.Whole (s.history r.1.rel) m r.2
  | _ => True

namespace State

variable {s : State P}

theorem Fresh.lastWriteTime (h : s.Fresh X) {sid : ℕ} {mtimeNs : Option ℤ}
    (hok : (Event.lastWriteTime sid mtimeNs).Undisturbed s) : (s.lastWriteTime sid mtimeNs).Fresh X := by
  unfold State.lastWriteTime
  split
  · rename_i job size hrecv
    have hpos := List.length_pos_iff.2 (h.nonempty job.rel)
    have hlast := Nat.sub_lt hpos Nat.one_pos
    refine h.onSession sid fun t ht job' hjob' => ?_
    cases hjob'
    refine ⟨hlast, ?_, ?_⟩
    · intro fp hfp u hu hufp
      obtain ⟨m, rfl, rfl⟩ := Option.map_eq_some_iff.1 hfp
      have hwhole : t.recv.Whole s.history m := hok t ht
      rw [ht] at hrecv
      rw [Option.some.inj hrecv] at hwhole
      obtain ⟨w, hw, hwfp⟩ := Option.map_eq_some_iff.1 (hwhole _ hu u rfl hufp)
      exact ⟨w, History.has_current hw hlast, hwfp⟩
    · -- from the last state on there is no other
      intro fp _
      by_cases hat : (s.history job.rel).At fp
      · obtain ⟨w, hw, hwfp⟩ := Option.map_eq_some_iff.1 hat
        refine Or.inl fun u hu => ?_
        rw [History.eq_of_has_last hw hu]
        exact hwfp
      · exact Or.inr hat
  · exact h

theorem Fresh.lastWriteTimeAgain (hX : X.stream.Computes X.xxh3_128bits) (h : s.Fresh X) {i : ℕ}
    {mtimeNs : Option ℤ} (hok : (Event.lastWriteTimeAgain i mtimeNs).Undisturbed s) :
    (s.lastWriteTimeAgain i mtimeNs).Fresh X := by
  unfold State.lastWriteTimeAgain
  split
  · rename_i job start v size hrun
    cases mtimeNs with
    | none => exact h.setPhase i trivial
    | some m =>
      dsimp only
      split
      · rename_i hsame
        have hsame : job.fingerprint = none ∨ job.fingerprint = some ⟨size, m⟩ := by simpa using hsame
        have hwhole : job.Whole (s.history job.rel) m (.resized start v size) := hok _ hrun
        obtain ⟨u, hu, hufp⟩ := Option.map_eq_some_iff.1 (hwhole hsame)
        have hs : job.Sound X (s.history job.rel) (.resized start v size) := h.running hrun
        rw [← hufp] at hsame ⊢
        exact h.setPhase i (hs.entry hX (h.unique job.rel) hu hsame)
      · exact h.setPhase i trivial
  · exact h

end State

variable [DecidableEq P] {cfg : Config} {start : Start P} {s : State P}

/-- **One step.** -/
theorem fresh_exec (hX : cfg.X.stream.Computes cfg.X.xxh3_128bits) (h : s.Fresh cfg.X) {e : Event P}
    (hc : e.Can cfg s) (hok : e.Undisturbed s) : (e.exec cfg s).Fresh cfg.X := by
  cases e with
  | receive sid kind rel sizeOk => exact h.receive sid kind rel sizeOk
  | lastWriteTime sid mtimeNs => exact h.lastWriteTime hok
  | lookup sid => exact h.lookup sid
  | answerHit sid =>
    show (s.answerHit sid).Fresh cfg.X
    unfold State.answerHit
    split
    · exact h.onSession_keep sid fun t ht job' hjob' => by cases hjob'
    · exact h
  | count sid =>
    show (s.count sid).Fresh cfg.X
    unfold State.count
    split
    · rename_i job hrecv
      refine h.onSession sid fun t ht job' hjob' => ?_
      cases hjob'
      exact h.flights _ (State.mem_flights_of_recv hrecv rfl)
    · exact h
  | enqueue sid ok => exact h.enqueue sid ok
  | refuse sid =>
    show (s.refuse sid).Fresh cfg.X
    unfold State.refuse
    split
    · exact h.onSession_keep sid fun t ht job' hjob' => by cases hjob'
    · exact h
  | recvThrow sid =>
    refine h.onSession_keep sid fun t ht job' hjob' => ?_
    split at hjob' <;> first | cases hjob' | exact hjob'
  | recvExit sid => exact h.onSession_keep sid fun t ht job' hjob' => by cases hjob'
  | setDone sid => exact h.onSession_keep sid fun t ht job' hjob' => hjob'
  | send sid => exact h.onSession_keep sid fun t ht job' hjob' => hjob'
  | drain sid timedOut => exact h.onSession_keep sid fun t ht job' hjob' => hjob'
  | take => exact h.take
  | begin i sizeOk => exact h.begin i sizeOk
  | read i off len src => exact h.read hc
  | readFail i => exact h.readFail i
  | compute i => exact h.compute hc
  | fileSizeAgain i ok => exact h.fileSizeAgain i ok
  | lastWriteTimeAgain i mtimeNs => exact h.lastWriteTimeAgain hX hok
  | upsert i ok => exact h.upsert i ok
  | checkDone i => exact h.checkDone i
  | respond i ok => exact h.respond i ok
  | finishJob i => exact h.finishJob i
  | escape i => exact h.eraseIdx i
  | modify rel o =>
    refine h.modify hc fun v hv r hr hrel => ?_
    subst hv
    exact hok r hr hrel

theorem fresh_reach (hX : cfg.X.stream.Computes cfg.X.xxh3_128bits)
    (h : (machine cfg start).Reach (fun s e => e.Undisturbed s) s) : s.Fresh cfg.X :=
  h.invariant (I := State.Fresh cfg.X) (State.fresh_init cfg.X start)
    fun _ _ hs hc hok => fresh_exec hX hs hc hok

/-- **The caches are never stale** in runs in which no path comes back to a fingerprint a job has
read first, no path whose first fingerprint could not be read changes while the job reads it, and
no size and time read one after the other make up the fingerprint of a version the path is not in:
every entry is the answer for every content that has its fingerprint, a lookup with the
fingerprint a path has gives the answer for its content, and an answer given from a cache is that
of a version the path has been in since its request read the fingerprint. -/
theorem caches_never_stale (cfg : Config) (hX : cfg.X.stream.Computes cfg.X.xxh3_128bits)
    (start : Start P) {s : State P} (h : (machine cfg start).Reach (fun s e => e.Undisturbed s) s) :
    (∀ k rel fp v, (s.caches k).cache rel = some (fp, v) →
      (∃ u, (s.history rel).Has 0 u ∧ u.fingerprint = fp) ∧
      ∀ u, (s.history rel).Has 0 u → u.fingerprint = fp → v = k.value cfg.X u.content) ∧
    (∀ k rel u v, (s.history rel).current = some u →
      ((s.caches k).tryGet rel u.fingerprint).2 = some v → v = k.value cfg.X u.content) ∧
    (∀ r ∈ s.hits, ∃ u, (s.history r.1.rel).Has r.1.since u ∧
      r.2 = r.1.kind.value cfg.X u.content) := by
  have hf := fresh_reach hX h
  have hentry : ∀ k rel fp v, (s.caches k).cache rel = some (fp, v) →
      ∀ u, (s.history rel).Has 0 u → u.fingerprint = fp → v = k.value cfg.X u.content := by
    intro k rel fp v hc u hu hfp
    obtain ⟨w, hw, hwfp, hv⟩ := hf.entries k rel fp v hc
    rw [hv, hf.unique rel u w hu hw (hfp.trans hwfp.symm)]
  refine ⟨?_, ?_, hf.hits⟩
  · intro k rel fp v hc
    obtain ⟨u, hu, hfp, -⟩ := hf.entries k rel fp v hc
    exact ⟨⟨u, hu, hfp⟩, hentry k rel fp v hc⟩
  · intro k rel u v hu hv
    have hpos := List.length_pos_iff.2 (hf.nonempty rel)
    exact hentry k rel _ v (((s.caches k).tryGet_spec rel _).2 v hv) u (History.has_current hu hpos) rfl

instance (h : History) (job : Job P) (v : Version) : (phase : Phase) →
    Decidable (job.Undisturbed h v phase)
  | .started => inferInstanceAs (Decidable (∀ fp ∈ job.fingerprint, v.fingerprint = fp →
      ∀ o ∈ h.drop job.since, ∀ u ∈ o, u.fingerprint = fp))
  | .reading _ _ | .computed _ _ | .resized _ _ _ => inferInstanceAs (Decidable (job.fingerprint ≠ none ∧
      ∀ fp ∈ job.fingerprint, v.fingerprint = fp →
        ∀ o ∈ h.drop job.since, ∀ u ∈ o, u.fingerprint = fp))
  | .caching _ _ | .answering _ | .cleared _ | .ending => .isTrue trivial

instance (history : P → History) (m : ℤ) : (c : Recv P) → Decidable (c.Whole history m)
  | .dating job size => inferInstanceAs (Decidable (∀ o ∈ history job.rel, ∀ u ∈ o,
      u.fingerprint = ⟨size, m⟩ → (history job.rel).At ⟨size, m⟩))
  | .idle | .looking _ | .hit _ _ | .missed _ | .counted _ | .refused _ | .dead => .isTrue trivial

instance (h : History) (job : Job P) (m : ℤ) : (phase : Phase) → Decidable (job.Whole h m phase)
  | .resized _ _ size => inferInstanceAs (Decidable
      (job.fingerprint = none ∨ job.fingerprint = some ⟨size, m⟩ → h.At ⟨size, m⟩))
  | .started | .reading _ _ | .computed _ _ | .caching _ _ | .answering _ | .cleared _ | .ending =>
    .isTrue trivial

instance (s : State P) : (e : Event P) → Decidable (e.Undisturbed s)
  | .modify rel (some v) => inferInstanceAs (Decidable (∀ r ∈ s.flights, r.1.rel = rel →
      r.1.Undisturbed (s.history rel) v r.2))
  | .lastWriteTime sid (some m) =>
    inferInstanceAs (Decidable (∀ t ∈ s.sessions[sid]?, t.recv.Whole s.history m))
  | .lastWriteTimeAgain i (some m) =>
    inferInstanceAs (Decidable (∀ r ∈ s.running[i]?, r.1.Whole (s.history r.1.rel) m r.2))
  | .modify _ none | .lastWriteTime _ none | .lastWriteTimeAgain _ none | .receive _ _ _ _
  | .lookup _ | .answerHit _ | .count _ | .enqueue _ _ | .refuse _ | .recvThrow _ | .recvExit _
  | .setDone _ | .send _ | .drain _ _ | .take | .begin _ _ | .read _ _ _ _ | .readFail _
  | .compute _ | .fileSizeAgain _ _ | .upsert _ _ | .checkDone _ | .respond _ _ | .finishJob _
  | .escape _ => .isTrue trivial

/-- One byte, at a time. -/
def byteAt (mtimeNs : ℤ) (b : UInt8) : Version := ⟨mtimeNs, [b], by simp⟩

/-- XXH3-128 on short files, one worker. -/
def shortConfig : Config := ⟨shortXxh3, 1, Nat.one_pos⟩

/-- One session and the caches switched on. -/
def oneSession (file : Option Version) : Start ℕ := ⟨fun _ => file, true, [false]⟩

/-- A request is answered by a job and then, while the file stays as it is, from the cache; the
file changes under the next request, and once more between its size and its time. -/
def steadyRun : List (Event ℕ) :=
  [.receive 0 .hash 0 true, .lastWriteTime 0 (some 1), .lookup 0, .count 0, .enqueue 0 true, .take,
    .begin 0 true, .read 0 0 1 0, .compute 0, .fileSizeAgain 0 true, .lastWriteTimeAgain 0 (some 1),
    .upsert 0 true, .checkDone 0, .respond 0 true, .finishJob 0,
    .receive 0 .hash 0 true, .lastWriteTime 0 (some 1), .lookup 0, .answerHit 0,
    .receive 0 .hash 0 true, .modify 0 (some (byteAt 2 8)), .lastWriteTime 0 (some 2), .lookup 0,
    .count 0, .modify 0 (some (byteAt 3 9))]

theorem caches_never_stale_steadyRun :
    let s := (machine shortConfig (oneSession (some (byteAt 1 7)))).run
      (.init (oneSession (some (byteAt 1 7)))) steadyRun
    s.hits.length = 1 ∧ ∀ r ∈ s.hits, ∃ u, (s.history r.1.rel).Has r.1.since u ∧
      r.2 = r.1.kind.value shortXxh3 u.content := by
  have hrun : (machine shortConfig (oneSession (some (byteAt 1 7)))).Allows
      (fun s e => e.Undisturbed s) (.init (oneSession (some (byteAt 1 7)))) steadyRun := by decide
  obtain ⟨-, -, hhits⟩ := caches_never_stale shortConfig (Incremental.buffered_computes xxh3Short)
    (oneSession (some (byteAt 1 7))) (Runs.Machine.reach_run hrun)
  exact ⟨by decide, hhits⟩

/-- The file appears after the request has looked for its fingerprint, and changes between the
read and the second fingerprint. -/
def staleRun : List (Event ℕ) :=
  [.receive 0 .hash 0 true, .lookup 0, .count 0, .enqueue 0 true, .take,
    .modify 0 (some (byteAt 1 7)), .begin 0 true, .read 0 0 1 1, .compute 0,
    .modify 0 (some (byteAt 2 8)), .fileSizeAgain 0 true, .lastWriteTimeAgain 0 (some 2), .upsert 0 true]

/-- The same with a fingerprint, to which the file comes back. -/
def returnRun : List (Event ℕ) :=
  [.receive 0 .hash 0 true, .lastWriteTime 0 (some 1), .lookup 0, .count 0, .enqueue 0 true, .take,
    .modify 0 (some (byteAt 2 8)), .begin 0 true, .read 0 0 1 1, .compute 0,
    .modify 0 (some (byteAt 1 7)), .fileSizeAgain 0 true, .lastWriteTimeAgain 0 (some 1), .upsert 0 true]

/-- Two bytes, at a time. -/
def twoBytesAt (mtimeNs : ℤ) : Version := ⟨mtimeNs, [0, 0], by simp⟩

/-- The second fingerprint has the size of one version and the time of the next, and is the first
one; the file comes back to that when the job is over. -/
def tornRun : List (Event ℕ) :=
  [.receive 0 .hash 0 true, .lastWriteTime 0 (some 1), .lookup 0, .count 0, .enqueue 0 true, .take,
    .modify 0 (some (byteAt 3 8)), .begin 0 true, .read 0 0 1 1, .compute 0, .fileSizeAgain 0 true,
    .modify 0 (some (twoBytesAt 1)), .lastWriteTimeAgain 0 (some 1), .upsert 0 true, .checkDone 0,
    .respond 0 true, .finishJob 0, .modify 0 (some (byteAt 1 7))]

theorem hash_seven_ne_eight :
    shortXxh3.computeBufferHash [7] ≠ shortXxh3.computeBufferHash [8] := by decide

/-- **The caches can be stale**: after `staleRun` the fingerprint of the file finds the hash of
another content. -/
theorem caches_stale_without_first_fingerprint :
    ¬ ∀ s, (machine shortConfig (oneSession none)).Reach (fun _ _ => True) s →
      ∀ k rel u v, (s.history rel).current = some u →
        ((s.caches k).tryGet rel u.fingerprint).2 = some v → v = k.value shortXxh3 u.content := by
  intro h
  have hrun : (machine shortConfig (oneSession none)).Allows (fun _ _ => True)
      (.init (oneSession none)) staleRun := by decide
  have hv := h _ (Runs.Machine.reach_run hrun) .hash 0 (byteAt 2 8) _ rfl rfl
  exact hash_seven_ne_eight (Value.hash.inj hv)

/-- A file that comes back to a fingerprint does as much to a request that has read it. -/
theorem caches_stale_on_return :
    ¬ ∀ s, (machine shortConfig (oneSession (some (byteAt 1 7)))).Reach (fun _ _ => True) s →
      ∀ k rel u v, (s.history rel).current = some u →
        ((s.caches k).tryGet rel u.fingerprint).2 = some v → v = k.value shortXxh3 u.content := by
  intro h
  have hrun : (machine shortConfig (oneSession (some (byteAt 1 7)))).Allows (fun _ _ => True)
      (.init (oneSession (some (byteAt 1 7)))) returnRun := by decide
  have hv := h _ (Runs.Machine.reach_run hrun) .hash 0 (byteAt 1 7) _ rfl rfl
  exact hash_seven_ne_eight (Value.hash.inj hv).symm

/-- So do a size and a time of two versions. -/
theorem caches_stale_on_torn_fingerprint :
    ¬ ∀ s, (machine shortConfig (oneSession (some (byteAt 1 7)))).Reach (fun _ _ => True) s →
      ∀ k rel u v, (s.history rel).current = some u →
        ((s.caches k).tryGet rel u.fingerprint).2 = some v → v = k.value shortXxh3 u.content := by
  intro h
  have hrun : (machine shortConfig (oneSession (some (byteAt 1 7)))).Allows (fun _ _ => True)
      (.init (oneSession (some (byteAt 1 7)))) tornRun := by decide
  have hv := h _ (Runs.Machine.reach_run hrun) .hash 0 (byteAt 1 7) _ rfl rfl
  exact hash_seven_ne_eight (Value.hash.inj hv).symm

end FastClone.ServerHash
