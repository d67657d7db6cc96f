import FastClone.Proof.ReaderProgress
import Mathlib.Data.Nat.Find

/-!
# The sequential reader hands the file back in order

Where every read completes in full, what `next` has handed back is the file up to the next offset, whatever
the driver accepts and in whatever order it delivers (`Served`). A chunk that is taken continues it, since
the window has exactly one span at that offset.

* `reach_inOrder`: **the chunks are at every moment a beginning of the file, with never more reads in flight
  than the read-ahead**; a return of 0 bytes comes after the whole file, and calls of `pull` of any sizes
  serve the same bytes.
* `reader_whole`: as long as calls with an empty window get a read accepted, the whole file comes.
-/

namespace FastClone.SequentialReader

open FastClone.DiskIo Runs Spans

/-- Every read completes in full, with the bytes of the file. -/
def Serves (content : Bytes) (_ : State) : Event → Prop
  | .reap done => ∀ d ∈ done, d.2.status = .ok ∧ d.2.data = (content.drop d.1.offset).take d.1.length
  | _ => True

instance (content : Bytes) (s : State) : DecidablePred (Serves content s)
  | .reap done => inferInstanceAs (Decidable (∀ d ∈ done, _))
  | .call _ | .yield _ => .isTrue trivial

/-- The bytes handed back so far. -/
def State.bytes (s : State) : Bytes := (s.returns.map Return.out).flatten

/-- The waiting chunks hold the bytes of the file, and so do the returns. -/
structure Served (content : Bytes) (s : State) : Prop where
  chunks : ∀ kc ∈ s.reader.reordered, kc.2.status = .ok ∧
    kc.2.data = (content.drop kc.2.offset).take kc.2.requested
  bytes : s.bytes = content.take s.reader.nextYieldOffset
  good : ∀ ret ∈ s.returns, ret.ok = true
  sound : s.reader.error = false
  depth : s.reader.inFlight ≤ s.reader.readAhead

section Step

variable {content : Bytes} {s : State}

/-! ### What is in flight -/

theorem Reader.planLoop_length (r : Reader) (slots off : ℕ) : (r.planLoop slots off).1.length ≤ slots := by
  induction slots generalizing off with
  | zero => exact le_rfl
  | succ slots ih =>
    unfold Reader.planLoop
    split
    · have hrest := ih (off + min r.chunk (r.fileSize - off))
      rw [List.length_cons]
      omega
    · exact Nat.zero_le _

/-- A refill fills the window up to the read-ahead at most. -/
theorem Reader.depth_refill {r : Reader} (h : r.inFlight ≤ r.readAhead) {took : ℕ} (htook : took ≤ r.plan.1.length) :
    (r.refill took).inFlight ≤ (r.refill took).readAhead ∧ (r.refill took).readAhead = r.readAhead ∧
      (r.refill took).reordered = r.reordered := by
  have hplan : r.plan.1.length ≤ r.readAhead - r.inFlight := r.planLoop_length _ _
  unfold Reader.refill
  split
  · exact ⟨h, rfl, rfl⟩
  · refine ⟨?_, rfl, rfl⟩
    show r.inFlight + took ≤ r.readAhead
    omega

/-! ### One step -/

/-- The chunk that waits at the next offset holds the bytes that come next, all that were asked for. -/
theorem Served.waiting (h : Served content s) (hlive : Live s) (hsize : s.reader.fileSize = content.length)
    {c : IoCompletion} (hc : s.reader.waiting = some c) :
    c.status = .ok ∧ c.data = (content.drop s.reader.nextYieldOffset).take c.requested ∧
      c.data.length = c.requested ∧ 0 < c.requested := by
  obtain ⟨hpos, hrest⟩ := hlive.waiting hc
  obtain ⟨kc, hfind, rfl⟩ := Option.map_eq_some_iff.1 hc
  have hmem : kc ∈ s.reader.reordered := List.mem_of_find?_eq_some hfind
  have hkey : kc.2.offset = s.reader.nextYieldOffset := by
    rw [← hlive.keys kc hmem]
    exact beq_iff_eq.1 (List.find?_some (p := fun kc : ℕ × IoCompletion => kc.1 == s.reader.nextYieldOffset) hfind)
  obtain ⟨hok, hdata⟩ := h.chunks kc hmem
  rw [hkey] at hdata
  refine ⟨hok, hdata, ?_, hpos⟩
  -- the chunk ends within the file
  have hend := hrest.le
  have hsub := hlive.submitted
  rw [hdata, List.length_take, List.length_drop]
  omega

theorem Served.full (h : Served content s) (hlive : Live s) (hsize : s.reader.fileSize = content.length)
    (e : Event) : Full s e := by
  cases e with
  | call took => trivial
  | reap done => trivial
  | yield took =>
    intro c hc
    obtain ⟨hok, -, hlen, -⟩ := h.waiting hlive hsize hc
    exact Or.inr (Or.inr ⟨hok, hlen⟩)

/-- A chunk that is taken continues what was handed back. -/
theorem Served.yield (h : Served content s) (hlive : Live s) (hsize : s.reader.fileSize = content.length)
    {c : IoCompletion} (hc : s.reader.waiting = some c) {took : ℕ} (htook : took ≤ s.reader.plan.1.length) :
    Served content (s.yield c took) ∧ (s.yield c took).inNext = false ∧
      s.reader.nextYieldOffset < (s.yield c took).reader.nextYieldOffset := by
  obtain ⟨hok, hdata, hlen, hpos⟩ := h.waiting hlive hsize hc
  have hgood : ¬ (c.status = .error ∨ c.status = .eof) := by
    rw [hok]
    rintro (hst | hst)
    · nomatch hst
    · nomatch hst
  unfold State.yield
  rw [if_neg hgood]
  generalize hr : ({ s.reader.takeWaiting with
    nextYieldOffset := s.reader.nextYieldOffset + c.data.length } : Reader) = r
  have hplan : r.plan = s.reader.plan := by
    rw [← hr]
    unfold Reader.plan
    exact Reader.planLoop_congr s.reader
      { s.reader.takeWaiting with nextYieldOffset := s.reader.nextYieldOffset + c.data.length } rfl rfl rfl _ _
  have hdepth : r.inFlight ≤ r.readAhead := by
    rw [← hr]
    exact h.depth
  have hyield : r.nextYieldOffset = s.reader.nextYieldOffset + c.requested := by
    rw [← hr, ← hlen]
  have hsound : r.error = false := by
    rw [← hr]
    exact h.sound
  have hchunks : ∀ kc ∈ r.reordered, kc ∈ s.reader.reordered := by
    rw [← hr]
    exact fun kc hkc => List.mem_of_mem_eraseP hkc
  obtain ⟨hfilled, -, hkept⟩ := Reader.depth_refill hdepth (hplan ▸ htook)
  obtain ⟨-, -, hstay, herror⟩ := r.refill_keeps took
  refine ⟨⟨?_, ?_, ?_, herror.trans hsound, hfilled⟩, rfl, ?_⟩
  · intro kc hkc
    have hkc' : kc ∈ (r.refill took).reordered := hkc
    rw [hkept] at hkc'
    exact h.chunks kc (hchunks kc hkc')
  · show ((s.returns ++ [_]).map Return.out).flatten = content.take (r.refill took).nextYieldOffset
    have hbytes : (s.returns.map Return.out).flatten = content.take s.reader.nextYieldOffset := h.bytes
    rw [hstay, hyield, List.map_append, List.flatten_append, hbytes, List.map_singleton, List.flatten_singleton, hdata,
      List.take_add]
  · intro ret hret
    rcases List.mem_append.1 hret with hold | hnew
    · exact h.good ret hold
    · rw [List.mem_singleton.1 hnew]
  · show s.reader.nextYieldOffset < (r.refill took).nextYieldOffset
    rw [hstay, hyield]
    omega

/-- What is delivered holds the bytes of the file. -/
theorem Served.deliver (h : Served content s) {d : IoRequest × IoResult} (hok : d.2.status = .ok)
    (hdata : d.2.data = (content.drop d.1.offset).take d.1.length) : Served content (s.deliver d) := by
  refine ⟨?_, h.bytes, h.good, h.sound, ?_⟩
  · intro kc hkc
    have hsplit : kc ∈ s.reader.reordered ∨ kc = (d.1.offset, d.1.completion d.2) := by
      have hmem : kc ∈ (if (s.reader.reordered.any fun kc => kc.1 == d.1.offset) = true then s.reader.reordered
          else s.reader.reordered ++ [(d.1.offset, d.1.completion d.2)]) := hkc
      split at hmem
      · exact Or.inl hmem
      · exact (List.mem_append.1 hmem).imp_right List.mem_singleton.1
    rcases hsplit with hold | hnew
    · exact h.chunks kc hold
    · rw [hnew]
      exact ⟨hok, hdata⟩
  · have hdepth := h.depth
    show (if 0 < s.reader.inFlight then s.reader.inFlight - 1 else s.reader.inFlight) ≤ s.reader.readAhead
    split <;> omega

theorem Served.deliverAll {done : List (IoRequest × IoResult)} (h : Served content s)
    (hdone : ∀ d ∈ done, d.2.status = .ok ∧ d.2.data = (content.drop d.1.offset).take d.1.length) :
    Served content (done.foldl State.deliver s) := by
  induction done generalizing s with
  | nil => exact h
  | cons d done ih =>
    obtain ⟨hok, hdata⟩ := hdone d (List.mem_cons_self ..)
    exact ih (h.deliver hok hdata) fun d' hd' => hdone d' (List.mem_cons_of_mem d hd')

/-- A return of 0 bytes without an error. -/
theorem Served.leave (h : Served content s) : Served content (s.leave ⟨0, true, []⟩) := by
  refine ⟨h.chunks, ?_, ?_, h.sound, h.depth⟩
  · show ((s.returns ++ [_]).map Return.out).flatten = _
    have hbytes : (s.returns.map Return.out).flatten = content.take s.reader.nextYieldOffset := h.bytes
    rw [List.map_append, List.flatten_append, hbytes, List.map_singleton, List.flatten_singleton, List.append_nil]
    rfl
  · intro ret hret
    rcases List.mem_append.1 hret with hold | hnew
    · exact h.good ret hold
    · rw [List.mem_singleton.1 hnew]

theorem Served.call (h : Served content s) {took : ℕ} (htook : took ≤ s.reader.plan.1.length) :
    Served content (s.call took) := by
  unfold State.call
  rw [if_neg (by rw [h.sound]; exact Bool.false_ne_true)]
  split
  · exact h.leave
  · obtain ⟨hfilled, -, hkept⟩ := Reader.depth_refill h.depth htook
    obtain ⟨-, -, hstay, herror⟩ := s.reader.refill_keeps took
    refine ⟨fun kc hkc => ?_, ?_, h.good, herror.trans h.sound, hfilled⟩
    · have hkc' : kc ∈ (s.reader.refill took).reordered := hkc
      rw [hkept] at hkc'
      exact h.chunks kc hkc'
    · show s.bytes = content.take (s.reader.refill took).nextYieldOffset
      rw [hstay]
      exact h.bytes

/-- **One step.** -/
theorem Served.exec {cfg : Config} {e : Event} (h : Served content s) (hlive : Live s)
    (hsize : s.reader.fileSize = content.length) (hcan : (machine cfg).can s e) (hserves : Serves content s e) :
    Served content ((machine cfg).next s e) := by
  cases e with
  | call took => exact h.call hcan.2
  | yield took =>
    obtain ⟨c, hc⟩ := Option.isSome_iff_exists.1 hcan.2.1
    show Served content (Event.exec s (.yield took))
    rw [exec_yield hc]
    exact (h.yield hlive hsize hc hcan.2.2).1
  | reap done =>
    have hall := h.deliverAll hserves
    show Served content (s.reap done)
    unfold State.reap
    dsimp only
    split
    · exact hall.leave
    · exact hall

end Step

theorem Served.init {content : Bytes} (cfg : Config) : Served content (machine cfg).init := by
  refine ⟨nofun, ?_, nofun, rfl, Nat.zero_le _⟩
  show [] = content.take 0
  rw [List.take_zero]

/-- What holds in every run whose reads complete in full. -/
theorem reach_served {content : Bytes} {cfg : Config} (hsize : cfg.fileSize = content.length) {s : State}
    (h : (machine cfg).Reach (Serves content) s) : Inv cfg.fileSize s ∧ Served content s := by
  refine h.invariant (I := fun s => Inv cfg.fileSize s ∧ Served content s) ⟨Inv.init cfg, Served.init cfg⟩ ?_
  rintro s e ⟨hinv, hserved⟩ hcan hserves
  have hlive := hinv.live hserved.sound
  have hlen : s.reader.fileSize = content.length := hinv.size.trans hsize
  exact ⟨hinv.exec hcan (hserved.full hlive hlen e), hserved.exec hlive hlen hcan hserves⟩

/-! ### The callers -/

section Callers

/-- The bytes of some returns. -/
def outs (returns : List Return) : Bytes := (returns.map Return.out).flatten

theorem outs_append (a b : List Return) : outs (a ++ b) = outs a ++ outs b := by
  unfold outs
  rw [List.map_append, List.flatten_append]

theorem outs_cons (ret : Return) (rest : List Return) : outs (ret :: rest) = ret.out ++ outs rest := rfl

/-- With room left, the whole carried chunk has gone. -/
theorem take_chunkBuf {maxLen : ℕ} {written chunkBuf : Bytes}
    (hroom : ¬ (written ++ chunkBuf.take (min chunkBuf.length (maxLen - written.length))).length ≥ maxLen) :
    chunkBuf.take (min chunkBuf.length (maxLen - written.length)) = chunkBuf := by
  apply List.take_of_length_le
  rw [List.length_append, List.length_take] at hroom
  omega

/-- A pull moves bytes from the carried chunk and the returns, in order, and not more than it has room for. -/
theorem source_bytes {maxLen : ℕ} {returns rest : List Return} {written chunkBuf got buf : Bytes} {err : Bool}
    (h : source maxLen returns written chunkBuf = some (got, buf, err, rest)) :
    ∃ used, returns = used ++ rest ∧ got ++ buf = written ++ chunkBuf ++ outs used ∧
      (written.length ≤ maxLen → got.length ≤ maxLen) ∧ ((∀ ret ∈ returns, ret.ok = true) → err = false) := by
  fun_induction source maxLen returns written chunkBuf with
  | case1 returns written chunkBuf take hfull =>
    cases h
    refine ⟨[], rfl, ?_, fun hroom => ?_, fun _ => rfl⟩
    · rw [List.append_assoc, List.take_append_drop]
      exact (List.append_nil _).symm
    · have htake : take ≤ maxLen - written.length := Nat.min_le_right ..
      rw [List.length_append, List.length_take]
      omega
  | case2 written chunkBuf take hroom => cases h
  | case3 written chunkBuf take hroom ret rest' hok =>
    cases h
    have htake : chunkBuf.take take = chunkBuf := take_chunkBuf hroom
    rw [htake] at hroom ⊢
    refine ⟨[ret], rfl, ?_, fun _ => by omega, fun hall => ?_⟩
    · rw [outs_cons]
      simp [outs]
    · rw [hall ret (List.mem_cons_self ..)] at hok
      cases hok
  | case4 written chunkBuf take hroom ret rest' hok hn =>
    cases h
    have htake : chunkBuf.take take = chunkBuf := take_chunkBuf hroom
    rw [htake] at hroom ⊢
    refine ⟨[ret], rfl, ?_, fun _ => by omega, fun _ => rfl⟩
    rw [outs_cons]
    simp [outs]
  | case5 written chunkBuf take hroom ret rest' hok hn ih =>
    have htake : chunkBuf.take take = chunkBuf := take_chunkBuf hroom
    rw [htake] at hroom h ih
    obtain ⟨used, hused, hbytes, hle, herr⟩ := ih h
    refine ⟨ret :: used, by rw [hused, List.cons_append], ?_, fun _ => hle (by omega), fun hall => ?_⟩
    · rw [hbytes, outs_cons]
      simp only [List.append_assoc]
    · exact herr fun r hr => hall r (List.mem_cons_of_mem ret hr)

/-- `pull` is the source of the hash without its flag. -/
theorem pull_eq_source (maxLen : ℕ) (returns : List Return) (written carry : Bytes) :
    pull maxLen returns written carry = (source maxLen returns written carry).map fun r => (r.1, r.2.1, r.2.2.2) := by
  fun_induction source maxLen returns written carry with
  | case1 returns written carry take hfull =>
    unfold pull
    rw [if_pos hfull]
    rfl
  | case2 written carry take hroom =>
    unfold pull
    rw [if_neg hroom]
    rfl
  | case3 written carry take hroom ret rest hok =>
    unfold pull
    rw [if_neg hroom]
    dsimp only
    rw [if_pos (by rw [hok, Bool.true_or])]
    rfl
  | case4 written carry take hroom ret rest hok hn =>
    unfold pull
    rw [if_neg hroom]
    dsimp only
    rw [if_pos (by rw [decide_eq_true hn, Bool.or_true])]
    rfl
  | case5 written carry take hroom ret rest hok hn ih =>
    unfold pull
    rw [if_neg hroom]
    dsimp only
    rw [if_neg (by rw [decide_eq_false hn, Bool.or_false]; exact hok)]
    exact ih

variable {content : Bytes} {all : List Return}

/-- The first bytes of a file, cut at a length. -/
theorem eq_take_of_prefix {bytes : Bytes} {total : ℕ} (hpre : bytes <+: content)
    (hlen : bytes.length = min total content.length) : bytes = content.take total := by
  rw [List.take_eq_take_min, ← hlen]
  exact List.prefix_iff_eq_take.1 hpre

/-- One pull: what it returns continues what was pulled, up to the size asked for or the end of the file. -/
theorem pull_spec {used returns rest : List Return} {maxLen total : ℕ} {fed carry got buf : Bytes}
    (heof : EofAtEnd content.length all) (houts : ∀ ret ∈ all, ret.n = ret.out.length)
    (hgood : ∀ ret ∈ all, ret.ok = true) (hpre : outs all <+: content) (hall : all = used ++ returns)
    (hfed : fed ++ carry = outs used) (hlen : fed.length = min total content.length)
    (h : pull maxLen returns [] carry = some (got, buf, rest)) :
    ∃ used', all = used' ++ rest ∧ fed ++ got ++ buf = outs used' ∧
      (fed ++ got).length = min (total + maxLen) content.length := by
  rw [pull_eq_source] at h
  obtain ⟨⟨x, y, err, z⟩, hsource, hpair⟩ := Option.map_eq_some_iff.1 h
  obtain ⟨rfl, rfl, rfl⟩ : got = x ∧ buf = y ∧ rest = z := by
    cases hpair
    exact ⟨rfl, rfl, rfl⟩
  have hsub : ∀ ret ∈ returns, ret ∈ all := fun ret hret => hall ▸ List.mem_append_right used hret
  obtain ⟨used₁, hused, hbytes, hroom, herr⟩ := source_bytes hsource
  obtain ⟨used₂, hused', -, hstop⟩ := source_spec hsource fun r hr => houts r (hsub r hr)
  have hsame : used₂ = used₁ := List.append_cancel_right (hused'.symm.trans hused)
  subst hsame
  have hgot : got.length ≤ maxLen := hroom (Nat.zero_le _)
  have hall' : all = (used ++ used₂) ++ rest := by rw [hall, hused, List.append_assoc]
  have hfed' : fed ++ got ++ buf = outs (used ++ used₂) := by
    rw [outs_append, ← hfed, List.append_assoc, hbytes, List.nil_append, List.append_assoc]
  refine ⟨used ++ used₂, hall', hfed', ?_⟩
  have hwhole : (fed ++ got ++ buf).length ≤ content.length := by
    rw [hfed']
    have hle := hpre.length_le
    rw [hall', outs_append, List.length_append] at hle
    omega
  simp only [List.length_append] at hwhole ⊢
  by_cases hshort : got.length < maxLen
  · -- a short pull has come to the end of the file, and carries nothing
    obtain ⟨pre, last, hpre', hok, hn, rfl⟩ := hstop hshort (herr fun r hr => hgood r (hsub r hr))
    have hsum : ((used ++ pre).map Return.n).sum = content.length := by
      refine heof (used ++ pre) last rest ?_ hok hn
      rw [hall', hpre', List.append_assoc, List.append_assoc, List.append_assoc, List.singleton_append]
    have hmap : ((used ++ pre).map Return.n).sum = (outs (used ++ pre)).length := by
      unfold outs
      rw [List.length_flatten, List.map_map]
      refine congrArg List.sum (List.map_congr_left fun ret hret => houts ret ?_)
      rw [hall', hpre', ← List.append_assoc]
      exact List.mem_append_left _ (List.mem_append_left _ hret)
    have hlast : (outs (used ++ used₂)).length = (outs (used ++ pre)).length := by
      have hzero : last.out.length = 0 := by
        rw [← houts last (by rw [hall', hpre']; simp)]
        exact hn
      rw [hpre', ← List.append_assoc, outs_append, List.length_append, outs_cons, List.length_append, hzero]
      rfl
    have htotal := congrArg List.length hfed'
    simp only [List.length_append, List.length_nil] at htotal
    omega
  · omega

/-- **Calls of `pull` of any sizes** serve the file from its beginning. -/
theorem pulls_spec {used returns rest : List Return} {sizes : List ℕ} {total : ℕ} {fed carry buf : Bytes}
    {bufs : List Bytes} (heof : EofAtEnd content.length all) (houts : ∀ ret ∈ all, ret.n = ret.out.length)
    (hgood : ∀ ret ∈ all, ret.ok = true) (hpre : outs all <+: content) (hall : all = used ++ returns)
    (hfed : fed ++ carry = outs used) (hlen : fed.length = min total content.length)
    (h : pulls sizes returns carry = some (bufs, buf, rest)) :
    fed ++ bufs.flatten = content.take (total + sizes.sum) := by
  induction sizes generalizing used returns total fed carry bufs with
  | nil =>
    have hnone : bufs = [] := by
      cases h
      rfl
    subst hnone
    have hused : fed <+: content := by
      have hsplit : outs all = fed ++ (carry ++ outs returns) := by
        rw [hall, outs_append, ← hfed, List.append_assoc]
      exact (hsplit ▸ List.prefix_append fed _).trans hpre
    rw [List.flatten_nil, List.append_nil, List.sum_nil, Nat.add_zero]
    exact eq_take_of_prefix hused hlen
  | cons maxLen sizes ih =>
    unfold pulls at h
    simp only [Option.bind_eq_bind, Option.pure_def] at h
    obtain ⟨⟨got, mid, rest'⟩, hpull, hlater⟩ := Option.bind_eq_some_iff.1 h
    obtain ⟨⟨later, tail⟩, hpulls, heq⟩ := Option.bind_eq_some_iff.1 hlater
    have hbufs : bufs = got :: later := by
      cases heq
      rfl
    have hsame : (later, tail) = (later, buf, rest) := by
      cases heq
      rfl
    rw [hsame] at hpulls
    subst hbufs
    obtain ⟨used', hall', hfed', hlen'⟩ := pull_spec heof houts hgood hpre hall hfed hlen hpull
    have hrest := ih hall' hfed' hlen' hpulls
    rw [List.flatten_cons, ← List.append_assoc, hrest, List.sum_cons, Nat.add_assoc]

end Callers

/-! ### Every moment -/

/-- The read-ahead stays what it was made. -/
theorem readAhead_exec (s : State) (e : Event) : (e.exec s).reader.readAhead = s.reader.readAhead := by
  have hrefill : ∀ (r : Reader) (took : ℕ), (r.refill took).readAhead = r.readAhead := by
    intro r took
    unfold Reader.refill
    split <;> rfl
  have hdeliver : ∀ (done : List (IoRequest × IoResult)) (t : State),
      (done.foldl State.deliver t).reader.readAhead = t.reader.readAhead := by
    intro done
    induction done with
    | nil => exact fun t => rfl
    | cons d done ih => exact fun t => ih (t.deliver d)
  cases e with
  | call took =>
    show (s.call took).reader.readAhead = _
    unfold State.call
    split
    · rfl
    · split
      · rfl
      · exact hrefill _ took
  | yield took =>
    unfold Event.exec
    dsimp only
    cases s.reader.waiting with
    | none => rfl
    | some c =>
      dsimp only
      unfold State.yield
      split
      · rfl
      · exact hrefill _ took
  | reap done =>
    show (s.reap done).reader.readAhead = _
    unfold State.reap
    dsimp only
    split <;> exact hdeliver done s

theorem reach_readAhead {cfg : Config} {ok : State → Event → Prop} {s : State} (h : (machine cfg).Reach ok s) :
    s.reader.readAhead = if cfg.readAhead = 0 then 1 else cfg.readAhead :=
  h.invariant (I := fun s => s.reader.readAhead = if cfg.readAhead = 0 then 1 else cfg.readAhead) rfl
    fun s e hs _ _ => (readAhead_exec s e).trans hs

/-- What was handed back is a beginning of the file, no more reads are in flight than the read-ahead (0 counts
as 1), a return of 0 bytes comes after the whole file, and calls of `pull` have served the file up to the sum
of their sizes. -/
structure InOrder (content : Bytes) (cfg : Config) (s : State) : Prop where
  begins : s.bytes <+: content
  depth : s.outstanding.length ≤ if cfg.readAhead = 0 then 1 else cfg.readAhead
  good : ∀ ret ∈ s.returns, ret.ok = true
  eof : ∀ ret ∈ s.returns, ret.n = 0 → s.bytes = content
  pulled : ∀ sizes bufs carry rest, pulls sizes s.returns [] = some (bufs, carry, rest) →
    bufs.flatten = content.take sizes.sum

theorem reach_inOrder {content : Bytes} {cfg : Config} (hsize : cfg.fileSize = content.length) {s : State}
    (h : (machine cfg).Reach (Serves content) s) : InOrder content cfg s := by
  obtain ⟨hinv, hserved⟩ := reach_served hsize h
  have hpre : s.bytes <+: content := by
    rw [hserved.bytes]
    exact List.take_prefix _ _
  have heof := hinv.eof
  rw [hsize] at heof
  refine ⟨hpre, ?_, hserved.good, fun ret hret hn => ?_, fun sizes bufs carry rest hpulls => ?_⟩
  · have hdepth := hserved.depth
    rw [(hinv.live hserved.sound).inFlight, reach_readAhead h] at hdepth
    exact hdepth
  · obtain ⟨pre, post, hsplit⟩ := List.append_of_mem hret
    have hsum := heof pre ret post hsplit (hserved.good ret hret) hn
    have hyield : content.length ≤ s.reader.nextYieldOffset := by
      rw [← hinv.yielded, hsplit, List.map_append, List.sum_append, hsum]
      omega
    rw [hserved.bytes, List.take_of_length_le hyield]
  · have hnone : ([] : Bytes) ++ [] = outs [] := rfl
    have hfed : ([] : Bytes).length = min 0 content.length := (Nat.zero_min _).symm
    have hall := pulls_spec heof hinv.outs hserved.good hpre rfl hnone hfed hpulls
    rwa [List.nil_append, Nat.zero_add] at hall

/-! ### In the end -/

/-- The caller goes on calling `next` until it returns 0 bytes. -/
def Called (st : ℕ → State) (ev : ℕ → Option Event) : Prop :=
  ∀ k, (st k).inNext = false → (∀ ret ∈ (st k).returns, ret.n ≠ 0) → ∃ m, k ≤ m ∧ ev m ≠ none

section Whole

variable {content : Bytes} {cfg : Config} {s : State} {e : Event}

/-- A call that returns has handed a chunk back. -/
theorem yields_on_return (hinv : Inv cfg.fileSize s) (hserved : Served content s)
    (hsize : cfg.fileSize = content.length) (hcan : (machine cfg).can s e) (hin : s.inNext = true)
    (hout : ((machine cfg).next s e).inNext = false) :
    s.reader.nextYieldOffset < ((machine cfg).next s e).reader.nextYieldOffset := by
  have hlive := hinv.live hserved.sound
  cases e with
  | call took =>
    have hidle := hcan.1
    rw [hin] at hidle
    cases hidle
  | yield took =>
    obtain ⟨c, hc⟩ := Option.isSome_iff_exists.1 hcan.2.1
    show _ < (Event.exec s (.yield took)).reader.nextYieldOffset
    rw [exec_yield hc]
    exact (hserved.yield hlive (hinv.size.trans hsize) hc hcan.2.2).2.2
  | reap done =>
    -- the guard at the end of the loop never holds
    exfalso
    have hguard : ¬ (done = [] ∧ (done.foldl State.deliver s).reader.inFlight = 0 ∧
        (done.foldl State.deliver s).reader.nextSubmitOffset ≥ (done.foldl State.deliver s).reader.fileSize) := by
      rintro ⟨rfl, hflight, hall⟩
      have hlt := (hinv.waits hin).2
      have hidle : s.reader.inFlight = 0 := hflight
      have hfull : s.reader.nextSubmitOffset ≥ s.reader.fileSize := hall
      have hsame := hlive.idle hidle hcan.2.1
      omega
    have hkeeps : ((machine cfg).next s (.reap done)).inNext = true := by
      show (s.reap done).inNext = true
      unfold State.reap
      dsimp only
      rw [if_neg hguard, (deliver_foldl done s).2.1]
      exact hin
    rw [hkeeps] at hout
    cases hout

/-- The next offset never goes back. -/
theorem yieldOffset_le (hinv : Inv cfg.fileSize s) (hserved : Served content s) (hsize : cfg.fileSize = content.length)
    (hcan : (machine cfg).can s e) :
    s.reader.nextYieldOffset ≤ ((machine cfg).next s e).reader.nextYieldOffset := by
  cases e with
  | call took =>
    show _ ≤ (s.call took).reader.nextYieldOffset
    unfold State.call
    split
    · exact le_rfl
    · split
      · exact le_rfl
      · exact Nat.le_of_eq (s.reader.refill_keeps took).2.2.1.symm
  | yield took =>
    obtain ⟨c, hc⟩ := Option.isSome_iff_exists.1 hcan.2.1
    show _ ≤ (Event.exec s (.yield took)).reader.nextYieldOffset
    rw [exec_yield hc]
    exact (hserved.yield (hinv.live hserved.sound) (hinv.size.trans hsize) hc hcan.2.2).2.2.le
  | reap done =>
    have hkeeps := (deliver_foldl done s).2.2.1
    show _ ≤ (s.reap done).reader.nextYieldOffset
    unfold State.reap
    dsimp only
    split
    · exact Nat.le_of_eq hkeeps.symm
    · exact Nat.le_of_eq hkeeps.symm

/-- A call below the end of the file goes into the loop. -/
theorem call_below {took : ℕ} (hsound : s.reader.error = false) (hlt : s.reader.nextYieldOffset < s.reader.fileSize) :
    (s.call took).inNext = true ∧ (s.call took).reader.nextYieldOffset = s.reader.nextYieldOffset := by
  unfold State.call
  rw [if_neg (by rw [hsound]; exact Bool.false_ne_true), if_neg (not_le.2 hlt)]
  exact ⟨rfl, (s.reader.refill_keeps took).2.2.1⟩

variable {st : ℕ → State} {ev : ℕ → Option Event}

/-- What is missing, and whether the next call is still to come. -/
def missing (content : Bytes) (s : State) : ℕ :=
  2 * (content.length - s.reader.nextYieldOffset) + if s.inNext = true then 0 else 1

/-- Before the whole file has come, an idle caller calls again. -/
theorem missing_call (hsize : cfg.fileSize = content.length) (hserves : (machine cfg).Schedule (Serves content) st ev)
    (hcalls : Called st ev) {k : ℕ} (hlt : (st k).reader.nextYieldOffset < content.length)
    (hmore : ∀ ret ∈ (st k).returns, ret.n ≠ 0) (hin : (st k).inNext = false) :
    ∃ m, k ≤ m ∧ missing content (st m) < missing content (st k) := by
  obtain ⟨hinv, hserved⟩ := reach_served hsize (hserves.reach k)
  obtain ⟨m, e, hkm, he, hst⟩ := hserves.next_event (hcalls k hin hmore)
  obtain ⟨hc, -, hnext⟩ := hserves.step m e he
  rw [hst] at hc hnext
  cases e with
  | yield took =>
    have hbusy := hc.1
    rw [hin] at hbusy
    nomatch hbusy
  | reap done =>
    have hbusy := hc.1
    rw [hin] at hbusy
    nomatch hbusy
  | call took =>
    have hbelow : (st k).reader.nextYieldOffset < (st k).reader.fileSize := by
      rw [hinv.size, hsize]
      exact hlt
    obtain ⟨hcalled, hsame⟩ : ((st k).call took).inNext = true ∧
        ((st k).call took).reader.nextYieldOffset = (st k).reader.nextYieldOffset := call_below hserved.sound hbelow
    have hnext' : st (m + 1) = (st k).call took := hnext
    refine ⟨m + 1, by omega, ?_⟩
    unfold missing
    rw [hnext', hcalled, hsame, hin, if_pos rfl, if_neg Bool.false_ne_true]
    omega

/-- A call returns, and with some bytes. -/
theorem missing_return (hsize : cfg.fileSize = content.length)
    (h : (machine cfg).Schedule (fun s e => Serves content s e ∧ Fed s e) st ev) (hans : Answered st ev) {k : ℕ}
    (hlt : (st k).reader.nextYieldOffset < content.length) (hin : (st k).inNext = true) :
    ∃ m, k ≤ m ∧ missing content (st m) < missing content (st k) := by
  have hserves : (machine cfg).Schedule (Serves content) st ev := h.mono fun _ _ hok => hok.1
  have hfed : (machine cfg).Schedule Fed st ev := h.mono fun _ _ hok => hok.2
  -- the first moment at which the call has returned
  have hreturns : ∃ m, k ≤ m ∧ (st m).inNext = false := next_returns hfed hans k
  classical
  obtain ⟨hkm, hout⟩ := Nat.find_spec hreturns
  have hbefore := fun j => Nat.find_min hreturns (m := j)
  generalize Nat.find hreturns = m at hkm hout hbefore
  have hne : m ≠ k := by
    rintro rfl
    rw [hin] at hout
    nomatch hout
  obtain ⟨j, rfl⟩ : ∃ j, m = j + 1 := ⟨m - 1, by omega⟩
  have hjin : (st j).inNext = true := by
    cases hj : (st j).inNext with
    | true => rfl
    | false => exact absurd ⟨by omega, hj⟩ (hbefore j (by omega))
  have hmono : (st k).reader.nextYieldOffset ≤ (st j).reader.nextYieldOffset :=
    hserves.keeps (R := fun a b => a.reader.nextYieldOffset ≤ b.reader.nextYieldOffset) (fun _ => le_rfl)
      (fun _ _ _ => le_trans)
      (fun s e hr hc _ => yieldOffset_le (reach_served hsize hr).1 (reach_served hsize hr).2 hsize hc) (by omega)
  cases he : ev j with
  | none =>
    rw [hserves.pause j he, hjin] at hout
    nomatch hout
  | some e =>
    obtain ⟨hinv, hserved⟩ := reach_served hsize (hserves.reach j)
    obtain ⟨hc, -, hnext⟩ := hserves.step j e he
    have hstep := yields_on_return hinv hserved hsize hc hjin (hnext ▸ hout)
    rw [← hnext] at hstep
    refine ⟨j + 1, hkm, ?_⟩
    unfold missing
    rw [hout, hin, if_pos rfl, if_neg Bool.false_ne_true]
    omega

/-- Along a schedule with reads accepted and delivered and calls made, the whole file comes. -/
theorem reader_whole (hsize : cfg.fileSize = content.length)
    (h : (machine cfg).Schedule (fun s e => Serves content s e ∧ Fed s e) st ev) (hans : Answered st ev)
    (hcalls : Called st ev) : ∃ m, (st m).bytes = content := by
  have hserves : (machine cfg).Schedule (Serves content) st ev := h.mono fun _ _ hok => hok.1
  have hrank : ∀ k, 0 ≤ k → ∃ m, k ≤ m ∧ ((st m).bytes = content ∨ missing content (st m) < missing content (st k)) := by
    intro k _
    by_cases hdone : (st k).bytes = content
    · exact ⟨k, le_rfl, Or.inl hdone⟩
    have hlt : (st k).reader.nextYieldOffset < content.length := by
      by_contra hge
      apply hdone
      rw [(reach_served hsize (hserves.reach k)).2.bytes]
      exact List.take_of_length_le (not_lt.1 hge)
    have hfalls : ∃ m, k ≤ m ∧ missing content (st m) < missing content (st k) := by
      cases hin : (st k).inNext with
      | true => exact missing_return hsize h hans hlt hin
      | false =>
        refine missing_call hsize hserves hcalls hlt (fun ret hret hn => ?_) hin
        exact hdone ((reach_inOrder hsize (hserves.reach k)).eof ret hret hn)
    obtain ⟨m, hkm, hless⟩ := hfalls
    exact ⟨m, hkm, Or.inr hless⟩
  obtain ⟨m, -, hm⟩ := eventually_of_rank hrank
  exact ⟨m, hm⟩

end Whole

/-- **The file in order.** For every content, chunk size and read-ahead: in every run whose reads complete in
full, whatever the driver accepts and in whatever order it delivers, what was handed back is a beginning of
the file, within the read-ahead, and the calls of `pull` have served the same; and along every schedule in
which moreover each call with nothing in flight and nothing at hand gets a read accepted, accepted reads are
delivered and the caller goes on, it is the whole file at some time. -/
theorem reader_in_order {content : Bytes} {cfg : Config} (hsize : cfg.fileSize = content.length) :
    (∀ s, (machine cfg).Reach (Serves content) s → InOrder content cfg s) ∧
    ∀ st ev, (machine cfg).Schedule (fun s e => Serves content s e ∧ Fed s e) st ev → Answered st ev →
      Called st ev → ∃ m, (st m).bytes = content :=
  ⟨fun _ h => reach_inOrder hsize h, fun _ _ h hans hcalls => reader_whole hsize h hans hcalls⟩

/-- Two chunks that arrive in the wrong order. -/
theorem reader_in_order_two :
    InOrder [1, 2, 3, 4] twoChunks ((machine twoChunks).run (machine twoChunks).init readInFull) := by
  have hsize : twoChunks.fileSize = [1, 2, 3, 4].length := rfl
  have hreach : (machine twoChunks).Reach (Serves [1, 2, 3, 4]) ((machine twoChunks).run (machine twoChunks).init readInFull) :=
    Machine.reach_run (by decide)
  exact (reader_in_order hsize).1 _ hreach

/-- The whole file never comes where the first call finds the queue full. -/
theorem reader_stops_short : ∃ s, (machine twoChunks).Reach (Serves [1, 2, 3, 4]) s ∧ s.inNext = true ∧
    ∀ es, (machine twoChunks).Allows (Serves [1, 2, 3, 4]) s es →
      ((machine twoChunks).run s es).bytes ≠ [1, 2, 3, 4] := by
  refine ⟨(machine twoChunks).run (machine twoChunks).init queueFull, Machine.reach_run (by decide), rfl, ?_⟩
  intro es hes
  rw [queueFull_stays hes]
  decide

end FastClone.SequentialReader
