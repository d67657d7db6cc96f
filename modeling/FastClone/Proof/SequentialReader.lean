import FastClone.Lib.Spans
import FastClone.Spec.SequentialReader

/-!
# The end of file of the sequential reader

The reads that are accepted or reaped and not handed back fill the offsets from the next one to hand back
up to the next one to submit (`Live`). A chunk that is handed back in full moves the lower end, and the
window cannot run empty before the end of the file.

* `reader_eof`: **as long as every chunk that is taken is an error, an end of file or read in full, a
  return of 0 bytes without an error comes after exactly the bytes of the file**, and no caller hashes less.
* `reader_eof_cancelled`: a cancelled read is handed back as the end of the file.
-/

namespace FastClone.SequentialReader

open FastClone.DiskIo Runs Spans

/-! ### Statement -/

/-- A return of 0 bytes without an error comes after exactly the bytes of the file. -/
def EofAtEnd (fileSize : ℕ) (returns : List Return) : Prop :=
  ∀ pre ret post, returns = pre ++ ret :: post → ret.ok = true → ret.n = 0 → (pre.map Return.n).sum = fileSize

/-- The chunk that is taken is an error, an end of file, or was read in full. -/
def Full (s : State) : Event → Prop
  | .yield _ => ∀ c ∈ s.reader.waiting, c.status = .error ∨ c.status = .eof ∨ (c.status = .ok ∧ c.data.length = c.requested)
  | _ => True

instance (s : State) : DecidablePred (Full s)
  | .yield _ => inferInstanceAs (Decidable (∀ c ∈ s.reader.waiting, _))
  | .call _ | .reap _ => .isTrue trivial

/-! ### The callers -/

section Callers

variable {fileSize : ℕ}

theorem EofAtEnd.nil : EofAtEnd fileSize [] := by
  intro pre ret post h
  exact absurd h (by simp)

theorem EofAtEnd.append {returns : List Return} (h : EofAtEnd fileSize returns) {last : Return}
    (hlast : last.ok = true → last.n = 0 → (returns.map Return.n).sum = fileSize) :
    EofAtEnd fileSize (returns ++ [last]) := by
  intro pre ret post heq hok hn
  rcases List.eq_nil_or_concat post with rfl | ⟨post', last', rfl⟩
  · obtain ⟨rfl, hret⟩ := List.append_inj' heq rfl
    cases hret
    exact hlast hok hn
  · rw [List.concat_eq_append] at heq
    have hsplit : returns ++ [last] = (pre ++ ret :: post') ++ [last'] := by
      rw [heq, List.append_assoc, List.cons_append]
    exact h pre ret post' (List.append_inj' hsplit rfl).1 hok hn

/-- What a pull takes from the returns: if it is not filled, the last one was an error or the end. -/
theorem source_spec {maxLen : ℕ} {returns rest : List Return} {written chunkBuf got buf : Bytes} {err : Bool}
    (h : source maxLen returns written chunkBuf = some (got, buf, err, rest))
    (houts : ∀ ret ∈ returns, ret.n = ret.out.length) :
    ∃ used, returns = used ++ rest ∧
      got.length + buf.length = written.length + chunkBuf.length + (used.map Return.n).sum ∧
      (got.length < maxLen → err = false → ∃ pre last, used = pre ++ [last] ∧ last.ok = true ∧ last.n = 0 ∧ buf = []) := by
  fun_induction source maxLen returns written chunkBuf with
  | case1 returns written chunkBuf take hfull =>
    cases h
    have htake : take ≤ chunkBuf.length := Nat.min_le_left ..
    refine ⟨[], rfl, ?_, fun hlt => absurd hfull (by omega)⟩
    rw [List.length_append, List.length_take, List.length_drop, List.map_nil, List.sum_nil]
    omega
  | case2 written chunkBuf take hroom => cases h
  | case3 written chunkBuf take hroom ret rest' hok =>
    cases h
    have htake : take = chunkBuf.length := by
      rw [List.length_append, List.length_take] at hroom
      omega
    refine ⟨[ret], rfl, ?_, fun _ herr => by cases herr⟩
    rw [List.length_append, List.length_take, List.map_singleton, List.sum_singleton,
      houts ret (List.mem_cons_self ..)]
    omega
  | case4 written chunkBuf take hroom ret rest' hok hn =>
    cases h
    have htake : take = chunkBuf.length := by
      rw [List.length_append, List.length_take] at hroom
      omega
    refine ⟨[ret], rfl, ?_, fun _ _ => ⟨[], ret, rfl, by simpa using hok, hn,
      List.eq_nil_of_length_eq_zero ((houts ret (List.mem_cons_self ..)).symm.trans hn)⟩⟩
    rw [List.length_append, List.length_take, List.map_singleton, List.sum_singleton,
      houts ret (List.mem_cons_self ..)]
    omega
  | case5 written chunkBuf take hroom ret rest' hok hn ih =>
    have htake : take = chunkBuf.length := by
      rw [List.length_append, List.length_take] at hroom
      omega
    obtain ⟨used, hused, hlen, hstop⟩ := ih h (fun r hr => houts r (List.mem_cons_of_mem ret hr))
    refine ⟨ret :: used, by rw [hused, List.cons_append], ?_, fun hlt herr => ?_⟩
    · rw [hlen, List.length_append, List.length_take, List.map_cons, List.sum_cons,
        houts ret (List.mem_cons_self ..)]
      omega
    · obtain ⟨pre, last, hpre, hlast⟩ := hstop hlt herr
      exact ⟨ret :: pre, last, by rw [hpre, List.cons_append], hlast⟩

/-- **What is hashed without a read error is as long as the file**: `used` has been taken before. -/
theorem computeHashFromSource_length {all used returns : List Return} {chunkBuf fed bytes : Bytes} {readErr : Bool}
    (heof : EofAtEnd fileSize all) (houts : ∀ ret ∈ all, ret.n = ret.out.length) (hall : all = used ++ returns)
    (hfed : fed.length + chunkBuf.length = (used.map Return.n).sum)
    (h : computeHashFromSource returns chunkBuf fed readErr = some (bytes, false)) : bytes.length = fileSize := by
  fun_induction computeHashFromSource returns chunkBuf fed readErr generalizing used with
  | case1 returns chunkBuf fed readErr hsource => cases h
  | case2 returns chunkBuf fed readErr buf err rest hsource =>
    rw [Option.some.injEq, Prod.mk.injEq, Bool.or_eq_false_iff] at h
    obtain ⟨rfl, -, herr⟩ := h
    obtain ⟨used', hused, hlen, hstop⟩ := source_spec hsource
      (fun r hr => houts r (hall ▸ List.mem_append_right used hr))
    obtain ⟨pre, last, hpre, hok, hn, rfl⟩ := hstop (by decide) herr
    -- the last pull took chunks without a byte only
    have hsum : ((used ++ pre).map Return.n).sum = fileSize := by
      refine heof (used ++ pre) last rest ?_ hok hn
      rw [hall, hused, hpre, List.append_assoc, List.append_assoc, List.singleton_append]
    rw [hpre, List.map_append, List.sum_append] at hlen
    rw [List.map_append, List.sum_append] at hsum
    simp only [List.length_nil] at hlen
    omega
  | case3 returns chunkBuf fed readErr got buf err rest hsource hgot ih =>
    obtain ⟨used', hused, hlen, -⟩ := source_spec hsource
      (fun r hr => houts r (hall ▸ List.mem_append_right used hr))
    have hall' : all = (used ++ used') ++ rest := by rw [hall, hused, List.append_assoc]
    refine ih hall' ?_ h
    rw [List.length_append, List.map_append, List.sum_append]
    rw [List.length_nil] at hlen
    omega

theorem hashedBytes_length {returns : List Return} {bytes : Bytes} (heof : EofAtEnd fileSize returns)
    (houts : ∀ ret ∈ returns, ret.n = ret.out.length) (h : hashedBytes returns = some bytes) :
    bytes.length = fileSize := by
  unfold hashedBytes at h
  obtain ⟨⟨fed, err⟩, hloop, hres⟩ := Option.bind_eq_some_iff.1 h
  cases err with
  | true => cases hres
  | false =>
    cases hres
    exact computeHashFromSource_length heof houts (List.nil_append returns).symm rfl hloop

theorem signerBytes_length {all used returns : List Return} {bytes : Bytes} (heof : EofAtEnd fileSize all)
    (houts : ∀ ret ∈ all, ret.n = ret.out.length) (hall : all = used ++ returns)
    (h : signerBytes returns = some bytes) : (used.map Return.n).sum + bytes.length = fileSize := by
  induction returns generalizing used bytes with
  | nil => cases h
  | cons ret rest ih =>
    unfold signerBytes at h
    by_cases hok : ret.ok = true
    · rw [if_neg (by rw [hok]; decide)] at h
      by_cases hn : ret.n = 0
      · rw [if_pos hn] at h
        cases h
        exact heof used ret rest hall hok hn
      · rw [if_neg hn] at h
        obtain ⟨more, hmore, rfl⟩ := Option.map_eq_some_iff.1 h
        have hall' : all = (used ++ [ret]) ++ rest := by rw [hall, List.append_assoc, List.singleton_append]
        have hrest := ih hall' hmore
        have hout := houts ret (hall ▸ List.mem_append_right used (List.mem_cons_self ..))
        rw [List.map_append, List.sum_append, List.map_singleton, List.sum_singleton] at hrest
        rw [List.length_append]
        omega
    · rw [if_pos (by simpa using hok)] at h
      cases h

end Callers

/-! ### The window -/

section Window

variable {r : Reader} {s : State}

/-- The loop of `refill` plans the offsets from `off` on without a gap, within the file. -/
theorem Reader.planLoop_spec (hchunk : 0 < r.chunk) (slots off took : ℕ) (hoff : off ≤ r.fileSize)
    (htook : took ≤ (r.planLoop slots off).1.length) :
    let stop := ((r.planLoop slots off).1[took]?.map IoRequest.offset).getD (r.planLoop slots off).2
    Tiling off stop (((r.planLoop slots off).1.take took).map fun q => (q.offset, q.length)) ∧ stop ≤ r.fileSize := by
  induction slots generalizing off took with
  | zero =>
    have hnone : took = 0 := Nat.le_zero.1 htook
    subst hnone
    exact ⟨rfl, hoff⟩
  | succ slots ih =>
    unfold Reader.planLoop at htook ⊢
    by_cases hlt : off < r.fileSize
    · rw [if_pos hlt] at htook ⊢
      dsimp only at htook ⊢
      cases took with
      | zero => exact ⟨rfl, hoff⟩
      | succ took =>
        have hlen : 0 < min r.chunk (r.fileSize - off) := by omega
        obtain ⟨htile, hle⟩ := ih (off + min r.chunk (r.fileSize - off)) took (by omega)
          (by rw [List.length_cons] at htook; omega)
        rw [List.getElem?_cons_succ, List.take_succ_cons, List.map_cons]
        exact ⟨⟨rfl, hlen, htile⟩, hle⟩
    · rw [if_neg hlt] at htook ⊢
      have hnone : took = 0 := Nat.le_zero.1 htook
      subst hnone
      exact ⟨rfl, hoff⟩

/-- The accepted reads and the chunks that wait. -/
def State.window (s : State) : List Span :=
  (s.outstanding.map fun q => (q.offset, q.length)) ++ s.reader.reordered.map fun kc => (kc.2.offset, kc.2.requested)

/-- A reader without an error: the window fills the offsets between the two ends. -/
structure Live (s : State) : Prop where
  fills : Fills s.reader.nextYieldOffset s.reader.nextSubmitOffset s.window
  submitted : s.reader.nextSubmitOffset ≤ s.reader.fileSize
  inFlight : s.reader.inFlight = s.outstanding.length
  keys : ∀ kc ∈ s.reader.reordered, kc.1 = kc.2.offset

theorem Live.submit (h : Live s) (hchunk : 0 < s.reader.chunk) {took : ℕ} (htook : took ≤ s.reader.plan.1.length) :
    Live (s.submit took) := by
  unfold State.submit Reader.refill
  by_cases hempty : s.reader.plan.1 = []
  · rw [if_pos hempty, hempty, List.take_nil, List.append_nil]
    exact h
  · rw [if_neg hempty]
    -- what was accepted continues the window at its upper end
    obtain ⟨htile, hle⟩ := Reader.planLoop_spec hchunk _ _ took h.submitted htook
    refine ⟨?_, hle, ?_, h.keys⟩
    · refine (h.fills.append htile).perm ?_
      unfold State.window
      rw [List.map_append, List.append_assoc, List.append_assoc]
      exact List.Perm.append_left _ List.perm_append_comm
    · dsimp only
      rw [List.length_append, List.length_take, Nat.min_eq_left htook, h.inFlight]

/-- A delivery moves a read from the accepted ones to the waiting chunks. -/
theorem Live.deliver (h : Live s) {d : IoRequest × IoResult} (hd : d.1 ∈ s.outstanding) : Live (s.deliver d) := by
  have hperm := List.perm_cons_erase hd
  -- nothing waits at this offset: the window has one span that starts there
  have hfresh : (s.reader.reordered.any fun kc => kc.1 == d.1.offset) = false := by
    rw [Bool.eq_false_iff]
    intro hany
    obtain ⟨kc, hkc, heq⟩ := List.any_eq_true.1 hany
    have hnodup := h.fills.nodup
    unfold State.window at hnodup
    rw [List.map_append, List.nodup_append] at hnodup
    refine hnodup.2.2 d.1.offset ?_ kc.2.offset ?_ ?_
    · exact List.mem_map.2 ⟨_, List.mem_map.2 ⟨d.1, hd, rfl⟩, rfl⟩
    · exact List.mem_map.2 ⟨_, List.mem_map.2 ⟨kc, hkc, rfl⟩, rfl⟩
    · rw [← h.keys kc hkc]
      exact (beq_iff_eq.1 heq).symm
  have hkeep : (s.reader.receive (d.1.completion d.2)).reordered =
      s.reader.reordered ++ [(d.1.offset, d.1.completion d.2)] := by
    show (if (s.reader.reordered.any fun kc => kc.1 == d.1.offset) = true then _ else _) = _
    rw [if_neg (by rw [hfresh]; decide)]
    rfl
  have hlen := hperm.length_eq
  rw [List.length_cons] at hlen
  refine ⟨h.fills.perm ?_, h.submitted, ?_, ?_⟩
  · unfold State.window State.deliver
    dsimp only
    rw [hkeep, List.map_append]
    refine ((hperm.map _).append_right _).trans ?_
    rw [List.map_cons, List.cons_append, ← List.append_assoc]
    exact (List.perm_append_singleton _ _).symm
  · show (if 0 < s.reader.inFlight then s.reader.inFlight - 1 else s.reader.inFlight) = (s.outstanding.erase d.1).length
    have hcount := h.inFlight
    rw [if_pos (by omega)]
    omega
  · unfold State.deliver
    dsimp only
    rw [hkeep]
    intro kc hkc
    rcases List.mem_append.1 hkc with hkc | hkc
    · exact h.keys kc hkc
    · rw [List.mem_singleton.1 hkc]
      rfl

/-- What a series of deliveries leaves alone. -/
theorem deliver_foldl (done : List (IoRequest × IoResult)) (s : State) :
    (done.foldl State.deliver s).returns = s.returns ∧ (done.foldl State.deliver s).inNext = s.inNext ∧
      (done.foldl State.deliver s).reader.nextYieldOffset = s.reader.nextYieldOffset ∧
      (done.foldl State.deliver s).reader.fileSize = s.reader.fileSize ∧
      (done.foldl State.deliver s).reader.chunk = s.reader.chunk ∧
      (done.foldl State.deliver s).reader.error = s.reader.error := by
  induction done generalizing s with
  | nil => exact ⟨rfl, rfl, rfl, rfl, rfl, rfl⟩
  | cons d done ih => exact ih (s.deliver d)

theorem Live.deliverAll {done : List (IoRequest × IoResult)} (h : Live s) (hdone : Deliverable s.outstanding done) :
    Live (done.foldl State.deliver s) :=
  Deliverable.keeps (o := State.outstanding) (I := Live) (fun _ _ => rfl) (fun _ _ hi hd => hi.deliver hd) hdone h

/-- The chunk that waits at the next offset is the first span of the window. -/
theorem Live.waiting (h : Live s) {c : IoCompletion} (hc : s.reader.waiting = some c) :
    0 < c.requested ∧ Fills (s.reader.nextYieldOffset + c.requested) s.reader.nextSubmitOffset
      ((s.outstanding.map fun q => (q.offset, q.length)) ++
        s.reader.takeWaiting.reordered.map fun kc => (kc.2.offset, kc.2.requested)) := by
  obtain ⟨kc, hfind, rfl⟩ := Option.map_eq_some_iff.1 hc
  obtain ⟨hkey, as, bs, hsplit, has⟩ := List.find?_eq_some_iff_append.1 hfind
  have hoffset : kc.2.offset = s.reader.nextYieldOffset := by
    rw [← h.keys kc (by rw [hsplit]; simp)]
    exact beq_iff_eq.1 hkey
  have herase : s.reader.takeWaiting.reordered = as ++ bs := by
    show s.reader.reordered.eraseP _ = _
    rw [hsplit, List.eraseP_append_right _ (fun a ha => by simpa using has a ha),
      List.eraseP_cons_of_pos (p := fun kc : ℕ × IoCompletion => kc.1 == s.reader.nextYieldOffset) hkey]
  rw [herase]
  refine Fills.rest (r := (kc.2.offset, kc.2.requested)) (h.fills.perm ?_) hoffset
  unfold State.window
  rw [hsplit, List.map_append, List.map_append, List.map_cons]
  refine (List.Perm.append_left _ List.perm_middle).trans ?_
  exact List.perm_middle

/-- Where nothing waits at the next offset a read is outstanding. -/
theorem Live.outstanding_ne_nil (h : Live s) (hlt : s.reader.nextYieldOffset < s.reader.nextSubmitOffset)
    (hc : s.reader.waiting = none) : s.outstanding ≠ [] := by
  intro hnil
  obtain ⟨x, hx, hfirst⟩ := h.fills.exists_first hlt
  unfold State.window at hx
  rw [hnil, List.map_nil, List.nil_append] at hx
  obtain ⟨kc, hkc, rfl⟩ := List.mem_map.1 hx
  have hnone := List.find?_eq_none.1 (Option.map_eq_none_iff.1 hc) kc hkc
  rw [h.keys kc hkc] at hnone
  exact hnone (beq_iff_eq.2 hfirst)

end Window

/-! ### Runs -/

/-- The plan depends on what is submitted only. -/
theorem Reader.planLoop_congr (r r' : Reader) (hid : r'.fileId = r.fileId) (hsize : r'.fileSize = r.fileSize)
    (hchunk : r'.chunk = r.chunk) (slots off : ℕ) : r'.planLoop slots off = r.planLoop slots off := by
  induction slots generalizing off with
  | zero => rfl
  | succ slots ih =>
    unfold Reader.planLoop
    rw [hid, hsize, hchunk]
    simp only [ih]

theorem Reader.refill_keeps (r : Reader) (took : ℕ) :
    (r.refill took).fileSize = r.fileSize ∧ (r.refill took).chunk = r.chunk ∧
      (r.refill took).nextYieldOffset = r.nextYieldOffset ∧ (r.refill took).error = r.error := by
  unfold Reader.refill
  split
  · exact ⟨rfl, rfl, rfl, rfl⟩
  · exact ⟨rfl, rfl, rfl, rfl⟩

/-- What holds between any two steps. -/
structure Inv (fileSize : ℕ) (s : State) : Prop where
  size : s.reader.fileSize = fileSize
  chunk : 0 < s.reader.chunk
  eof : EofAtEnd fileSize s.returns
  outs : ∀ ret ∈ s.returns, ret.n = ret.out.length
  yielded : (s.returns.map Return.n).sum = s.reader.nextYieldOffset
  live : s.reader.error = false → Live s
  waits : s.inNext = true → s.reader.error = false ∧ s.reader.nextYieldOffset < s.reader.fileSize

section Runs

variable {fileSize : ℕ} {s : State}

theorem Inv.init (cfg : Config) : Inv cfg.fileSize (machine cfg).init := by
  refine ⟨rfl, ?_, EofAtEnd.nil, fun ret hret => (by cases hret), rfl, fun _ => ⟨⟨[], .refl _, rfl⟩, ?_, rfl, ?_⟩, ?_⟩
  · show 0 < if cfg.chunkBytes = 0 then 2 ^ 20 else cfg.chunkBytes
    split <;> omega
  · exact Nat.zero_le _
  · intro kc hkc
    cases hkc
  · intro h
    cases h

/-- A return without bytes: without an error only at the end. -/
theorem Inv.leave (h : Inv fileSize s) {ok : Bool} (hend : ok = true → s.reader.nextYieldOffset = s.reader.fileSize) :
    Inv fileSize (s.leave ⟨0, ok, []⟩) := by
  refine ⟨h.size, h.chunk, h.eof.append fun hok _ => ?_, ?_, ?_, fun herr => ?_, fun hin => ?_⟩
  · rw [h.yielded, hend hok, h.size]
  · intro ret hret
    rcases List.mem_append.1 hret with hret | hret
    · exact h.outs ret hret
    · rw [List.mem_singleton.1 hret]
      rfl
  · show ((s.returns ++ [_]).map Return.n).sum = _
    rw [List.map_append, List.sum_append, h.yielded, List.map_singleton, List.sum_singleton]
    rfl
  · have hlive := h.live herr
    exact ⟨hlive.fills, hlive.submitted, hlive.inFlight, hlive.keys⟩
  · cases hin

theorem Inv.call (h : Inv fileSize s) {took : ℕ} (htook : took ≤ s.reader.plan.1.length) :
    Inv fileSize (s.call took) := by
  unfold State.call
  by_cases herr : s.reader.error = true
  · rw [if_pos herr]
    exact h.leave (fun hok => by cases hok)
  rw [if_neg herr]
  have hlive := h.live (Bool.eq_false_iff.2 herr)
  by_cases hend : s.reader.nextYieldOffset ≥ s.reader.fileSize
  · rw [if_pos hend]
    refine h.leave fun _ => ?_
    have hle := hlive.fills.le
    have hsub := hlive.submitted
    omega
  · rw [if_neg hend]
    obtain ⟨h1, h2, h3, h4⟩ := s.reader.refill_keeps took
    have hnew := hlive.submit h.chunk htook
    refine ⟨h1.trans h.size, h2 ▸ h.chunk, h.eof, h.outs, h.yielded.trans h3.symm, fun _ => ?_, fun _ => ⟨?_, ?_⟩⟩
    · exact ⟨hnew.fills, hnew.submitted, hnew.inFlight, hnew.keys⟩
    · exact h4.trans (Bool.eq_false_iff.2 herr)
    · show (s.reader.refill took).nextYieldOffset < (s.reader.refill took).fileSize
      omega

theorem Inv.yield (h : Inv fileSize s) {c : IoCompletion} {took : ℕ} (hin : s.inNext = true)
    (hc : s.reader.waiting = some c) (htook : took ≤ s.reader.plan.1.length)
    (hfull : c.status = .error ∨ c.status = .eof ∨ (c.status = .ok ∧ c.data.length = c.requested)) :
    Inv fileSize (s.yield c took) := by
  obtain ⟨herr, hlt⟩ := h.waits hin
  have hlive := h.live herr
  unfold State.yield
  by_cases hbad : c.status = .error ∨ c.status = .eof
  · -- the error sticks, and nothing is asked of the window any more
    rw [if_pos hbad]
    have herror : Inv fileSize { s with
        inNext := false
        reader := { s.reader.takeWaiting with error := true } } :=
      ⟨h.size, h.chunk, h.eof, h.outs, h.yielded, fun hno => (by cases hno), fun hno => (by cases hno)⟩
    exact herror.leave (fun hok => by cases hok)
  rw [if_neg hbad]
  -- a chunk that is neither an error nor an end was read in full
  have hdata : c.data.length = c.requested := by
    rcases hfull with hst | hst | ⟨-, hlen⟩
    · exact absurd (.inl hst) hbad
    · exact absurd (.inr hst) hbad
    · exact hlen
  obtain ⟨hpos, hrest⟩ := hlive.waiting hc
  rw [← hdata] at hpos hrest
  generalize hs1 : ({ s with
    reader := { s.reader.takeWaiting with nextYieldOffset := s.reader.nextYieldOffset + c.data.length } } : State) = s1
  have hread : s1.reader = { s.reader.takeWaiting with nextYieldOffset := s.reader.nextYieldOffset + c.data.length } := by
    rw [← hs1]
  have hret : s1.returns = s.returns := by
    rw [← hs1]
  -- the first span leaves the window
  have hlive1 : Live s1 := by
    rw [← hs1]
    exact ⟨hrest, hlive.submitted, hlive.inFlight, fun kc hkc => hlive.keys kc (List.mem_of_mem_eraseP hkc)⟩
  have hplan : s1.reader.plan = s.reader.plan := by
    rw [hread]
    unfold Reader.plan
    exact Reader.planLoop_congr s.reader
      { s.reader.takeWaiting with nextYieldOffset := s.reader.nextYieldOffset + c.data.length } rfl rfl rfl _ _
  have hchunk : 0 < s1.reader.chunk := by
    rw [hread]
    exact h.chunk
  have hnew := hlive1.submit hchunk (hplan ▸ htook)
  obtain ⟨h1, h2, h3, h4⟩ := s1.reader.refill_keeps took
  refine ⟨?_, h2 ▸ hchunk, ?_, ?_, ?_, fun _ => ⟨hnew.fills, hnew.submitted, hnew.inFlight, hnew.keys⟩, fun hno => ?_⟩
  · refine h1.trans ?_
    rw [hread]
    exact h.size
  · show EofAtEnd fileSize (s1.returns ++ [_])
    rw [hret]
    exact h.eof.append fun _ hn => absurd hn (Nat.ne_of_gt hpos)
  · show ∀ ret ∈ s1.returns ++ [_], ret.n = ret.out.length
    intro ret hmem
    rw [hret] at hmem
    rcases List.mem_append.1 hmem with hmem | hmem
    · exact h.outs ret hmem
    · rw [List.mem_singleton.1 hmem]
  · show ((s1.returns ++ [_]).map Return.n).sum = (s1.reader.refill took).nextYieldOffset
    rw [h3, hret, hread, List.map_append, List.sum_append, h.yielded, List.map_singleton, List.sum_singleton]
  · cases hno

theorem Inv.reap (h : Inv fileSize s) {done : List (IoRequest × IoResult)} (hin : s.inNext = true)
    (hc : s.reader.waiting = none) (hdone : Deliverable s.outstanding done) : Inv fileSize (s.reap done) := by
  obtain ⟨herr, hlt⟩ := h.waits hin
  have hlive := h.live herr
  unfold State.reap
  dsimp only
  rw [if_neg]
  · obtain ⟨h1, h2, h3, h4, h5, h6⟩ := deliver_foldl done s
    refine ⟨h4.trans h.size, h5 ▸ h.chunk, h1 ▸ h.eof, h1 ▸ h.outs, ?_, fun _ => hlive.deliverAll hdone, fun _ => ?_⟩
    · rw [h1, h3]
      exact h.yielded
    · rw [h3, h4, h6]
      exact ⟨herr, hlt⟩
  · -- nothing is delivered: a read is outstanding, so the guard does not hold
    rintro ⟨rfl, hflight, hall⟩
    dsimp only [List.foldl_nil] at hflight hall
    have hne := hlive.outstanding_ne_nil (by omega) hc
    rw [hlive.inFlight] at hflight
    exact hne (List.eq_nil_of_length_eq_zero hflight)

end Runs

/-- The next chunk is at hand, so the call hands it back. -/
theorem exec_yield {s : State} {c : IoCompletion} (hc : s.reader.waiting = some c) (took : ℕ) :
    Event.exec s (.yield took) = s.yield c took := by
  unfold Event.exec
  dsimp only
  rw [hc]

/-- **One step keeps the invariant**, if the chunk that it takes was read in full. -/
theorem Inv.exec {cfg : Config} {fileSize : ℕ} {s : State} {e : Event} (hinv : Inv fileSize s)
    (hcan : (machine cfg).can s e) (hfull : Full s e) : Inv fileSize ((machine cfg).next s e) := by
  cases e with
  | call took => exact hinv.call hcan.2
  | yield took =>
    obtain ⟨hin, hsome, htook⟩ := hcan
    obtain ⟨c, hc⟩ := Option.isSome_iff_exists.1 hsome
    have hexec : (machine cfg).next s (.yield took) = s.yield c took := exec_yield hc took
    rw [hexec]
    exact hinv.yield hin hc htook (hfull c hc)
  | reap done => exact hinv.reap hcan.1 hcan.2.1 hcan.2.2

theorem reach_inv {cfg : Config} {s : State} (h : (machine cfg).Reach Full s) : Inv cfg.fileSize s :=
  h.invariant (I := Inv cfg.fileSize) (Inv.init cfg) fun _ _ hinv hcan hfull => hinv.exec hcan hfull

/-- **End of file only at the end of the file**: in every run in which each chunk that is taken is an
error, an end of file or read in full, a return of 0 bytes without an error comes after exactly the bytes
of the file; what is hashed without a read error is as long as the file, and so is what is signed. -/
theorem reader_eof (cfg : Config) {s : State} (h : (machine cfg).Reach Full s) :
    EofAtEnd cfg.fileSize s.returns ∧ (∀ bytes, hashedBytes s.returns = some bytes → bytes.length = cfg.fileSize) ∧
      ∀ bytes, signerBytes s.returns = some bytes → bytes.length = cfg.fileSize := by
  have hinv := reach_inv h
  refine ⟨hinv.eof, fun bytes hb => hashedBytes_length hinv.eof hinv.outs hb, fun bytes hb => ?_⟩
  have hlen := signerBytes_length hinv.eof hinv.outs (List.nil_append s.returns).symm hb
  rwa [List.map_nil, List.sum_nil, Nat.zero_add] at hlen

/-- A file of four bytes read in two chunks. -/
def twoChunks : Config := ⟨1, 4, 2, 2⟩

/-- Both reads are accepted, and arrive in the wrong order. -/
def readInFull : List Event :=
  [.call 2, .reap [(readRequest 1 2 2, ⟨.ok, 2, [3, 4]⟩), (readRequest 1 0 2, ⟨.ok, 2, [1, 2]⟩)], .yield 0,
    .call 0, .yield 0, .call 0]

/-- The whole file is hashed, then comes the end. -/
theorem reader_eof_full : EofAtEnd 4 ((machine twoChunks).run (machine twoChunks).init readInFull).returns :=
  have hreach : (machine twoChunks).Reach Full ((machine twoChunks).run (machine twoChunks).init readInFull) :=
    Machine.reach_run (by decide)
  (reader_eof twoChunks hreach).1

/-- The driver is cancelled before it submits the reads. -/
def readCancelled : List Event :=
  [.call 2, .reap [(readRequest 1 0 2, ⟨.cancelled, 0, []⟩), (readRequest 1 2 2, ⟨.cancelled, 0, []⟩)], .yield 0]

/-- A cancelled read is handed back as the end of the file, before its first byte. -/
theorem reader_eof_cancelled : ∃ s, (machine twoChunks).Reach (fun _ _ => True) s ∧ ¬ EofAtEnd twoChunks.fileSize s.returns ∧
    signerBytes s.returns = some [] := by
  refine ⟨(machine twoChunks).run (machine twoChunks).init readCancelled, Machine.reach_run (by decide), ?_, by decide⟩
  intro h
  exact absurd (h [] ⟨0, true, []⟩ [] (by decide) rfl rfl) (by decide)

end FastClone.SequentialReader
