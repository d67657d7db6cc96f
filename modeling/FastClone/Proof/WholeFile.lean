import FastClone.Lib.Spans
import FastClone.Spec.WholeFile

/-!
# Writing a whole file: what a success means, and when the loop ends

The accepted pieces fill the file from its start, and every delivery takes one of them away (`Inv`). A
success is a full delivery of every piece. The loop ends exactly in the runs that get all the data
submitted: after a failure it submits nothing, but still waits for the rest of the data to be submitted.

* `writeWholeFile_ends_iff`: **the loop ends exactly if no failure is delivered before the last piece is
  submitted and pieces are accepted again and again**; if it ends in success, every byte was written once.
* `writeWholeFile_stuck`: a write of two pieces whose first one fails.
-/

namespace FastClone.WholeFile

open FastClone.DiskIo Spans

variable {c : Call} {l : Loop} {answers : ℕ → Turn}

/-! ### Statement -/

def spanOf (r : IoRequest) : Span := (r.offset, r.length)

/-- Every byte of the data was written exactly once, at its own offset. -/
structure Written (c : Call) (l : Loop) : Prop where
  tiles : Tiling 0 c.data.length (l.accepted.map spanOf)
  own : ∀ r ∈ l.accepted, r.data = (c.data.drop r.offset).take r.length
  once : l.accepted.Perm (l.delivered.map Prod.fst)
  full : ∀ d ∈ l.delivered, d.2.status ≠ .error ∧ d.2.transferred = d.1.length

/-- A failure is delivered only when all the data is submitted, and until then pieces are accepted again and again. -/
structure Submits (c : Call) (answers : ℕ → Turn) : Prop where
  late : ∀ k, (run c answers k).running c = true →
    (∃ d ∈ (answers k).done, WriteHandles.failed (d.1.completion d.2) = true) →
    c.data.length ≤ ((run c answers k).submitLoop c (answers k).took).off
  again : ∀ k, (run c answers k).off < c.data.length →
    ∃ m, k ≤ m ∧ (run c answers m).inflight < kWindow ∧ 0 < (answers m).took

/-! ### The pieces -/

theorem Call.chunk_pos (c : Call) : 0 < c.chunk := by
  unfold Call.chunk
  split <;> omega

theorem Call.piece_length {off : ℕ} : (c.piece off).length = min c.chunk (c.data.length - off) := by
  show ((c.data.drop off).take _).length = _
  rw [List.length_take, List.length_drop]
  omega

theorem Call.piece_pos {off : ℕ} (h : off < c.data.length) : 0 < (c.piece off).length := by
  have hchunk := c.chunk_pos
  rw [Call.piece_length]
  omega

/-- What holds after every turn. -/
structure Inv (c : Call) (l : Loop) : Prop where
  inflight : l.inflight = l.outstanding.length
  tiles : Tiling 0 l.off (l.accepted.map spanOf)
  le : l.off ≤ c.data.length
  own : ∀ r ∈ l.accepted, r.data = (c.data.drop r.offset).take r.length
  split : l.accepted.Perm (l.outstanding ++ l.delivered.map Prod.fst)
  ok : l.ok = l.delivered.all fun d => !WriteHandles.failed (d.1.completion d.2)

theorem Loop.submits_iff : l.submits c = true ↔ l.ok = true ∧ l.off < c.data.length ∧ l.inflight < kWindow := by
  unfold Loop.submits
  rw [Bool.and_eq_true, Bool.and_eq_true, decide_eq_true_iff, decide_eq_true_iff, and_assoc]

theorem Inv.accept (h : Inv c l) (hs : l.submits c = true) : Inv c (l.accept (c.piece l.off)) := by
  obtain ⟨-, hoff, -⟩ := Loop.submits_iff.1 hs
  have hlen : (c.piece l.off).length = min c.chunk (c.data.length - l.off) := Call.piece_length
  have hpos := Call.piece_pos hoff
  unfold Loop.accept
  refine ⟨?_, ?_, ?_, ?_, ?_, h.ok⟩
  · dsimp only
    rw [List.length_append, List.length_singleton, h.inflight]
  · rw [List.map_append]
    exact h.tiles.append ⟨rfl, hpos, rfl⟩
  · dsimp only
    omega
  · intro r hr
    rcases List.mem_append.1 hr with hr | hr
    · exact h.own r hr
    · rw [List.mem_singleton.1 hr, hlen]
      rfl
  · exact split_accept h.split _

theorem Inv.submitLoop (h : Inv c l) (took : ℕ) : Inv c (l.submitLoop c took) := by
  induction took generalizing l with
  | zero => exact h
  | succ took ih =>
    unfold Loop.submitLoop
    by_cases hs : l.submits c = true
    · rw [if_pos hs]
      exact ih (h.accept hs)
    · rw [if_neg hs]
      exact h

theorem Inv.deliver (h : Inv c l) {d : IoRequest × IoResult} (hd : d.1 ∈ l.outstanding) : Inv c (l.deliver d) := by
  have hlen := (List.perm_cons_erase hd).length_eq
  rw [List.length_cons] at hlen
  unfold Loop.deliver
  refine ⟨?_, h.tiles, h.le, h.own, split_deliver h.split hd, ?_⟩
  · dsimp only
    rw [if_pos (by have := h.inflight; omega), h.inflight]
    omega
  · dsimp only
    rw [List.all_append, h.ok]
    simp

theorem Inv.deliverAll {done : List (IoRequest × IoResult)} (h : Inv c l) (hd : Deliverable l.outstanding done) :
    Inv c (done.foldl Loop.deliver l) :=
  Deliverable.keeps (o := Loop.outstanding) (I := Inv c) (fun _ _ => rfl) (fun _ _ hi hd => hi.deliver hd) hd h

theorem inv_run (h : Answers c answers) (k : ℕ) : Inv c (run c answers k) := by
  induction k with
  | zero => exact ⟨rfl, rfl, Nat.zero_le _, fun r hr => (by cases hr), .refl _, rfl⟩
  | succ k ih =>
    unfold run
    by_cases hrun : (run c answers k).running c = true
    · rw [if_pos hrun]
      exact (ih.submitLoop _).deliverAll (h.delivers k hrun)
    · rw [if_neg hrun]
      exact ih

/-- **A success has written every byte once.** -/
theorem Inv.written (h : Inv c l) (hend : l.running c = false) (hok : l.ok = true) : Written c l := by
  unfold Loop.running at hend
  rw [Bool.or_eq_false_iff, decide_eq_false_iff_not, decide_eq_false_iff_not] at hend
  have hle := h.le
  have hoff : l.off = c.data.length := by omega
  have hnone : l.outstanding = [] := by
    have hlen := h.inflight
    exact List.eq_nil_of_length_eq_zero (by omega)
  refine ⟨hoff ▸ h.tiles, h.own, ?_, fun d hd => ?_⟩
  · have hsplit := h.split
    rwa [hnone, List.nil_append] at hsplit
  · have hall := List.all_eq_true.1 (h.ok ▸ hok) d hd
    unfold WriteHandles.failed at hall
    rw [Bool.not_eq_true', Bool.or_eq_false_iff, decide_eq_false_iff_not, bne_eq_false_iff_eq] at hall
    exact hall

/-! ### What a turn changes -/

/-- Where nothing may be submitted the inner loop does nothing. -/
theorem Loop.submitLoop_idle (hs : l.submits c = false) (took : ℕ) : l.submitLoop c took = l := by
  cases took with
  | zero => rfl
  | succ took =>
    unfold Loop.submitLoop
    rw [if_neg (by rw [hs]; decide)]

theorem Loop.submitLoop_off_le (took : ℕ) (l : Loop) :
    l.off ≤ (l.submitLoop c took).off ∧ (l.submitLoop c took).ok = l.ok := by
  induction took generalizing l with
  | zero => exact ⟨le_rfl, rfl⟩
  | succ took ih =>
    unfold Loop.submitLoop
    by_cases hs : l.submits c = true
    · rw [if_pos hs]
      obtain ⟨h1, h2⟩ := ih (l.accept (c.piece l.off))
      exact ⟨le_trans (Nat.le_add_right _ _) h1, h2⟩
    · rw [if_neg hs]
      exact ⟨le_rfl, rfl⟩

/-- An accepted piece moves the cursor. -/
theorem Loop.submitLoop_off_lt {took : ℕ} (hs : l.submits c = true) (htook : 0 < took) :
    l.off < (l.submitLoop c took).off := by
  obtain ⟨n, rfl⟩ : ∃ n, took = n + 1 := ⟨took - 1, by omega⟩
  have hpos := Call.piece_pos (Loop.submits_iff.1 hs).2.1
  have hrest := (Loop.submitLoop_off_le (c := c) n (l.accept (c.piece l.off))).1
  unfold Loop.submitLoop
  rw [if_pos hs]
  refine lt_of_lt_of_le ?_ hrest
  show l.off < l.off + (c.piece l.off).length
  omega

theorem deliver_foldl (done : List (IoRequest × IoResult)) (l : Loop) :
    (done.foldl Loop.deliver l).off = l.off ∧
      (done.foldl Loop.deliver l).ok = (l.ok && done.all fun d => !WriteHandles.failed (d.1.completion d.2)) ∧
      List.Sublist (done.foldl Loop.deliver l).outstanding l.outstanding := by
  induction done generalizing l with
  | nil =>
    rw [List.all_nil, Bool.and_true]
    exact ⟨rfl, rfl, .refl _⟩
  | cons d done ih =>
    obtain ⟨h1, h2, h3⟩ := ih (l.deliver d)
    refine ⟨h1, ?_, h3.trans List.erase_sublist⟩
    rw [List.foldl_cons, h2, List.all_cons, ← Bool.and_assoc]
    rfl

/-- A turn that goes on. -/
theorem run_succ {k : ℕ} (hrun : (run c answers k).running c = true) :
    run c answers (k + 1) = (run c answers k).turn c (answers k) := by
  show (if (run c answers k).running c = true then _ else _) = _
  rw [if_pos hrun]

theorem running_of_lt (h : l.off < c.data.length) : l.running c = true := by
  unfold Loop.running
  rw [decide_eq_true h, Bool.true_or]

/-- Where the loop has ended it stays. -/
theorem run_stays {k m : ℕ} (hend : (run c answers k).running c = false) (hm : k ≤ m) :
    run c answers m = run c answers k := by
  induction hm with
  | refl => rfl
  | step _ ih =>
    show (if (run c answers _).running c = true then _ else _) = _
    rw [ih, if_neg (by rw [hend]; decide)]

theorem run_off_le {k m : ℕ} (hm : k ≤ m) : (run c answers k).off ≤ (run c answers m).off := by
  induction hm with
  | refl => exact le_rfl
  | step _ ih =>
    refine le_trans ih ?_
    rename_i j _
    by_cases hrun : (run c answers j).running c = true
    · rw [run_succ hrun]
      unfold Loop.turn
      rw [(deliver_foldl _ _).1]
      exact (Loop.submitLoop_off_le _ _).1
    · rw [run_stays (k := j) (by simpa using hrun) (Nat.le_succ j)]

/-! ### The loop ends -/

/-- Before the last piece is submitted no failure has been noted. -/
theorem Submits.ok (hs : Submits c answers) (k : ℕ) (hk : (run c answers k).off < c.data.length) :
    (run c answers k).ok = true := by
  induction k with
  | zero => rfl
  | succ k ih =>
    have hbefore : (run c answers k).off < c.data.length := lt_of_le_of_lt (run_off_le (Nat.le_succ k)) hk
    have hrun := running_of_lt hbefore
    rw [run_succ hrun] at hk ⊢
    unfold Loop.turn at hk ⊢
    obtain ⟨hoff, hok, -⟩ := deliver_foldl (answers k).done ((run c answers k).submitLoop c (answers k).took)
    rw [hoff] at hk
    rw [hok, (Loop.submitLoop_off_le _ _).2, ih hbefore, Bool.true_and, List.all_eq_true]
    intro d hd
    rw [Bool.not_eq_true', ← Bool.not_eq_true]
    intro hfail
    -- a failure is noted only when all is submitted
    have hlate := hs.late k hrun ⟨d, hd, hfail⟩
    omega

/-- All the data is submitted at some time. -/
theorem Submits.all (hs : Submits c answers) : ∃ k, c.data.length ≤ (run c answers k).off := by
  obtain ⟨k, -, hk⟩ := Runs.eventually_zero (μ := fun k => c.data.length - (run c answers k).off) (n := 0) (by
    intro k _ hpos
    obtain ⟨m, hkm, hroom, htook⟩ := hs.again k (by omega)
    have hle : (run c answers k).off ≤ (run c answers m).off := run_off_le hkm
    by_cases hlt : (run c answers m).off < c.data.length
    · -- the piece is accepted in the turn from `m`
      have hmove := Loop.submitLoop_off_lt (Loop.submits_iff.2 ⟨hs.ok m hlt, hlt, hroom⟩) htook
      have hnext : (run c answers (m + 1)).off = ((run c answers m).submitLoop c (answers m).took).off := by
        rw [run_succ (running_of_lt hlt)]
        exact (deliver_foldl _ _).1
      exact ⟨m + 1, by omega, by omega⟩
    · exact ⟨m, hkm, by omega⟩)
  exact ⟨k, by omega⟩

/-- Once all is submitted, what is outstanding only becomes less. -/
theorem outstanding_sublist {k m : ℕ} (hall : c.data.length ≤ (run c answers k).off) (hm : k ≤ m) :
    List.Sublist (run c answers m).outstanding (run c answers k).outstanding := by
  induction hm with
  | refl => exact .refl _
  | step hkj ih =>
    rename_i j
    refine List.Sublist.trans ?_ ih
    have hle : (run c answers k).off ≤ (run c answers j).off := run_off_le hkj
    by_cases hrun : (run c answers j).running c = true
    · have hidle : (run c answers j).submits c = false := by
        rw [Bool.eq_false_iff]
        intro hs
        have hlt := (Loop.submits_iff.1 hs).2.1
        omega
      rw [run_succ hrun]
      unfold Loop.turn
      rw [Loop.submitLoop_idle hidle]
      exact (deliver_foldl _ _).2.2
    · rw [run_stays (k := j) (by simpa using hrun) (Nat.le_succ j)]

theorem Submits.ends (h : Answers c answers) (hs : Submits c answers) : ∃ k, (run c answers k).running c = false := by
  obtain ⟨k, hk⟩ := hs.all
  obtain ⟨m, hkm, hm⟩ := Runs.eventually_zero (μ := fun m => (run c answers m).outstanding.length) (n := k) (by
    intro j hj hpos
    obtain ⟨r, hr⟩ := List.exists_mem_of_length_pos hpos
    obtain ⟨m, hjm, hgone⟩ := h.completes j r hr
    have hall : c.data.length ≤ (run c answers j).off := le_trans hk (run_off_le hj)
    -- `r` is gone at `m`, and nothing has come instead
    have hsub := outstanding_sublist hall hjm
    refine ⟨m, hjm, lt_of_le_of_ne hsub.length_le fun heq => ?_⟩
    rw [hsub.eq_of_length heq] at hgone
    exact hgone hr)
  refine ⟨m, ?_⟩
  have hle : (run c answers k).off ≤ (run c answers m).off := run_off_le hkm
  have hflight := (inv_run h m).inflight
  unfold Loop.running
  rw [Bool.or_eq_false_iff, decide_eq_false_iff_not, decide_eq_false_iff_not]
  exact ⟨by omega, by omega⟩

/-- After a failure nothing is submitted any more. -/
theorem stuck {k : ℕ} (hok : (run c answers k).ok = false) (hlt : (run c answers k).off < c.data.length) (m : ℕ)
    (hm : k ≤ m) : (run c answers m).ok = false ∧ (run c answers m).off < c.data.length := by
  induction hm with
  | refl => exact ⟨hok, hlt⟩
  | step _ ih =>
    obtain ⟨hok', hlt'⟩ := ih
    rw [run_succ (running_of_lt hlt')]
    unfold Loop.turn
    have hidle : ∀ l : Loop, l.ok = false → l.submits c = false := by
      intro l hl
      unfold Loop.submits
      rw [hl, Bool.false_and, Bool.false_and]
    rw [Loop.submitLoop_idle (hidle _ hok')]
    obtain ⟨h1, h2, -⟩ := deliver_foldl (answers _).done (run c answers _)
    rw [h1, h2, hok', Bool.false_and]
    exact ⟨rfl, hlt'⟩

theorem submits_of_ends {e : ℕ} (hend : (run c answers e).running c = false) :
    Submits c answers := by
  have hall : c.data.length ≤ (run c answers e).off := by
    by_contra hlt
    rw [running_of_lt (by omega)] at hend
    cases hend
  constructor
  · intro k hrun ⟨d, hd, hfail⟩
    by_contra hlt
    -- the failure is noted while data is left
    obtain ⟨hoff, hok, -⟩ := deliver_foldl (answers k).done ((run c answers k).submitLoop c (answers k).took)
    have hnoted : (run c answers (k + 1)).ok = false := by
      rw [run_succ hrun]
      unfold Loop.turn
      rw [hok, Bool.and_eq_false_iff]
      refine .inr (Bool.eq_false_iff.2 fun hclean => ?_)
      have hd' := List.all_eq_true.1 hclean d hd
      rw [hfail] at hd'
      cases hd'
    have hleft : (run c answers (k + 1)).off < c.data.length := by
      rw [run_succ hrun]
      unfold Loop.turn
      rw [hoff]
      omega
    -- the loop ends with data left, which it never does
    rcases Nat.le_total (k + 1) e with hke | hek
    · have hstill := (stuck hnoted hleft e hke).2
      omega
    · have hsame := run_stays hend hek
      rw [hsame] at hleft
      omega
  · intro k hk
    by_contra hno
    -- no piece is accepted from `k` on, so the cursor stays
    have hstays : ∀ m, k ≤ m → (run c answers m).off = (run c answers k).off := by
      intro m hm
      induction hm with
      | refl => rfl
      | step hkj ih =>
        rename_i j
        have hlt : (run c answers j).off < c.data.length := by omega
        rw [run_succ (running_of_lt hlt)]
        unfold Loop.turn
        rw [(deliver_foldl _ _).1]
        by_cases hs : (run c answers j).submits c = true
        · have hnone : (answers j).took = 0 := by
            by_contra htook
            exact hno ⟨j, hkj, (Loop.submits_iff.1 hs).2.2, Nat.pos_of_ne_zero htook⟩
          rw [hnone]
          exact ih
        · rw [Loop.submitLoop_idle (by simpa using hs)]
          exact ih
    rcases Nat.le_total k e with hke | hek
    · have hsame := hstays e hke
      omega
    · have hsame : (run c answers e).off ≤ (run c answers k).off := run_off_le hek
      omega

/-- **When the loop of `driverWriteWholeFile` ends, and what its success means**, for all answers of the
driver that complete every accepted write. -/
theorem writeWholeFile_ends_iff (c : Call) (answers : ℕ → Turn) (h : Answers c answers) :
    ((∃ k, (run c answers k).running c = false) ↔ Submits c answers) ∧
      ∀ k closeOk, (run c answers k).running c = false → (run c answers k).result closeOk = true →
        Written c (run c answers k) := by
  refine ⟨⟨fun ⟨e, hend⟩ => submits_of_ends hend, fun hs => hs.ends h⟩, fun k closeOk hend hres => ?_⟩
  exact (inv_run h k).written hend (Bool.and_eq_true _ _ ▸ hres).1

/-! ### Two pieces -/

/-- Nothing is accepted and nothing delivered. -/
def quiet : Turn := ⟨0, []⟩

theorem run_quiet {k : ℕ} (h : answers k = quiet) : run c answers (k + 1) = run c answers k := by
  show (if (run c answers k).running c = true then (run c answers k).turn c (answers k) else _) = _
  rw [h]
  split <;> rfl

/-- Answers of one turn, then nothing. -/
def once (t : Turn) : ℕ → Turn
  | 0 => t
  | _ + 1 => quiet

theorem run_once (t : Turn) (k : ℕ) : run c (once t) (k + 1) = run c (once t) 1 := by
  induction k with
  | zero => rfl
  | succ k ih =>
    rw [run_quiet rfl]
    exact ih

theorem answers_once {t : Turn} (hdone : Deliverable ((run c (once t) 0).submitLoop c t.took).outstanding t.done)
    (hnone : (run c (once t) 1).outstanding = []) : Answers c (once t) := by
  constructor
  · intro k hrun
    cases k with
    | zero => exact hdone
    | succ k => exact trivial
  · intro k r hr
    cases k with
    | zero => cases hr
    | succ k =>
      rw [run_once, hnone] at hr
      cases hr

def twoPieces : Call := ⟨1, [1, 2, 3, 4], 2⟩

/-- Both pieces are accepted at once and written, the second one first. -/
def bothWritten : Turn := ⟨2, [(twoPieces.piece 2, ⟨.ok, 2, []⟩), (twoPieces.piece 0, ⟨.ok, 2, []⟩)]⟩

theorem writeWholeFile_ends_both : Written twoPieces (run twoPieces (once bothWritten) 1) :=
  (writeWholeFile_ends_iff twoPieces (once bothWritten) (answers_once (by decide) (by decide))).2 1 true
    (by decide) (by decide)

/-- The queue has room for one piece, and its write fails. -/
def firstFails : Turn := ⟨1, [(twoPieces.piece 0, ⟨.error, 0, []⟩)]⟩

/-- After the failure the second piece is not submitted any more, and the loop waits for it. -/
theorem writeWholeFile_stuck : Answers twoPieces (once firstFails) ∧
    (∀ k, 1 ≤ k → (run twoPieces (once firstFails) k).submits twoPieces = false) ∧
    ∀ k, (run twoPieces (once firstFails) k).running twoPieces = true := by
  refine ⟨answers_once (by decide) (by decide), fun k hk => ?_, fun k => ?_⟩
  · obtain ⟨n, rfl⟩ : ∃ n, k = n + 1 := ⟨k - 1, by omega⟩
    rw [run_once]
    decide
  · cases k with
    | zero => decide
    | succ k =>
      rw [run_once]
      decide

end FastClone.WholeFile
