import FastClone.Lib.Codec

/-!
# Cursors over a payload

A reader that walks a payload with an index does its own bound checks around raw
accesses. A raw access outside the payload is a fault of its own, apart from the texts
a reader throws, so that "never reads outside" is a statement about the reader.

* `Follows c r`: the cursor reader `c` does on the payload what `r` does on the bytes
  that are left, and never faults.
* `Follows.bind`: the rule by which such readers compose.
-/

namespace Cursor

open Codec

variable {α β : Type}

inductive Fault where
  | threw (e : String)
  | outOfBounds
  deriving DecidableEq, Repr

/-- Readers of a payload at an index. -/
abbrev Reader := StateT ℕ (ReaderT (List UInt8) (Except Fault))

/-! ### Primitives -/

/-- `buf.size()`. -/
def size : Reader ℕ := fun cur buf => .ok (buf.length, cur)

/-- `buf[i]`. -/
def byteAt (i : ℕ) : Reader UInt8 := fun cur buf =>
  match buf[i]? with
  | some b => .ok (b, cur)
  | none => .error .outOfBounds

/-- The raw bytes `buf[i], …, buf[i + n - 1]`. -/
def bytesAt (i n : ℕ) : Reader (List UInt8) := fun cur buf =>
  if i + n ≤ buf.length then .ok ((buf.drop i).take n, cur) else .error .outOfBounds

/-- Throw `e` unless `c`. -/
def ensure (c : Prop) [Decidable c] (e : String) : Reader Unit := fun cur _ =>
  if c then .ok ((), cur) else .error (.threw e)

/-- A counted loop that collects what each round reads. -/
def collect (c : Reader α) : ℕ → Reader (List α)
  | 0 => pure []
  | n + 1 => do
    let x ← c
    let xs ← collect c n
    pure (x :: xs)

/-! ### Following a reader of the bytes that are left -/

/-- `c` at an index inside the payload does what `r` does on the bytes from there on. -/
def Follows (c : Reader α) (r : Stream α) : Prop :=
  ∀ buf cur, cur ≤ buf.length →
    match r (buf.drop cur) with
    | .ok (a, rest) => ∃ cur', cur' ≤ buf.length ∧ rest = buf.drop cur' ∧ c cur buf = .ok (a, cur')
    | .error e => c cur buf = .error (.threw e)

section Run

variable {c : Reader α} {k : α → Reader β} {cur cur' : ℕ} {buf : List UInt8} {a : α}

theorem bind_ok (h : c cur buf = .ok (a, cur')) : (c >>= k) cur buf = k a cur' buf := by
  show (c cur buf >>= fun p => k p.1 p.2 buf) = _
  rw [h]
  rfl

theorem bind_error {e : Fault} (h : c cur buf = .error e) : (c >>= k) cur buf = .error e := by
  show (c cur buf >>= fun p => k p.1 p.2 buf) = _
  rw [h]
  rfl

end Run

theorem follows_pure (a : α) : Follows (pure a) (pure a) := by
  intro buf cur hcur
  exact ⟨cur, hcur, rfl, rfl⟩

theorem Follows.bind {c : Reader α} {r : Stream α} {k : α → Reader β} {k' : α → Stream β}
    (h : Follows c r) (hk : ∀ a, Follows (k a) (k' a)) : Follows (c >>= k) (r >>= k') := by
  intro buf cur hcur
  have hc := h buf cur hcur
  cases hr : r (buf.drop cur) with
  | error e =>
    rw [hr] at hc
    rw [Codec.bind_error hr]
    exact bind_error hc
  | ok p =>
    obtain ⟨a, rest⟩ := p
    rw [hr] at hc
    obtain ⟨cur', hcur', rfl, hc⟩ := hc
    rw [Codec.bind_ok hr, bind_ok hc]
    exact hk a buf cur' hcur'

theorem Follows.map {c : Reader α} {r : Stream α} (h : Follows c r) (f : α → β) :
    Follows (f <$> c) (f <$> r) := by
  rw [map_eq_pure_bind, map_eq_pure_bind]
  exact h.bind fun a => follows_pure (f a)

theorem follows_ensure (p : Prop) [Decidable p] (e : String) :
    Follows (ensure p e) (Codec.ensure p e) := by
  intro buf cur hcur
  by_cases hp : p
  · have hs : Codec.ensure p e (buf.drop cur) = .ok ((), buf.drop cur) := by
      unfold Codec.ensure
      rw [if_pos hp]
      rfl
    rw [hs]
    exact ⟨cur, hcur, rfl, if_pos hp⟩
  · have hs : Codec.ensure p e (buf.drop cur) = .error e := by
      unfold Codec.ensure
      rw [if_neg hp]
      rfl
    rw [hs]
    exact if_neg hp

theorem Follows.collect {c : Reader α} {r : Stream α} (h : Follows c r) :
    ∀ n, Follows (collect c n) (takeEach r n) := by
  intro n
  induction n with
  | zero => exact follows_pure []
  | succ n ih => exact h.bind fun x => ih.bind fun xs => follows_pure (x :: xs)

/-! ### Checked accesses -/

/-- `buf[cursor++]`, unchecked. -/
def pop : Reader UInt8 := do
  let cursor ← get
  let b ← byteAt cursor
  set (cursor + 1)
  pure b

theorem pop_run {cur : ℕ} {buf rest : List UInt8} {b : UInt8} (h : buf.drop cur = b :: rest) :
    pop cur buf = .ok (b, cur + 1) := by
  have hget : buf[cur]? = some b := by
    rw [← List.head?_drop, h, List.head?_cons]
  have hbyte : byteAt cur cur buf = .ok (b, cur) := by
    unfold byteAt
    rw [hget]
  show (byteAt cur >>= fun b => set (cur + 1) >>= fun _ => pure b) cur buf = _
  rw [bind_ok hbyte]
  rfl

/-- Where a byte is left, `pop` is inside the payload and takes it. -/
theorem pop_step {cur : ℕ} {buf rest : List UInt8} {b : UInt8} (h : buf.drop cur = b :: rest) :
    cur + 1 ≤ buf.length ∧ rest = buf.drop (cur + 1) := by
  constructor
  · by_contra hge
    rw [List.drop_eq_nil_of_le (by omega)] at h
    cases h
  · rw [← List.drop_drop, h, List.drop_one, List.tail_cons]

/-- A check that a byte is left before it is taken. -/
def popOr (e : String) : Reader UInt8 := do
  let cursor ← get
  ensure (cursor < (← size)) e
  pop

theorem follows_popOr (e : String) : Follows (popOr e) (next e) := by
  intro buf cur hcur
  have hrun : popOr e cur buf = (ensure (cur < buf.length) e >>= fun _ => pop) cur buf := rfl
  rw [hrun]
  cases hd : buf.drop cur with
  | nil =>
    have hle : buf.length ≤ cur := List.drop_eq_nil_iff.1 hd
    have hcheck : ensure (cur < buf.length) e cur buf = .error (.threw e) := if_neg (by omega)
    exact bind_error hcheck
  | cons b rest =>
    obtain ⟨hlt, hrest⟩ := pop_step hd
    have hcheck : ensure (cur < buf.length) e cur buf = .ok ((), cur) := if_pos (by omega)
    rw [bind_ok hcheck, pop_run hd]
    exact ⟨cur + 1, hlt, hrest, rfl⟩

/-- `if (cursor < buf.size())`: an optional field. -/
def ifMore (d : α) (c : Reader α) : Reader α := do
  let cursor ← get
  if cursor < (← size) then c else pure d

/-- The field itself may rely on a byte being left. -/
theorem follows_ifMore {c : Reader α} {r : Stream α} (d : α)
    (h : ∀ buf cur b rest, buf.drop cur = b :: rest →
      match r (b :: rest) with
      | .ok (a, rest') => ∃ cur', cur' ≤ buf.length ∧ rest' = buf.drop cur' ∧ c cur buf = .ok (a, cur')
      | .error e => c cur buf = .error (.threw e)) :
    Follows (ifMore d c) (Codec.ifMore d r) := by
  intro buf cur hcur
  have hrun : ifMore d c cur buf = (if cur < buf.length then c else pure d : Reader α) cur buf := rfl
  rw [hrun]
  unfold Codec.ifMore
  cases hd : buf.drop cur with
  | nil =>
    have hno : ¬ cur < buf.length := Nat.not_lt.2 (List.drop_eq_nil_iff.1 hd)
    rw [if_pos rfl, if_neg hno]
    exact ⟨cur, hcur, hd.symm, rfl⟩
  | cons b rest =>
    have hlt : cur < buf.length := (pop_step hd).1
    rw [if_neg (List.cons_ne_nil b rest), if_pos hlt]
    exact h buf cur b rest hd

theorem Follows.ifMore {c : Reader α} {r : Stream α} (h : Follows c r) (d : α) :
    Follows (ifMore d c) (Codec.ifMore d r) := by
  refine follows_ifMore d fun buf cur b rest hd => ?_
  have hlt := (pop_step hd).1
  rw [← hd]
  exact h buf cur (by omega)

theorem follows_ifMore_pop (d : UInt8) (e : String) :
    Follows (ifMore d pop) (Codec.ifMore d (next e)) := by
  refine follows_ifMore d fun buf cur b rest hd => ?_
  obtain ⟨hlt, hrest⟩ := pop_step hd
  exact ⟨cur + 1, hlt, hrest, pop_run hd⟩

/-! ### Words -/

/-- Byte `i` of the next `n`, once they are known to be there. -/
theorem byteAt_run {cur n i : ℕ} {buf : List UInt8} (hn : cur + n ≤ buf.length) (hi : i < n) :
    byteAt (cur + i) cur buf = .ok (((buf.drop cur).take n).getD i 0, cur) := by
  have hlt : cur + i < buf.length := by omega
  have hget : buf[cur + i]? = some (((buf.drop cur).take n).getD i 0) := by
    rw [List.getD_eq_getElem?_getD, List.getElem?_take, if_pos hi, List.getElem?_drop,
      List.getElem?_eq_getElem hlt]
    rfl
  unfold byteAt
  rw [hget]

/-- A bound check on `n` bytes, raw accesses to them, and the step of the cursor. -/
def word (n : ℕ) (e : String) (c : ℕ → Reader α) : Reader α := do
  let cursor ← get
  ensure (cursor + n ≤ (← size)) e
  let value ← c cursor
  set (cursor + n)
  pure value

theorem follows_word {n : ℕ} {e : String} {c : ℕ → Reader α} {f : List UInt8 → α}
    (h : ∀ buf cur, cur + n ≤ buf.length → c cur cur buf = .ok (f ((buf.drop cur).take n), cur)) :
    Follows (word n e c) (take n e >>= fun bs => pure (f bs)) := by
  intro buf cur hcur
  have hlen : (buf.drop cur).length = buf.length - cur := List.length_drop ..
  have hrun : word n e c cur buf = (ensure (cur + n ≤ buf.length) e >>= fun _ => c cur >>= fun value =>
      set (cur + n) >>= fun _ => pure value) cur buf := rfl
  rw [hrun]
  by_cases hn : cur + n ≤ buf.length
  · have hcheck : ensure (cur + n ≤ buf.length) e cur buf = .ok ((), cur) := if_pos hn
    have htake : take n e (buf.drop cur) = .ok ((buf.drop cur).take n, (buf.drop cur).drop n) :=
      if_pos (by omega)
    rw [Codec.bind_ok htake, bind_ok hcheck, bind_ok (h buf cur hn)]
    exact ⟨cur + n, hn, List.drop_drop, rfl⟩
  · have hcheck : ensure (cur + n ≤ buf.length) e cur buf = .error (.threw e) := if_neg hn
    have htake : take n e (buf.drop cur) = .error e := if_neg (by omega)
    rw [Codec.bind_error htake]
    exact bind_error hcheck

theorem follows_slice (n : ℕ) (e : String) :
    Follows (word n e fun cursor => bytesAt cursor n) (take n e) := by
  have h := follows_word (n := n) (e := e) (c := fun cursor => bytesAt cursor n) (f := id)
    (fun buf cur hn => if_pos hn)
  have htake : (take n e >>= fun bs => pure (id bs)) = take n e := bind_pure _
  rwa [htake] at h

/-- A reader that follows another never leaves the payload. -/
theorem Follows.run {c : Reader α} {r : Stream α} (h : Follows c r) (buf : List UInt8) :
    c 0 buf = match r buf with
      | .ok (a, rest) => .ok (a, buf.length - rest.length)
      | .error e => .error (.threw e) := by
  have h0 := h buf 0 (Nat.zero_le _)
  rw [List.drop_zero] at h0
  cases hr : r buf with
  | error e =>
    rw [hr] at h0
    exact h0
  | ok p =>
    obtain ⟨a, rest⟩ := p
    rw [hr] at h0
    obtain ⟨cur', hcur', rfl, hc⟩ := h0
    rw [hc]
    show _ = Except.ok (a, buf.length - (buf.drop cur').length)
    rw [List.length_drop, Nat.sub_sub_self hcur']

end Cursor
