import Mathlib.Data.List.Basic
import Mathlib.Data.Nat.Notation

/-!
# Byte codecs

Writers append to a payload, readers consume one from the front; both run in the same
state monad over the bytes and may fail with a text.

* `Writes w ok bs`: the writer appends `bs` when `ok` holds and fails when it does not.
* `Reads r bs a`: the reader takes exactly `bs` off the front and returns `a`.
* `Codes w ok bs r a`: both, and the rules by which codecs compose.
* `Produces r P`: whatever the reader accepts satisfies `P`.
* `Stable r`: more bytes behind what the reader accepts change nothing. A stable reader
  rejects every strict prefix of what it reads (`Stable.rejects`).
-/

namespace Codec

variable {α β : Type}

/-- Readers and writers. -/
abbrev Stream := StateT (List UInt8) (Except String)

/-! ### Primitives -/

/-- Fail with `e` unless `c`. -/
def ensure (c : Prop) [Decidable c] (e : String) : Stream Unit :=
  if c then pure () else throw e

/-- Append bytes. -/
def put (bs : List UInt8) : Stream Unit := modify (· ++ bs)

/-- Append each element of a list. -/
def putEach (w : α → Stream Unit) : List α → Stream Unit
  | [] => pure ()
  | x :: xs => do w x; putEach w xs

/-- Take `n` bytes. -/
def take (n : ℕ) (e : String) : Stream (List UInt8) := fun buf =>
  if n ≤ buf.length then .ok (buf.take n, buf.drop n) else .error e

/-- Take one byte. -/
def next (e : String) : Stream UInt8
  | [] => .error e
  | b :: buf => .ok (b, buf)

/-- Read only while bytes remain. -/
def ifMore (d : α) (r : Stream α) : Stream α := fun buf =>
  if buf = [] then .ok (d, buf) else r buf

/-- Read `n` elements. -/
def takeEach (r : Stream α) : ℕ → Stream (List α)
  | 0 => pure []
  | n + 1 => do
    let x ← r
    let xs ← takeEach r n
    pure (x :: xs)

/-! ### What a writer and a reader do -/

/-- `w` appends `bs` when `ok` holds, and fails otherwise. -/
structure Writes (w : Stream Unit) (ok : Prop) (bs : List UInt8) : Prop where
  done : ok → ∀ out, w out = .ok ((), out ++ bs)
  fails : ¬ ok → ∀ out, ∃ e, w out = .error e

/-- `r` takes exactly `bs` and returns `a`. -/
def Reads (r : Stream α) (bs : List UInt8) (a : α) : Prop :=
  ∀ rest, r (bs ++ rest) = .ok (a, rest)

/-- Whatever `r` accepts satisfies `P`. -/
def Produces (r : Stream α) (P : α → Prop) : Prop :=
  ∀ buf a rest, r buf = .ok (a, rest) → P a

/-- Where `w` writes, it writes `bs`, and `r` reads `a` back from them. -/
structure Codes (w : Stream Unit) (ok : Prop) (bs : List UInt8) (r : Stream α) (a : α) : Prop where
  writes : Writes w ok bs
  reads : ok → Reads r bs a

section Run

variable {s : List UInt8} {e : String} {r : Stream α} {k : α → Stream β}

theorem bind_ok {a : α} {s' : List UInt8} (h : r s = .ok (a, s')) : (r >>= k) s = k a s' := by
  show (r s >>= fun p => k p.1 p.2) = _
  rw [h]
  rfl

theorem bind_error (h : r s = .error e) : (r >>= k) s = .error e := by
  show (r s >>= fun p => k p.1 p.2) = _
  rw [h]
  rfl

/-- A sequence that succeeds is two parts that do. -/
theorem bind_inv {b : β} {rest : List UInt8} (h : (r >>= k) s = .ok (b, rest)) :
    ∃ a s', r s = .ok (a, s') ∧ k a s' = .ok (b, rest) := by
  cases hr : r s with
  | error e =>
    rw [bind_error hr] at h
    cases h
  | ok p =>
    rw [bind_ok hr] at h
    exact ⟨p.1, p.2, rfl, h⟩

end Run

/-! ### Writers -/

section Writers

variable {w w₁ w₂ : Stream Unit} {ok ok₁ ok₂ : Prop} {bs bs₁ bs₂ : List UInt8}

theorem writes_pure : Writes (pure ()) True [] :=
  ⟨fun _ out => by rw [List.append_nil]; rfl, fun h => absurd trivial h⟩

theorem writes_put (bs : List UInt8) : Writes (put bs) True bs :=
  ⟨fun _ _ => rfl, fun h => absurd trivial h⟩

theorem writes_ensure (c : Prop) [Decidable c] (e : String) : Writes (ensure c e) c [] := by
  refine ⟨fun h out => ?_, fun h out => ⟨e, ?_⟩⟩
  · unfold ensure
    rw [if_pos h, List.append_nil]
    rfl
  · unfold ensure
    rw [if_neg h]
    rfl

theorem Writes.bind (h₁ : Writes w₁ ok₁ bs₁) (h₂ : Writes w₂ ok₂ bs₂) :
    Writes (w₁ >>= fun _ => w₂) (ok₁ ∧ ok₂) (bs₁ ++ bs₂) := by
  constructor
  · rintro ⟨hok₁, hok₂⟩ out
    rw [bind_ok (h₁.done hok₁ out), h₂.done hok₂, List.append_assoc]
  · intro hno out
    by_cases hok₁ : ok₁
    · obtain ⟨e, he⟩ := h₂.fails (fun h => hno ⟨hok₁, h⟩) (out ++ bs₁)
      exact ⟨e, by rw [bind_ok (h₁.done hok₁ out), he]⟩
    · obtain ⟨e, he⟩ := h₁.fails hok₁ out
      exact ⟨e, bind_error he⟩

theorem writes_putEach {w : α → Stream Unit} {ok : α → Prop} {bs : α → List UInt8} :
    ∀ xs : List α, (∀ x ∈ xs, Writes (w x) (ok x) (bs x)) →
      Writes (putEach w xs) (∀ x ∈ xs, ok x) (xs.flatMap bs) := by
  intro xs
  induction xs with
  | nil =>
    intro _
    exact ⟨fun _ => writes_pure.done trivial, fun h => absurd (by simp) h⟩
  | cons x xs ih =>
    intro h
    have hx := h x (List.mem_cons_self ..)
    have hxs := ih fun y hy => h y (List.mem_cons_of_mem _ hy)
    have hseq := hx.bind hxs
    rw [List.flatMap_cons]
    refine ⟨fun hok => hseq.done ⟨hok x (List.mem_cons_self ..), fun y hy => hok y (List.mem_cons_of_mem _ hy)⟩,
      fun hno => hseq.fails fun hok => hno fun y hy => ?_⟩
    rcases List.mem_cons.1 hy with rfl | hy
    · exact hok.1
    · exact hok.2 y hy

end Writers

/-! ### Readers -/

section Readers

variable {r : Stream α} {bs bs' : List UInt8} {a : α}

theorem reads_pure (a : α) : Reads (pure a) [] a := fun _ => rfl

theorem Reads.bind {k : α → Stream β} {b : β} (h : Reads r bs a) (h' : Reads (k a) bs' b) :
    Reads (r >>= k) (bs ++ bs') b := by
  intro rest
  rw [List.append_assoc, bind_ok (h _)]
  exact h' rest

theorem reads_take (bs : List UInt8) {n : ℕ} (hn : bs.length = n) (e : String) :
    Reads (take n e) bs bs := by
  intro rest
  unfold take
  subst hn
  rw [if_pos (by rw [List.length_append]; omega), List.take_left, List.drop_left]

theorem reads_next (b : UInt8) (e : String) : Reads (next e) [b] b := fun _ => rfl

theorem reads_ensure {c : Prop} [Decidable c] (h : c) (e : String) : Reads (ensure c e) [] () := by
  intro rest
  unfold ensure
  rw [if_pos h]
  rfl

/-- Bytes that are there are read. -/
theorem Reads.ifMore (h : Reads r bs a) (hbs : bs ≠ []) (d : α) : Reads (ifMore d r) bs a := by
  intro rest
  unfold Codec.ifMore
  rw [if_neg (by simp [hbs])]
  exact h rest

theorem reads_takeEach {g : α → β} {r : Stream β} {bs : α → List UInt8} :
    ∀ xs : List α, (∀ x ∈ xs, Reads r (bs x) (g x)) →
      Reads (takeEach r xs.length) (xs.flatMap bs) (xs.map g) := by
  intro xs
  induction xs with
  | nil =>
    intro _
    exact reads_pure []
  | cons x xs ih =>
    intro h
    rw [List.flatMap_cons]
    refine (h x (List.mem_cons_self ..)).bind ?_
    have hxs := ih fun y hy => h y (List.mem_cons_of_mem _ hy)
    have hend := hxs.bind (k := fun ys => pure (g x :: ys)) (reads_pure (g x :: xs.map g))
    rwa [List.append_nil] at hend

end Readers

/-! ### Codecs -/

section Codecs

variable {w w₁ w₂ : Stream Unit} {ok ok₁ ok₂ : Prop} {bs bs₁ bs₂ : List UInt8} {r : Stream α}
  {k : α → Stream β} {a : α} {b : β}

theorem Codes.bind (h₁ : Codes w₁ ok₁ bs₁ r a) (h₂ : Codes w₂ ok₂ bs₂ (k a) b) :
    Codes (w₁ >>= fun _ => w₂) (ok₁ ∧ ok₂) (bs₁ ++ bs₂) (r >>= k) b :=
  ⟨h₁.writes.bind h₂.writes, fun h => (h₁.reads h.1).bind (h₂.reads h.2)⟩

/-- The last field: the reader returns what it has built. -/
theorem Codes.last (h : Codes w ok bs r a) {k : α → Stream β} {b : β} (hk : k a = pure b) :
    Codes w ok bs (r >>= k) b := by
  refine ⟨h.writes, fun hok => ?_⟩
  have hread := (h.reads hok).bind (k := k) (by rw [hk]; exact reads_pure b)
  rwa [List.append_nil] at hread

/-- A check of the writer: what follows may rely on it. -/
theorem Codes.check {c : Prop} [Decidable c] (e : String) (h : c → Codes w ok bs r a) :
    Codes (ensure c e >>= fun _ => w) (c ∧ ok) bs r a := by
  refine ⟨⟨fun hok => ?_, fun hno out => ?_⟩, fun hok => (h hok.1).reads hok.2⟩
  · exact ((writes_ensure c e).bind (h hok.1).writes).done hok
  · by_cases hc : c
    · exact ((writes_ensure c e).bind (h hc).writes).fails hno out
    · obtain ⟨e', he⟩ := (writes_ensure c e).fails hc out
      exact ⟨e', bind_error he⟩

/-- A check of the reader, which what was written passes. -/
theorem Codes.checked {c : Prop} [Decidable c] (hc : c) (e : String) {k : Unit → Stream α}
    (h : Codes w ok bs (k ()) a) : Codes w ok bs (ensure c e >>= k) a :=
  ⟨h.writes, fun hok => (reads_ensure hc e).bind (h.reads hok)⟩

theorem Codes.map (h : Codes w ok bs r a) (f : α → β) : Codes w ok bs (f <$> r) (f a) := by
  rw [map_eq_pure_bind]
  exact h.last rfl

theorem Codes.congr (h : Codes w ok₁ bs r a) (hok : ok₁ ↔ ok₂) : Codes w ok₂ bs r a :=
  ⟨⟨fun h₂ => h.writes.done (hok.2 h₂), fun h₂ => h.writes.fails fun h₁ => h₂ (hok.1 h₁)⟩,
    fun h₂ => h.reads (hok.2 h₂)⟩

theorem Codes.ifMore (h : Codes w ok bs r a) (hbs : bs ≠ []) (d : α) :
    Codes w ok bs (ifMore d r) a :=
  ⟨h.writes, fun hok => (h.reads hok).ifMore hbs d⟩

theorem codes_byte (v : UInt8) (e : String) : Codes (put [v]) True [v] (next e) v :=
  ⟨writes_put _, fun _ => reads_next v e⟩

theorem codes_bytes {n : ℕ} {v : List UInt8} (hn : v.length = n) (e : String) :
    Codes (put v) True v (take n e) v :=
  ⟨writes_put _, fun _ => reads_take v hn e⟩

theorem codes_each {g : α → β} {w : α → Stream Unit} {ok : α → Prop} {bs : α → List UInt8}
    {r : Stream β} (xs : List α) (h : ∀ x ∈ xs, Codes (w x) (ok x) (bs x) r (g x)) :
    Codes (putEach w xs) (∀ x ∈ xs, ok x) (xs.flatMap bs) (takeEach r xs.length) (xs.map g) :=
  ⟨writes_putEach xs fun x hx => (h x hx).writes,
    fun hok => reads_takeEach xs fun x hx => (h x hx).reads (hok x hx)⟩

end Codecs

/-! ### Accepted values -/

section Accepted

variable {r : Stream α} {k : α → Stream β} {P : α → Prop} {Q : β → Prop}

theorem produces_pure {a : α} (h : P a) : Produces (pure a) P := by
  intro buf b rest hb
  cases hb
  exact h

theorem Produces.bind (h : Produces r P) (hk : ∀ a, P a → Produces (k a) Q) :
    Produces (r >>= k) Q := by
  intro buf b rest hb
  obtain ⟨a, s, ha, hb'⟩ := bind_inv hb
  exact hk a (h _ _ _ ha) _ _ _ hb'

/-- A field about which nothing is to be shown. -/
theorem produces_skip (hk : ∀ a, Produces (k a) Q) : Produces (r >>= k) Q :=
  Produces.bind (P := fun _ => True) (fun _ _ _ _ => trivial) fun a _ => hk a

theorem produces_take (n : ℕ) (e : String) : Produces (take n e) fun bs => bs.length = n := by
  intro buf bs rest h
  unfold take at h
  split at h
  · cases h
    rw [List.length_take]
    omega
  · cases h

theorem produces_ensure (c : Prop) [Decidable c] (e : String) : Produces (ensure c e) fun _ => c := by
  intro buf _ rest h
  unfold ensure at h
  split at h
  · assumption
  · cases h

theorem Produces.ifMore (h : Produces r P) {d : α} (hd : P d) : Produces (ifMore d r) P := by
  intro buf a rest ha
  unfold Codec.ifMore at ha
  split at ha
  · cases ha
    exact hd
  · exact h _ _ _ ha

theorem Produces.map {f : α → β} (h : Produces r P) (hf : ∀ a, P a → Q (f a)) :
    Produces (f <$> r) Q := by
  rw [map_eq_pure_bind]
  exact h.bind fun a ha => produces_pure (hf a ha)

theorem produces_takeEach (h : Produces r P) :
    ∀ n, Produces (takeEach r n) fun xs => xs.length = n ∧ ∀ x ∈ xs, P x := by
  intro n
  induction n with
  | zero => exact produces_pure ⟨rfl, by simp⟩
  | succ n ih =>
    refine h.bind fun x hx => ih.bind fun xs hxs => produces_pure ⟨?_, ?_⟩
    · rw [List.length_cons, hxs.1]
    · intro y hy
      rcases List.mem_cons.1 hy with rfl | hy
      · exact hx
      · exact hxs.2 y hy

end Accepted

/-! ### Cut payloads -/

/-- Bytes behind what `r` accepts are left over and change nothing else. -/
def Stable (r : Stream α) : Prop :=
  ∀ buf a rest, r buf = .ok (a, rest) → ∀ more, r (buf ++ more) = .ok (a, rest ++ more)

section Cut

variable {r : Stream α} {k : α → Stream β} {a : α} {bs bs' p : List UInt8}

theorem stable_pure (a : α) : Stable (pure a : Stream α) := by
  intro buf b rest h more
  cases h
  rfl

theorem Stable.bind (h : Stable r) (hk : ∀ a, Stable (k a)) : Stable (r >>= k) := by
  intro buf b rest hb more
  obtain ⟨a, s, ha, hb'⟩ := bind_inv hb
  rw [bind_ok (h _ _ _ ha more)]
  exact hk a _ _ _ hb' more

theorem Stable.map (h : Stable r) (f : α → β) : Stable (f <$> r) := by
  rw [map_eq_pure_bind]
  exact h.bind fun a => stable_pure (f a)

theorem stable_take (n : ℕ) (e : String) : Stable (take n e) := by
  intro buf b rest h more
  unfold take at h ⊢
  split at h
  · rename_i hn
    cases h
    rw [if_pos (by rw [List.length_append]; omega), List.take_append_of_le_length hn,
      List.drop_append_of_le_length hn]
  · cases h

theorem stable_next (e : String) : Stable (next e) := by
  intro buf b rest h more
  cases buf with
  | nil => cases h
  | cons c buf =>
    cases h
    rfl

theorem stable_ensure (c : Prop) [Decidable c] (e : String) : Stable (ensure c e) := by
  intro buf b rest h more
  unfold ensure at h ⊢
  split at h
  · cases h
    rename_i hc
    rw [if_pos hc]
    rfl
  · cases h

theorem Stable.takeEach (h : Stable r) : ∀ n, Stable (takeEach r n) := by
  intro n
  induction n with
  | zero => exact stable_pure []
  | succ n ih => exact h.bind fun x => ih.bind fun xs => stable_pure (x :: xs)

/-- A strict prefix of what a stable reader reads is rejected: had the reader accepted it,
the missing bytes would be left over from the whole. -/
theorem Stable.rejects (h : Stable r) (hr : Reads r bs a) {q : List UInt8} (hq : q ≠ [])
    (hbs : bs = p ++ q) : ∃ e, r p = .error e := by
  cases hp : r p with
  | error e => exact ⟨e, rfl⟩
  | ok out =>
    obtain ⟨a', rest⟩ := out
    have hwhole := hr []
    rw [List.append_nil, hbs, h _ _ _ hp q] at hwhole
    injection hwhole with hwhole
    have hrest : rest ++ q = [] := congrArg Prod.snd hwhole
    exact absurd (List.append_eq_nil_iff.1 hrest).2 hq

/-- What `r` makes of a cut of `bs`, by the number of bytes cut off: a value, or nothing
where it rejects the cut. -/
def Cuts (r : Stream α) (bs : List UInt8) (out : ℕ → Option α) : Prop :=
  ∀ p q, q ≠ [] → bs = p ++ q → match out q.length with
    | some a => r p = .ok (a, [])
    | none => ∃ e, r p = .error e

theorem cuts_nil (r : Stream α) (out : ℕ → Option α) : Cuts r [] out := by
  intro p q hq hbs
  exact absurd (List.append_eq_nil_iff.1 hbs.symm).2 hq

theorem Cuts.map {out : ℕ → Option α} (h : Cuts r bs out) (f : α → β) :
    Cuts (f <$> r) bs fun n => (out n).map f := by
  intro p q hq hbs
  have hp := h p q hq hbs
  rw [map_eq_pure_bind]
  beta_reduce
  cases hout : out q.length with
  | none =>
    rw [hout] at hp
    obtain ⟨e, he⟩ := hp
    exact ⟨e, bind_error he⟩
  | some a =>
    rw [hout] at hp
    exact bind_ok hp

/-- A cut of two parts falls into the first or into the second. -/
theorem cut_cases {q : List UInt8} (hcut : bs ++ bs' = p ++ q) :
    (∃ q', q' ≠ [] ∧ bs = p ++ q' ∧ q.length = q'.length + bs'.length) ∨
      ∃ p', p = bs ++ p' ∧ bs' = p' ++ q := by
  rcases List.append_eq_append_iff.1 hcut with ⟨p', hp, hbs'⟩ | ⟨q', hbs, hq⟩
  · exact .inr ⟨p', hp, hbs'⟩
  · by_cases hq' : q' = []
    · subst hq'
      rw [List.append_nil] at hbs
      exact .inr ⟨[], by rw [List.append_nil, hbs], by simpa using hq.symm⟩
    · exact .inl ⟨q', hq', hbs, by rw [hq, List.length_append]⟩

/-- A field that must be there. -/
theorem Cuts.bind {out : ℕ → Option β} (h : Stable r) (hr : Reads r bs a) (hk : Cuts (k a) bs' out)
    (hout : ∀ n, bs'.length < n → out n = none) : Cuts (r >>= k) (bs ++ bs') out := by
  intro p q hq hcut
  rcases cut_cases hcut with ⟨q', hq', hbs, hlen⟩ | ⟨p', rfl, hbs'⟩
  · have hpos := List.length_pos_of_ne_nil hq'
    obtain ⟨e, he⟩ := h.rejects hr hq' hbs
    rw [hout q.length (by omega)]
    exact ⟨e, bind_error he⟩
  · rw [bind_ok (hr p')]
    exact hk p' q hq hbs'

/-- An optional field: the cut right before it gives the default. -/
theorem Cuts.optional {out : ℕ → Option β} {d : α} {b : β} (h : Stable r) (hr : Reads r bs a)
    (hne : bs ≠ []) (hd : k d [] = .ok (b, [])) (hk : Cuts (k a) bs' out)
    (hout : ∀ n, bs'.length < n → out n = none) :
    Cuts (ifMore d r >>= k) (bs ++ bs') fun n => if n = (bs ++ bs').length then some b else out n := by
  intro p q hq hcut
  have hpos := List.length_pos_of_ne_nil hne
  have hwhole : (bs ++ bs').length = p.length + q.length := by rw [hcut, List.length_append]
  have hparts : (bs ++ bs').length = bs.length + bs'.length := List.length_append
  beta_reduce
  rcases cut_cases hcut with ⟨q', hq', hbs, hlen⟩ | ⟨p', rfl, hbs'⟩
  · have hpos' := List.length_pos_of_ne_nil hq'
    by_cases hp : p = []
    · subst hp
      rw [List.length_nil] at hwhole
      rw [if_pos (by omega)]
      have hmore : ifMore d r [] = .ok (d, []) := rfl
      show (ifMore d r >>= k) [] = _
      rw [bind_ok hmore, hd]
    · have hplen := List.length_pos_of_ne_nil hp
      obtain ⟨e, he⟩ := h.rejects hr hq' hbs
      have hmore : ifMore d r p = .error e := by
        unfold ifMore
        rw [if_neg hp, he]
      rw [if_neg (by omega), hout q.length (by omega)]
      exact ⟨e, bind_error hmore⟩
  · have hplen : (bs ++ p').length = bs.length + p'.length := List.length_append
    rw [if_neg (by omega), bind_ok (hr.ifMore hne d p')]
    exact hk p' q hq hbs'

end Cut

/-! ### Little-endian words -/

/-- Byte `i` of a word. -/
def leByte {w : ℕ} (v : BitVec w) (i : ℕ) : BitVec 8 := (v >>> (8 * i)).setWidth 8

/-- The word assembled from the first `n` of some bytes, lowest first. -/
def ofLe (w : ℕ) (byte : ℕ → BitVec 8) : ℕ → BitVec w
  | 0 => 0
  | n + 1 => ofLe w byte n ||| ((byte n).setWidth w <<< (8 * n))

theorem getLsbD_ofLe (w : ℕ) (byte : ℕ → BitVec 8) (n j : ℕ) :
    (ofLe w byte n).getLsbD j =
      (decide (j < 8 * n) && decide (j < w) && (byte (j / 8)).getLsbD (j % 8)) := by
  induction n with
  | zero => simp [ofLe]
  | succ n ih =>
    rw [ofLe, BitVec.getLsbD_or, ih, BitVec.getLsbD_shiftLeft, BitVec.getLsbD_setWidth]
    by_cases hlo : j < 8 * n
    · simp [hlo, show j < 8 * (n + 1) by omega]
    · by_cases hhi : j < 8 * (n + 1)
      · have hdiv : j / 8 = n := by omega
        have hmod : j % 8 = j - 8 * n := by omega
        simp only [hlo, hhi, hdiv, hmod, decide_false, decide_true, Bool.false_and, Bool.true_and,
          Bool.false_or, Bool.not_false, Bool.and_true]
        by_cases hw : j < w
        · simp [hw, show j - 8 * n < w by omega]
        · simp [hw]
      · have hout : (byte n).getLsbD (j - 8 * n) = false := BitVec.getLsbD_of_ge _ _ (by omega)
        simp [hlo, hhi, hout]

/-- The bytes of a word, reassembled. -/
theorem ofLe_leByte {w n : ℕ} (v : BitVec w) (h : w ≤ 8 * n) : ofLe w (leByte v) n = v := by
  apply BitVec.eq_of_getLsbD_eq
  intro j hj
  rw [getLsbD_ofLe, leByte, BitVec.getLsbD_setWidth, BitVec.getLsbD_ushiftRight]
  have hsplit : 8 * (j / 8) + j % 8 = j := by omega
  simp [hsplit, hj, show j < 8 * n by omega, show j % 8 < 8 by omega]

end Codec
