import FastClone.Lib.Numerals
import FastClone.Proof.Endpoint
import FastClone.Spec.Links

/-!
# Same subnet (`SameSubnet`)

The two parsers are compared with what the literals denote (`Denotes`): `parseIPv4Bytes_iff`, `parseIPv6Bytes_iff`.
An address is a number, and a prefix of `n` bits is what is left of it when the others are divided away
(`samePrefixBits_iff`).
-/

namespace FastClone.Links

open FastClone.Endpoint Numerals

/-! ### What the literals denote -/

inductive Family where
  | v4
  | v6
  deriving DecidableEq, Repr

def Family.width : Family → ℕ
  | .v4 => 32
  | .v6 => 128

/-- The prefix length, or the default of the family if there is none. -/
def Family.bits (fam : Family) (prefixLen : ℤ) : ℕ :=
  if 0 < prefixLen ∧ prefixLen ≤ fam.width then prefixLen.toNat
  else
    match fam with
    | .v4 => 24
    | .v6 => 64

/-- The number that a decimal group stands for. -/
def decimal (g : Text) : ℕ := numeral 10 (g.map fun c => c.toNat - '0'.toNat)

/-- One to three digits, up to 255. -/
def DecGroup (g : Text) : Prop := g ≠ [] ∧ g.length ≤ 3 ∧ (∀ c ∈ g, c.isDigit = true) ∧ decimal g ≤ 255

/-- The number that a hexadecimal group stands for. -/
def hexadecimal (g : Text) : ℕ := numeral 16 (g.map fun c => (hexValue c).getD 0)

def dots (groups : List Text) : Text := List.intercalate ['.'] groups

/-- The addresses that are written as texts: four decimal groups, eight hexadecimal ones, or fewer around a `::` that
stands for the zero groups that are missing. -/
inductive Denotes : Family → Text → ℕ → Prop
  | v4 (gs : List Text) : gs.length = 4 → (∀ g ∈ gs, DecGroup g) →
      Denotes .v4 (dots gs) (numeral 256 (gs.map decimal))
  | full (gs : List Text) : gs.length = 8 → (∀ g ∈ gs, HexGroup g) →
      Denotes .v6 (colons gs) (numeral 65536 (gs.map hexadecimal))
  | short (ls rs : List Text) : ls.length + rs.length ≤ 7 → (∀ g ∈ ls ++ rs, HexGroup g) →
      Denotes .v6 (colons ls ++ [':', ':'] ++ colons rs)
        (numeral 65536 (ls.map hexadecimal ++ List.replicate (8 - ls.length - rs.length) 0 ++ rs.map hexadecimal))

/-- The number that the bytes of an address stand for. -/
def address (bytes : List UInt8) : ℕ := numeral 256 (bytes.map UInt8.toNat)

/-! ### Four decimal groups -/

theorem decimal_snoc (g : Text) (c : Char) : decimal (g ++ [c]) = decimal g * 10 + (c.toNat - '0'.toNat) := by
  unfold decimal
  rw [List.map_append, List.map_singleton, numeral_snoc]

/-- What has been read of an IPv4 address: the groups that are complete, and the next one as far as it goes. -/
structure Reading (gs : List Text) (g : Text) : Prop where
  few : gs.length ≤ 3
  complete : ∀ g ∈ gs, DecGroup g
  short : g.length ≤ 3
  digits : ∀ c ∈ g, c.isDigit = true
  small : decimal g ≤ 255

/-- The text of what has been read. -/
def readText (gs : List Text) (g : Text) : Text := gs.flatMap (fun g => g ++ ['.']) ++ g

/-- The state of the loop behind what has been read. -/
def octets (gs : List Text) (g : Text) : Octets := ⟨gs.map fun g => UInt8.ofNat (decimal g), g.length, decimal g⟩

theorem readText_snoc (gs : List Text) (g : Text) (c : Char) : readText gs (g ++ [c]) = readText gs g ++ [c] := by
  simp [readText]

theorem readText_dot (gs : List Text) (g : Text) : readText (gs ++ [g]) [] = readText gs g ++ ['.'] := by
  simp [readText]

/-- A dot completes a group. -/
theorem next_dot (gs : List Text) (g : Text) : (octets gs g).next '.' =
    if g = [] ∨ gs.length ≥ 3 then none else some (octets (gs ++ [g]) []) := by
  simp [Octets.next, octets, decimal]

/-- A digit makes the next group longer. -/
theorem next_digit {c : Char} (hc : c ≠ '.') (gs : List Text) (g : Text) : (octets gs g).next c =
    if c.isDigit = true ∧ g.length + 1 ≤ 3 ∧ decimal (g ++ [c]) ≤ 255 then some (octets gs (g ++ [c])) else none := by
  unfold Octets.next octets
  rw [if_neg hc]
  dsimp only
  rw [← decimal_snoc, List.length_append, List.length_singleton]
  by_cases hdigit : c.isDigit = true
  · rw [if_pos hdigit]
    by_cases hbad : g.length + 1 > 3 ∨ decimal (g ++ [c]) > 255
    · rw [if_pos hbad, if_neg (by omega)]
    · rw [if_neg hbad, if_pos ⟨hdigit, by omega⟩]
  · rw [if_neg hdigit, if_neg fun h => hdigit h.1]

theorem foldlM_snoc {α β : Type} (f : β → α → Option β) (b : β) (as : List α) (a : α) :
    (as ++ [a]).foldlM f b = (as.foldlM f b).bind fun b' => f b' a := by
  simp [List.foldlM_append]

/-- What has been read was there before the last character. -/
theorem Reading.of_snoc {gs : List Text} {g : Text} {c : Char} (h : Reading gs (g ++ [c])) : Reading gs g := by
  have hshort := h.short
  have hsmall := h.small
  rw [List.length_append, List.length_singleton] at hshort
  rw [decimal_snoc] at hsmall
  exact ⟨h.few, h.complete, by omega, fun d hd => h.digits d (List.mem_append_left _ hd), by omega⟩

/-- **The run.** What has been read is accepted exactly if it is complete groups and the beginning of another. -/
theorem foldlM_next (s : Text) (o : Octets) :
    s.foldlM Octets.next {} = some o ↔ ∃ gs g, Reading gs g ∧ readText gs g = s ∧ o = octets gs g := by
  induction s using List.reverseRecOn generalizing o with
  | nil =>
    constructor
    · intro h
      cases h
      exact ⟨[], [], ⟨by simp, by simp, by simp, by simp, by simp [decimal]⟩, rfl, rfl⟩
    · rintro ⟨gs, g, -, htext, rfl⟩
      obtain ⟨hgs, rfl⟩ := List.append_eq_nil_iff.1 htext
      cases gs with
      | nil => rfl
      | cons g gs => simp at hgs
  | append_singleton s c ih =>
    rw [foldlM_snoc]
    constructor
    · intro h
      obtain ⟨o₁, hs, hnext⟩ := Option.bind_eq_some_iff.1 h
      obtain ⟨gs, g, hreading, rfl, rfl⟩ := (ih o₁).1 hs
      -- a dot completes the group, and anything else must be one more digit of it
      by_cases hdot : c = '.'
      · subst hdot
        rw [next_dot] at hnext
        split at hnext
        · nomatch hnext
        · cases hnext
          have hgroup : DecGroup g := ⟨by tauto, hreading.short, hreading.digits, hreading.small⟩
          have hcomplete : ∀ g' ∈ gs ++ [g], DecGroup g' :=
            List.forall_mem_append.2 ⟨hreading.complete, List.forall_mem_singleton.2 hgroup⟩
          refine ⟨gs ++ [g], [], ⟨?_, hcomplete, by simp, by simp, by simp [decimal]⟩, readText_dot gs g, rfl⟩
          rw [List.length_append, List.length_singleton]
          omega
      · rw [next_digit hdot] at hnext
        split at hnext
        · cases hnext
          obtain ⟨hdigit, hshort, hsmall⟩ := ‹_ ∧ _ ∧ _›
          have hdigits : ∀ d ∈ g ++ [c], d.isDigit = true :=
            List.forall_mem_append.2 ⟨hreading.digits, List.forall_mem_singleton.2 hdigit⟩
          exact ⟨gs, g ++ [c], ⟨hreading.few, hreading.complete, by simpa using hshort, hdigits, hsmall⟩,
            readText_snoc gs g c, rfl⟩
        · nomatch hnext
    · rintro ⟨gs, g, hreading, htext, rfl⟩
      rcases List.eq_nil_or_concat g with rfl | ⟨g, d, rfl⟩
      · -- the last character is the dot behind the last complete group
        rcases List.eq_nil_or_concat gs with rfl | ⟨gs, g, rfl⟩
        · simp [readText] at htext
        · rw [List.concat_eq_append] at hreading htext ⊢
          rw [readText_dot] at htext
          obtain ⟨rfl, hc⟩ := List.append_inj' htext rfl
          cases hc
          obtain ⟨hne, hshort, hdigits, hsmall⟩ := hreading.complete g (by simp)
          have hfew : gs.length < 3 := by simpa using hreading.few
          have hprev : Reading gs g := ⟨hfew.le, fun g' hg' => hreading.complete g' (by simp [hg']), hshort, hdigits, hsmall⟩
          rw [(ih _).2 ⟨gs, g, hprev, rfl, rfl⟩, Option.bind_some, next_dot, if_neg]
          exact not_or.2 ⟨hne, Nat.not_le.2 hfew⟩
      · rw [List.concat_eq_append] at hreading htext ⊢
        rw [readText_snoc] at htext
        obtain ⟨rfl, hc⟩ := List.append_inj' htext rfl
        cases hc
        have hdigit : c.isDigit = true := hreading.digits c (by simp)
        have hdot : c ≠ '.' := by
          rintro rfl
          nomatch hdigit
        rw [(ih _).2 ⟨gs, g, hreading.of_snoc, rfl, rfl⟩, Option.bind_some, next_digit hdot, if_pos]
        exact ⟨hdigit, by simpa using hreading.short, hreading.small⟩

/-- Groups with a character between them: it stands behind each but the last. -/
theorem intercalate_snoc (c : Char) (gs : List Text) (g : Text) :
    List.intercalate [c] (gs ++ [g]) = gs.flatMap (fun g => g ++ [c]) ++ g := by
  induction gs with
  | nil => simp
  | cons h gs ih =>
    rw [List.cons_append, List.intercalate_cons_of_ne_nil (by simp), ih]
    simp

theorem readText_eq_dots (gs : List Text) (g : Text) : readText gs g = dots (gs ++ [g]) :=
  (intercalate_snoc '.' gs g).symm

theorem toNat_lt_of_mem (bytes : List UInt8) : ∀ d ∈ bytes.map UInt8.toNat, d < 256 := by
  intro d hd
  obtain ⟨b, -, rfl⟩ := List.mem_map.1 hd
  exact b.toNat_lt

/-- Bytes stand for one number only. -/
theorem address_inj {xs ys : List UInt8} (hlen : xs.length = ys.length) : address xs = address ys ↔ xs = ys := by
  unfold address
  rw [numeral_inj (by omega) (by simpa using hlen) (toNat_lt_of_mem xs) (toNat_lt_of_mem ys)]
  exact List.map_inj_right fun _ _ => UInt8.toNat_inj.1

/-- The bytes of complete groups. -/
theorem address_groups {gs : List Text} (h : ∀ g ∈ gs, DecGroup g) :
    address (gs.map fun g => UInt8.ofNat (decimal g)) = numeral 256 (gs.map decimal) := by
  unfold address
  rw [List.map_map]
  congr 1
  refine List.map_congr_left fun g hg => ?_
  have hsmall := (h g hg).2.2.2
  change (UInt8.ofNat (decimal g)).toNat = decimal g
  rw [UInt8.toNat_ofNat']
  omega

theorem parseIPv4Bytes_eq_some (s : Text) (out : List UInt8) : parseIPv4Bytes s = some out ↔
    ∃ gs : List Text, gs.length = 4 ∧ (∀ g ∈ gs, DecGroup g) ∧ s = dots gs ∧
      out = gs.map fun g => UInt8.ofNat (decimal g) := by
  unfold parseIPv4Bytes
  constructor
  · intro h
    obtain ⟨o, hs, h⟩ := Option.bind_eq_some_iff.1 h
    obtain ⟨gs, g, hreading, rfl, rfl⟩ := (foldlM_next s o).1 hs
    split_ifs at h with hbad
    · cases h
      have hne : g ≠ [] ∧ gs.length = 3 := by simpa [octets] using hbad
      have hgroup : DecGroup g := ⟨hne.1, hreading.short, hreading.digits, hreading.small⟩
      have hgroups : ∀ g' ∈ gs ++ [g], DecGroup g' :=
        List.forall_mem_append.2 ⟨hreading.complete, List.forall_mem_singleton.2 hgroup⟩
      exact ⟨gs ++ [g], by simp [hne.2], hgroups, readText_eq_dots gs g, by simp [octets]⟩
  · rintro ⟨gs, hlen, hgroups, rfl, rfl⟩
    rcases List.eq_nil_or_concat gs with rfl | ⟨gs, g, rfl⟩
    · nomatch hlen
    · rw [List.concat_eq_append] at hlen hgroups ⊢
      have hthree : gs.length = 3 := by simpa using hlen
      obtain ⟨hne, hshort, hdigits, hsmall⟩ := hgroups g (by simp)
      have hreading : Reading gs g :=
        ⟨hthree.le, fun g' hg' => hgroups g' (by simp [hg']), hshort, hdigits, hsmall⟩
      rw [← readText_eq_dots, (foldlM_next _ _).2 ⟨gs, g, hreading, rfl, rfl⟩]
      simp [octets, hne, hthree]

/-! ### Hexadecimal groups -/

theorem hexValue_isSome (c : Char) : (hexValue c).isSome = isHexDigit c := by
  unfold hexValue isHexDigit
  rw [← Bool.decide_and, ← Bool.decide_and]
  split_ifs with hdigit hlower hupper <;> simp [*]

/-- The digits of a group, one after the other. -/
theorem foldlM_hexValue (g : Text) (val : ℕ) :
    g.foldlM (fun val c => (hexValue c).map fun d => val * 16 + d) 0 = some val ↔
      (∀ c ∈ g, isHexDigit c = true) ∧ val = hexadecimal g := by
  induction g using List.reverseRecOn generalizing val with
  | nil =>
    constructor
    · intro h
      cases h
      exact ⟨List.forall_mem_nil _, rfl⟩
    · rintro ⟨-, rfl⟩
      rfl
  | append_singleton g c ih =>
    have hsnoc : hexadecimal (g ++ [c]) = hexadecimal g * 16 + (hexValue c).getD 0 := by
      unfold hexadecimal
      rw [List.map_append, List.map_singleton, numeral_snoc]
    rw [foldlM_snoc, hsnoc]
    constructor
    · intro h
      obtain ⟨v, hg, h⟩ := Option.bind_eq_some_iff.1 h
      obtain ⟨d, hd, rfl⟩ := Option.map_eq_some_iff.1 h
      obtain ⟨hdigits, rfl⟩ := (ih v).1 hg
      have hc : isHexDigit c = true := by rw [← hexValue_isSome, hd, Option.isSome_some]
      refine ⟨List.forall_mem_append.2 ⟨hdigits, List.forall_mem_singleton.2 hc⟩, ?_⟩
      rw [hd, Option.getD_some]
    · rintro ⟨hdigits, rfl⟩
      have hc : (hexValue c).isSome = true := by
        rw [hexValue_isSome]
        exact hdigits c (by simp)
      obtain ⟨d, hd⟩ := Option.isSome_iff_exists.1 hc
      rw [(ih _).2 ⟨fun c' hc' => hdigits c' (List.mem_append_left _ hc'), rfl⟩, Option.bind_some, hd]
      simp

/-- Where all are read, each is read as what stands in its place. -/
theorem mapM_eq_some {α β : Type} {f : α → Option β} {P : α → Prop} {value : α → β}
    (h : ∀ a b, f a = some b ↔ P a ∧ b = value a) (as : List α) (bs : List β) :
    as.mapM f = some bs ↔ (∀ a ∈ as, P a) ∧ bs = as.map value := by
  induction as generalizing bs with
  | nil =>
    rw [List.mapM_nil]
    constructor
    · intro h
      cases h
      exact ⟨List.forall_mem_nil _, rfl⟩
    · rintro ⟨-, rfl⟩
      rfl
  | cons a as ih =>
    rw [List.mapM_cons]
    constructor
    · intro hs
      obtain ⟨b, ha, hs⟩ := Option.bind_eq_some_iff.1 hs
      obtain ⟨bs', has, hs⟩ := Option.bind_eq_some_iff.1 hs
      cases hs
      obtain ⟨hP, rfl⟩ := (h a b).1 ha
      obtain ⟨hPs, rfl⟩ := (ih bs').1 has
      exact ⟨List.forall_mem_cons.2 ⟨hP, hPs⟩, rfl⟩
    · rintro ⟨hP, rfl⟩
      rw [(h a _).2 ⟨hP a List.mem_cons_self, rfl⟩, (ih _).2 ⟨fun a' ha' => hP a' (List.mem_cons_of_mem _ ha'), rfl⟩]
      rfl

/-- A group is read as the number that it stands for. -/
theorem group_eq_some (tok : Text) (val : ℕ) :
    (if tok = [] ∨ tok.length > 4 then none
      else tok.foldlM (fun val c => (hexValue c).map fun d => val * 16 + d) 0) = some val ↔
    HexGroup tok ∧ val = hexadecimal tok := by
  unfold HexGroup
  split_ifs with hbad
  · constructor
    · intro h
      nomatch h
    · rintro ⟨⟨hne, hle, -⟩, -⟩
      rcases hbad with rfl | hgt
      · exact absurd rfl hne
      · omega
  · rw [foldlM_hexValue]
    have hgood : tok ≠ [] ∧ tok.length ≤ 4 := by simpa using hbad
    simp only [hgood.1, hgood.2, ne_eq, not_false_eq_true, true_and]

theorem colon_notMem_group {g : Text} (h : HexGroup g) : ':' ∉ g := by
  intro hc
  nomatch h.2.2 ':' hc

theorem colons_ne_nil {gs : List Text} (hne : gs ≠ []) (h : ∀ g ∈ gs, HexGroup g) : colons gs ≠ [] := by
  obtain ⟨g, rest, rfl⟩ := List.exists_cons_of_ne_nil hne
  obtain ⟨c, g', hg⟩ := List.exists_cons_of_ne_nil (h g List.mem_cons_self).1
  intro hnil
  unfold colons at hnil
  cases rest <;> simp [List.intercalate_cons_cons, hg] at hnil

/-- The groups of a part; an empty part has none. -/
theorem parseGroups_eq_some (part : Text) (ws : List ℕ) : parseGroups part = some ws ↔
    ∃ gs : List Text, (∀ g ∈ gs, HexGroup g) ∧ part = colons gs ∧ ws = gs.map hexadecimal := by
  unfold parseGroups
  split_ifs with hnil
  · subst hnil
    constructor
    · intro h
      cases h
      exact ⟨[], List.forall_mem_nil _, rfl, rfl⟩
    · rintro ⟨gs, hgroups, hpart, rfl⟩
      have hgs : gs = [] := by
        by_contra hne
        exact colons_ne_nil hne hgroups hpart.symm
      rw [hgs, List.map_nil]
  · rw [mapM_eq_some group_eq_some]
    constructor
    · rintro ⟨hgroups, rfl⟩
      exact ⟨_, hgroups, (List.intercalate_splitOn ':').symm, rfl⟩
    · rintro ⟨gs, hgroups, rfl, rfl⟩
      have hne : gs ≠ [] := by
        rintro rfl
        exact hnil rfl
      -- no group has a colon, so splitting at the colons gives the groups back
      have hsplit : (colons gs).splitOn ':' = gs :=
        List.splitOn_intercalate ':' (fun g hg => colon_notMem_group (hgroups g hg)) hne
      rw [hsplit]
      exact ⟨hgroups, rfl⟩

/-! ### The first `::` -/

theorem findDouble_cons (c : Char) (t : Text) : findDouble (c :: t) =
    if c = ':' ∧ t.head? = some ':' then some 0 else (findDouble t).map (· + 1) := by
  split_ifs with h
  · obtain ⟨rfl, ht⟩ := h
    cases t with
    | nil => nomatch ht
    | cons d t =>
      cases ht
      rfl
  · refine findDouble.eq_2 c t ?_
    rintro tail rfl rfl
    exact h ⟨rfl, rfl⟩

/-- A group is passed over. -/
theorem findDouble_group {g : Text} (h : ':' ∉ g) (t : Text) :
    findDouble (g ++ t) = (findDouble t).map fun i => g.length + i := by
  induction g with
  | nil => simp
  | cons c g ih =>
    rw [List.mem_cons, not_or] at h
    have hc : ¬ (c = ':' ∧ (g ++ t).head? = some ':') := fun hc => h.1 hc.1.symm
    rw [List.cons_append, findDouble_cons, if_neg hc, ih h.2, Option.map_map]
    congr 1
    funext i
    simp only [Function.comp, List.length_cons]
    omega

/-- Groups with one colon behind each are passed over, if no colon follows. -/
theorem findDouble_groups {gs : List Text} (h : ∀ g ∈ gs, HexGroup g) {t : Text} (ht : t.head? ≠ some ':') :
    findDouble (gs.flatMap (fun g => g ++ [':']) ++ t) =
      (findDouble t).map fun i => (gs.flatMap fun g => g ++ [':']).length + i := by
  induction gs with
  | nil => simp
  | cons g gs ih =>
    have hgroups : ∀ g ∈ gs, HexGroup g := fun g' hg' => h g' (List.mem_cons_of_mem _ hg')
    have hhead : (gs.flatMap (fun g => g ++ [':']) ++ t).head? ≠ some ':' := by
      cases gs with
      | nil => exact ht
      | cons g' gs =>
        -- the next group begins with a digit
        have hg' := hgroups g' List.mem_cons_self
        obtain ⟨c, rest, hcons⟩ := List.exists_cons_of_ne_nil hg'.1
        rw [List.flatMap_cons, hcons]
        intro hc
        cases hc
        exact colon_notMem_group hg' (hcons ▸ List.mem_cons_self)
    have htext : (g :: gs).flatMap (fun g => g ++ [':']) ++ t =
        g ++ ':' :: (gs.flatMap (fun g => g ++ [':']) ++ t) := by simp
    rw [htext, findDouble_group (colon_notMem_group (h g List.mem_cons_self)), findDouble_cons,
      if_neg fun hc => hhead hc.2, ih hgroups, Option.map_map, Option.map_map]
    congr 1
    funext i
    simp only [Function.comp, List.flatMap_cons, List.length_append, List.length_singleton]
    omega

/-- Groups with colons between them have no `::`. -/
theorem findDouble_colons {gs : List Text} (h : ∀ g ∈ gs, HexGroup g) : findDouble (colons gs) = none := by
  rcases List.eq_nil_or_concat gs with rfl | ⟨gs, g, rfl⟩
  · rfl
  · rw [List.concat_eq_append] at h ⊢
    have hg := colon_notMem_group (h g (by simp))
    have hhead : g.head? ≠ some ':' := fun hc => hg (List.mem_of_head? hc)
    have hnone : findDouble g = none := by
      have := findDouble_group hg []
      rwa [List.append_nil] at this
    unfold colons
    rw [intercalate_snoc, findDouble_groups (fun g' hg' => h g' (by simp [hg'])) hhead, hnone, Option.map_none]

/-- The `::` is the first one. -/
theorem findDouble_short {ls : List Text} (h : ∀ g ∈ ls, HexGroup g) (t : Text) :
    findDouble (colons ls ++ [':', ':'] ++ t) = some (colons ls).length := by
  rcases List.eq_nil_or_concat ls with rfl | ⟨ls, g, rfl⟩
  · rfl
  · rw [List.concat_eq_append] at h ⊢
    have hg := h g (by simp)
    have hhead : (g ++ ':' :: ':' :: t).head? ≠ some ':' := by
      rw [List.head?_append_of_ne_nil _ hg.1]
      exact fun hc => colon_notMem_group hg (List.mem_of_head? hc)
    have htext : colons (ls ++ [g]) ++ [':', ':'] ++ t = ls.flatMap (fun g => g ++ [':']) ++ (g ++ ':' :: ':' :: t) := by
      unfold colons
      rw [intercalate_snoc]
      simp
    have hzero : findDouble (':' :: ':' :: t) = some 0 := rfl
    rw [htext, findDouble_groups (fun g' hg' => h g' (by simp [hg'])) hhead, findDouble_group (colon_notMem_group hg),
      hzero]
    unfold colons
    rw [intercalate_snoc]
    simp

/-- What stands around the first `::`. -/
theorem findDouble_eq_some {s : Text} {dc : ℕ} (h : findDouble s = some dc) :
    s = s.take dc ++ [':', ':'] ++ s.drop (dc + 2) := by
  induction s generalizing dc with
  | nil => nomatch h
  | cons c s ih =>
    rw [findDouble_cons] at h
    split_ifs at h with hc
    · obtain ⟨rfl, hs⟩ := hc
      cases h
      cases s with
      | nil => nomatch hs
      | cons d s =>
        cases hs
        rfl
    · obtain ⟨dc', hdc', rfl⟩ := Option.map_eq_some_iff.1 h
      have hrest := ih hdc'
      simpa using hrest

/-! ### Eight hexadecimal groups -/

theorem hexValue_lt {c : Char} {d : ℕ} (h : hexValue c = some d) : d < 16 := by
  unfold hexValue at h
  split_ifs at h with hdigit hlower hupper
  · cases h
    have hle : c.toNat ≤ 57 := toNat_le_of_isDigit hdigit
    have hzero : '0'.toNat = 48 := rfl
    omega
  · cases h
    have hle : c.toNat ≤ 102 := UInt32.le_iff_toNat_le.1 hlower.2
    have ha : 'a'.toNat = 97 := rfl
    omega
  · cases h
    have hle : c.toNat ≤ 70 := UInt32.le_iff_toNat_le.1 hupper.2
    have hA : 'A'.toNat = 65 := rfl
    omega

/-- A group is a number of 16 bits. -/
theorem hexadecimal_lt {g : Text} (h : HexGroup g) : hexadecimal g < 65536 := by
  have hlt : hexadecimal g < 16 ^ (g.map fun c => (hexValue c).getD 0).length := by
    refine numeral_lt (by omega) fun d hd => ?_
    obtain ⟨c, -, rfl⟩ := List.mem_map.1 hd
    cases hc : hexValue c with
    | none => simp
    | some d => exact hexValue_lt hc
  rw [List.length_map] at hlt
  calc hexadecimal g < 16 ^ g.length := hlt
    _ ≤ 16 ^ 4 := Nat.pow_le_pow_right (by omega) h.2.1

/-- The eight words of an IPv6 address. -/
inductive Words : Text → List ℕ → Prop
  | full (gs : List Text) : gs.length = 8 → (∀ g ∈ gs, HexGroup g) → Words (colons gs) (gs.map hexadecimal)
  | short (ls rs : List Text) : ls.length + rs.length ≤ 7 → (∀ g ∈ ls ++ rs, HexGroup g) →
      Words (colons ls ++ [':', ':'] ++ colons rs)
        (ls.map hexadecimal ++ List.replicate (8 - ls.length - rs.length) 0 ++ rs.map hexadecimal)

theorem denotes_v6_iff (s : Text) (a : ℕ) : Denotes .v6 s a ↔ ∃ ws, Words s ws ∧ a = numeral 65536 ws := by
  constructor
  · intro h
    cases h with
    | full gs hlen hgroups => exact ⟨_, .full gs hlen hgroups, rfl⟩
    | short ls rs hlen hgroups => exact ⟨_, .short ls rs hlen hgroups, rfl⟩
  · rintro ⟨ws, h, rfl⟩
    cases h with
    | full gs hlen hgroups => exact .full gs hlen hgroups
    | short ls rs hlen hgroups => exact .short ls rs hlen hgroups

theorem Words.length_eq {s : Text} {ws : List ℕ} (h : Words s ws) : ws.length = 8 := by
  cases h with
  | full gs hlen hgroups => rw [List.length_map, hlen]
  | short ls rs hlen hgroups =>
    simp only [List.length_append, List.length_map, List.length_replicate]
    omega

theorem Words.lt {s : Text} {ws : List ℕ} (h : Words s ws) : ∀ w ∈ ws, w < 65536 := by
  intro w hw
  cases h with
  | full gs hlen hgroups =>
    obtain ⟨g, hg, rfl⟩ := List.mem_map.1 hw
    exact hexadecimal_lt (hgroups g hg)
  | short ls rs hlen hgroups =>
    rcases List.mem_append.1 hw with hw | hw
    · rcases List.mem_append.1 hw with hw | hw
      · obtain ⟨g, hg, rfl⟩ := List.mem_map.1 hw
        exact hexadecimal_lt (hgroups g (List.mem_append_left _ hg))
      · rw [List.eq_of_mem_replicate hw]
        omega
    · obtain ⟨g, hg, rfl⟩ := List.mem_map.1 hw
      exact hexadecimal_lt (hgroups g (List.mem_append_right _ hg))

/-- The bytes of the words. -/
def wordBytes (ws : List ℕ) : List UInt8 := ws.flatMap fun word => [UInt8.ofNat (word / 256), UInt8.ofNat (word % 256)]

theorem parseIPv6Bytes_eq_some (s : Text) (out : List UInt8) :
    parseIPv6Bytes s = some out ↔ ∃ ws, Words s ws ∧ out = wordBytes ws := by
  unfold parseIPv6Bytes
  constructor
  · intro h
    cases hdc : findDouble s with
    | none =>
      rw [hdc] at h
      obtain ⟨groups, hgroups, h⟩ := Option.bind_eq_some_iff.1 h
      obtain ⟨gs, hgs, rfl, rfl⟩ := (parseGroups_eq_some _ _).1 hgroups
      split_ifs at h with hlen
      · nomatch h
      · cases h
        exact ⟨_, .full gs (by simpa using hlen) hgs, rfl⟩
    | some dc =>
      rw [hdc] at h
      obtain ⟨heads, hheads, h⟩ := Option.bind_eq_some_iff.1 h
      obtain ⟨tails, htails, h⟩ := Option.bind_eq_some_iff.1 h
      obtain ⟨ls, hls, hhead, rfl⟩ := (parseGroups_eq_some _ _).1 hheads
      obtain ⟨rs, hrs, htail, rfl⟩ := (parseGroups_eq_some _ _).1 htails
      split_ifs at h with hlen
      · nomatch h
      · cases h
        rw [List.length_map, List.length_map] at hlen
        rw [findDouble_eq_some hdc, hhead, htail, List.length_map, List.length_map]
        exact ⟨_, .short ls rs (by omega) (List.forall_mem_append.2 ⟨hls, hrs⟩), rfl⟩
  · rintro ⟨ws, hwords, rfl⟩
    cases hwords with
    | full gs hlen hgroups =>
      have hparse := (parseGroups_eq_some (colons gs) _).2 ⟨gs, hgroups, rfl, rfl⟩
      rw [findDouble_colons hgroups]
      dsimp only
      rw [hparse]
      simp [hlen, wordBytes]
    | short ls rs hlen hgroups =>
      obtain ⟨hls, hrs⟩ := List.forall_mem_append.1 hgroups
      have hhead := (parseGroups_eq_some (colons ls) _).2 ⟨ls, hls, rfl, rfl⟩
      have htail := (parseGroups_eq_some (colons rs) _).2 ⟨rs, hrs, rfl, rfl⟩
      have htake : (colons ls ++ [':', ':'] ++ colons rs).take (colons ls).length = colons ls := by simp
      have hdrop : (colons ls ++ [':', ':'] ++ colons rs).drop ((colons ls).length + 2) = colons rs := by
        rw [List.append_assoc, List.drop_append]
        simp
      rw [findDouble_short hls]
      dsimp only
      rw [htake, hdrop, hhead, htail]
      simp [hlen, wordBytes]

/-- The bytes of the words are the digits of the same number. -/
theorem address_wordBytes {ws : List ℕ} (h : ∀ w ∈ ws, w < 65536) : address (wordBytes ws) = numeral 65536 ws := by
  have hbytes : (wordBytes ws).map UInt8.toNat = ws.flatMap fun w => [w / 256, w % 256] := by
    unfold wordBytes
    rw [List.map_flatMap]
    refine List.flatMap_congr fun w hw => ?_
    have hlt := h w hw
    simp only [List.map_cons, List.map_nil, UInt8.toNat_ofNat']
    have hhigh : w / 256 % 2 ^ 8 = w / 256 := Nat.mod_eq_of_lt (by omega)
    have hlow : w % 256 % 2 ^ 8 = w % 256 := Nat.mod_eq_of_lt (by omega)
    rw [hhigh, hlow]
  unfold address
  rw [hbytes]
  exact numeral_flatMap_sq 256 ws

/-! ### Both families -/

def Family.parse : Family → Text → Option (List UInt8)
  | .v4 => parseIPv4Bytes
  | .v6 => parseIPv6Bytes

theorem length_wordBytes (ws : List ℕ) : (wordBytes ws).length = 2 * ws.length := by
  simp [wordBytes, List.length_flatMap, Nat.mul_comm]

theorem parse_length {fam : Family} {s : Text} {out : List UInt8} (h : fam.parse s = some out) :
    8 * out.length = fam.width := by
  cases fam with
  | v4 =>
    obtain ⟨gs, hlen, -, -, rfl⟩ := (parseIPv4Bytes_eq_some s out).1 h
    rw [List.length_map, hlen]
    rfl
  | v6 =>
    obtain ⟨ws, hwords, rfl⟩ := (parseIPv6Bytes_eq_some s out).1 h
    rw [length_wordBytes, hwords.length_eq]
    rfl

/-- What a text denotes is what it is read as. -/
theorem denotes_iff (fam : Family) (s : Text) (a : ℕ) :
    Denotes fam s a ↔ ∃ out, fam.parse s = some out ∧ address out = a := by
  cases fam with
  | v4 =>
    constructor
    · intro h
      cases h with
      | v4 gs hlen hgroups =>
        exact ⟨_, (parseIPv4Bytes_eq_some _ _).2 ⟨gs, hlen, hgroups, rfl, rfl⟩, address_groups hgroups⟩
    · rintro ⟨out, hparse, rfl⟩
      obtain ⟨gs, hlen, hgroups, rfl, rfl⟩ := (parseIPv4Bytes_eq_some _ _).1 hparse
      rw [address_groups hgroups]
      exact .v4 gs hlen hgroups
  | v6 =>
    rw [denotes_v6_iff]
    constructor
    · rintro ⟨ws, hwords, rfl⟩
      exact ⟨_, (parseIPv6Bytes_eq_some _ _).2 ⟨ws, hwords, rfl⟩, address_wordBytes hwords.lt⟩
    · rintro ⟨out, hparse, rfl⟩
      obtain ⟨ws, hwords, rfl⟩ := (parseIPv6Bytes_eq_some _ _).1 hparse
      exact ⟨ws, hwords, address_wordBytes hwords.lt⟩

/-- **The parsers.** A text is accepted exactly if it denotes an address, and it is read as that one. -/
theorem parse_iff (fam : Family) (s : Text) (out : List UInt8) :
    fam.parse s = some out ↔ 8 * out.length = fam.width ∧ Denotes fam s (address out) := by
  rw [denotes_iff]
  constructor
  · intro h
    exact ⟨parse_length h, out, h, rfl⟩
  · rintro ⟨hlen, out', hparse, haddress⟩
    have hlen' : 8 * out'.length = fam.width := parse_length hparse
    -- of one length there are no two byte strings for an address
    have heq : out' = out := (address_inj (by omega)).1 haddress
    exact heq ▸ hparse

/-! ### The first bits -/

/-- The mask keeps the first `r` bits of a byte. -/
theorem and_mask (x : UInt8) {r : ℕ} (hr : r ≤ 8) :
    (x &&& UInt8.ofNat (0xFF <<< (8 - r))).toNat = x.toNat / 2 ^ (8 - r) * 2 ^ (8 - r) := by
  have hones : 0xFF = 2 ^ 8 - 1 := rfl
  rw [UInt8.toNat_and, UInt8.toNat_ofNat', ← Nat.shiftRight_eq_div_pow, ← Nat.shiftLeft_eq, hones]
  apply Nat.eq_of_testBit_eq
  intro i
  rw [Nat.testBit_and, Nat.testBit_mod_two_pow, Nat.testBit_shiftLeft, Nat.testBit_shiftLeft,
    Nat.testBit_two_pow_sub_one, Nat.testBit_shiftRight]
  by_cases hi : i < 8
  · by_cases hlow : i ≥ 8 - r
    · have hsum : 8 - r + (i - (8 - r)) = i := by omega
      have hbit : i - (8 - r) < 8 := by omega
      simp [hi, hlow, hsum, hbit]
    · simp [hlow]
  · -- a byte has no such bit
    have hx : x.toNat.testBit i = false := by
      refine Nat.testBit_lt_two_pow ?_
      calc x.toNat < 2 ^ 8 := x.toNat_lt
        _ ≤ 2 ^ i := Nat.pow_le_pow_right (by omega) (by omega)
    have hsum : 8 - r + (i - (8 - r)) = i := by omega
    simp [hx, hsum]

theorem and_mask_eq_iff (x y : UInt8) {r : ℕ} (hr : r ≤ 8) :
    (x &&& UInt8.ofNat (0xFF <<< (8 - r))) = (y &&& UInt8.ofNat (0xFF <<< (8 - r))) ↔
      x.toNat / 2 ^ (8 - r) = y.toNat / 2 ^ (8 - r) := by
  rw [← UInt8.toNat_inj, and_mask x hr, and_mask y hr]
  exact Nat.mul_left_inj (Nat.two_pow_pos _).ne'

/-- **The prefix.** The bytes agree on `bits` bits exactly if the numbers do. -/
theorem samePrefixBits_iff {a b : List UInt8} (hlen : a.length = b.length) {bits : ℕ} (hbits : bits ≤ 8 * a.length) :
    samePrefixBits a b bits = true ↔
      address a / 2 ^ (8 * a.length - bits) = address b / 2 ^ (8 * a.length - bits) := by
  have hsplit : 8 * (bits / 8) + bits % 8 = bits := Nat.div_add_mod bits 8
  have hmap : ∀ zs : List UInt8, (zs.map UInt8.toNat).length = zs.length := fun zs => List.length_map _
  have hiff := div_two_pow_iff (w := 8) (by omega) (by rw [hmap, hmap, hlen]) (toNat_lt_of_mem a)
    (toNat_lt_of_mem b) (k := bits / 8)
    (r := bits % 8) (by omega) (by rw [hmap]; omega)
  rw [hsplit, hmap] at hiff
  have htake : (a.map UInt8.toNat).take (bits / 8) = (b.map UInt8.toNat).take (bits / 8) ↔
      a.take (bits / 8) = b.take (bits / 8) := by
    rw [← List.map_take, ← List.map_take]
    exact List.map_inj_right fun _ _ => UInt8.toNat_inj.1
  have hget : ∀ zs : List UInt8, (zs.map UInt8.toNat).getD (bits / 8) 0 = (zs.getD (bits / 8) 0).toNat :=
    fun zs => List.getD_map zs 0 UInt8.toNat
  rw [htake, hget, hget, ← and_mask_eq_iff _ _ (by omega)] at hiff
  unfold samePrefixBits
  simp only [Bool.and_eq_true, Bool.or_eq_true, beq_iff_eq]
  exact hiff.symm

/-! ### The result -/

theorem Family.bits_le (fam : Family) (prefixLen : ℤ) : fam.bits prefixLen ≤ fam.width := by
  unfold Family.bits
  split_ifs
  · omega
  · cases fam
    · exact Nat.le_of_ble_eq_true rfl
    · exact Nat.le_of_ble_eq_true rfl

/-- Decimal groups have no colon. -/
theorem colon_notMem_dots {gs : List Text} (h : ∀ g ∈ gs, DecGroup g) : ':' ∉ dots gs := by
  rcases List.eq_nil_or_concat gs with rfl | ⟨gs, g, rfl⟩
  · simp [dots]
  · rw [List.concat_eq_append] at h ⊢
    have hgroup : ∀ g' ∈ gs ++ [g], ':' ∉ g' := fun g' hg' hc => nomatch (h g' hg').2.2.1 ':' hc
    unfold dots
    rw [intercalate_snoc, List.mem_append, List.mem_flatMap]
    rintro (⟨g', hg', hc⟩ | hc)
    · rcases List.mem_append.1 hc with hc | hc
      · exact hgroup g' (List.mem_append_left _ hg') hc
      · nomatch List.mem_singleton.1 hc
    · exact hgroup g (by simp) hc

/-- The colon tells the families apart. -/
theorem parse_colon {fam : Family} {s : Text} {out : List UInt8} (h : fam.parse s = some out) :
    s ≠ [] ∧ ((find ':' s).isSome = true ↔ fam = .v6) := by
  cases fam with
  | v4 =>
    obtain ⟨gs, hlen, hgroups, rfl, -⟩ := (parseIPv4Bytes_eq_some s out).1 h
    have hcolon : ':' ∉ dots gs := colon_notMem_dots hgroups
    refine ⟨?_, ?_⟩
    · intro hnil
      rw [hnil] at h
      nomatch h
    · rw [find_none hcolon]
      simp
  | v6 =>
    obtain ⟨ws, hwords, -⟩ := (parseIPv6Bytes_eq_some s out).1 h
    have hcolon : ':' ∈ s := by
      cases hwords with
      | full gs hlen hgroups => exact colon_mem_colons (by omega)
      | short ls rs hlen hgroups => simp
    have hfind : find ':' s ≠ none := fun hnone => List.idxOf?_eq_none_iff.1 hnone hcolon
    exact ⟨List.ne_nil_of_mem hcolon, fun _ => rfl, fun _ => Option.isSome_iff_ne_none.2 hfind⟩

theorem both_some (p q : Option (List UInt8)) (f : List UInt8 → List UInt8 → Bool) :
    (match p, q with
      | some a, some b => f a b
      | _, _ => false) = true ↔ ∃ x y, p = some x ∧ q = some y ∧ f x y = true := by
  cases p <;> cases q <;> simp

/-- The code asks for the family first, and for the prefix then. -/
theorem sameSubnet_eq (clientIp : Text) (prefixLen : ℤ) (serverHost : Text) :
    sameSubnet clientIp prefixLen serverHost = true ↔ ∃ fam : Family, ∃ x y,
      fam.parse (stripZoneAndBrackets clientIp) = some x ∧ fam.parse (stripZoneAndBrackets serverHost) = some y ∧
        samePrefixBits x y (fam.bits prefixLen) = true := by
  unfold sameSubnet
  dsimp only
  generalize stripZoneAndBrackets clientIp = c
  generalize stripZoneAndBrackets serverHost = s
  have hbits4 : (if prefixLen > 0 ∧ prefixLen ≤ 32 then prefixLen.toNat else 24) = Family.v4.bits prefixLen := rfl
  have hbits6 : (if prefixLen > 0 ∧ prefixLen ≤ 128 then prefixLen.toNat else 64) = Family.v6.bits prefixLen := rfl
  rw [hbits4, hbits6]
  constructor
  · intro h
    by_cases hempty : c = [] ∨ s = []
    · rw [if_pos hempty] at h
      nomatch h
    rw [if_neg hempty] at h
    by_cases hfam : (find ':' c).isSome ≠ (find ':' s).isSome
    · rw [if_pos hfam] at h
      nomatch h
    rw [if_neg hfam] at h
    by_cases hv4 : (!(find ':' c).isSome) = true
    · rw [if_pos hv4] at h
      exact ⟨.v4, (both_some (parseIPv4Bytes c) (parseIPv4Bytes s) _).1 h⟩
    · rw [if_neg hv4] at h
      exact ⟨.v6, (both_some (parseIPv6Bytes c) (parseIPv6Bytes s) _).1 h⟩
  · rintro ⟨fam, x, y, hc, hs, hsame⟩
    obtain ⟨hcne, hcfam⟩ := parse_colon hc
    obtain ⟨hsne, hsfam⟩ := parse_colon hs
    have hfam : ¬ (find ':' c).isSome ≠ (find ':' s).isSome := by
      rw [not_not, Bool.eq_iff_iff, hcfam, hsfam]
    rw [if_neg (not_or.2 ⟨hcne, hsne⟩), if_neg hfam]
    cases fam with
    | v4 =>
      have hnone : (find ':' c).isSome = false := by simpa using hcfam
      rw [if_pos (by rw [hnone]; rfl)]
      exact (both_some _ _ fun a b => samePrefixBits a b _).2 ⟨x, y, hc, hs, hsame⟩
    | v6 =>
      have hsome : (find ':' c).isSome = true := hcfam.2 rfl
      rw [if_neg (by simp [hsome])]
      exact (both_some _ _ fun a b => samePrefixBits a b _).2 ⟨x, y, hc, hs, hsame⟩

/-- **`SameSubnet` is equality of prefixes.** -/
theorem sameSubnet_iff :
    (∀ (s : Text) (out : List UInt8), parseIPv4Bytes s = some out ↔ out.length = 4 ∧ Denotes .v4 s (address out)) ∧
    (∀ (s : Text) (out : List UInt8), parseIPv6Bytes s = some out ↔ out.length = 16 ∧ Denotes .v6 s (address out)) ∧
    ∀ (clientIp : Text) (prefixLen : ℤ) (serverHost : Text), sameSubnet clientIp prefixLen serverHost = true ↔
      ∃ fam a b, Denotes fam (stripZoneAndBrackets clientIp) a ∧ Denotes fam (stripZoneAndBrackets serverHost) b ∧
        a / 2 ^ (fam.width - fam.bits prefixLen) = b / 2 ^ (fam.width - fam.bits prefixLen) := by
  refine ⟨fun s out => ?_, fun s out => ?_, fun clientIp prefixLen serverHost => ?_⟩
  · have h := parse_iff .v4 s out
    rw [show Family.width .v4 = 8 * 4 from rfl, Nat.mul_right_inj (by omega)] at h
    exact h
  · have h := parse_iff .v6 s out
    rw [show Family.width .v6 = 8 * 16 from rfl, Nat.mul_right_inj (by omega)] at h
    exact h
  · have hsame : ∀ {fam : Family} {c s : Text} {x y : List UInt8}, fam.parse c = some x → fam.parse s = some y →
        (samePrefixBits x y (fam.bits prefixLen) = true ↔
          address x / 2 ^ (fam.width - fam.bits prefixLen) = address y / 2 ^ (fam.width - fam.bits prefixLen)) := by
      intro fam c s x y hx hy
      have hxlen := parse_length hx
      have hylen := parse_length hy
      have hbits := fam.bits_le prefixLen
      rw [← hxlen]
      exact samePrefixBits_iff (by omega) (by omega)
    rw [sameSubnet_eq]
    constructor
    · rintro ⟨fam, x, y, hx, hy, h⟩
      exact ⟨fam, address x, address y, (denotes_iff _ _ _).2 ⟨x, hx, rfl⟩, (denotes_iff _ _ _).2 ⟨y, hy, rfl⟩,
        (hsame hx hy).1 h⟩
    · rintro ⟨fam, a, b, ha, hb, h⟩
      obtain ⟨x, hx, rfl⟩ := (denotes_iff _ _ _).1 ha
      obtain ⟨y, hy, rfl⟩ := (denotes_iff _ _ _).1 hb
      exact ⟨fam, x, y, hx, hy, (hsame hx hy).2 h⟩

end FastClone.Links
