import FastClone.Spec.Endpoint
import Mathlib.Data.List.TakeWhile

/-!
# Endpoints read back

`splitServerKey_advertised`: `SplitServerKey` reads every advertised endpoint back.
`advertised_parsesBack_iff`: all three parsers do, exactly if the address is an IPv4 literal. Behind
`--server` the text is cut at its first colon, and for a bracketed address that is one inside the
brackets.
-/

namespace FastClone.Endpoint

/-! ### Searching a character -/

/-- The first occurrence, behind a part without it. -/
theorem find_append {c : Char} {pre post : Text} (h : c ∉ pre) : find c (pre ++ c :: post) = some pre.length := by
  unfold find
  rw [List.idxOf?_eq_some_iff]
  refine ⟨by simp, by simp, ?_⟩
  intro j hj heq
  rw [List.getElem_append_left hj] at heq
  exact h (heq ▸ List.getElem_mem hj)

theorem find_none {c : Char} {s : Text} (h : c ∉ s) : find c s = none := List.idxOf?_eq_none_iff.2 h

/-- The last occurrence, before a part without it. -/
theorem rfind_append {c : Char} {pre post : Text} (h : c ∉ post) : rfind c (pre ++ c :: post) = some pre.length := by
  have hrev : (pre ++ c :: post).reverse = post.reverse ++ c :: pre.reverse := by simp
  have hfirst : List.idxOf? c (post.reverse ++ c :: pre.reverse) = some post.reverse.length :=
    find_append (by simpa using h)
  unfold rfind
  rw [hrev, hfirst, Option.map_some, List.length_reverse, List.length_append, List.length_cons]
  congr 1
  omega

/-! ### Numbers -/

theorem isDigit_toText {n : Nat} {c : Char} (h : c ∈ toText n) : c.isDigit = true :=
  Nat.isDigit_of_mem_toDigits (by decide) (by decide) h

theorem toNat_le_of_isDigit {c : Char} (h : c.isDigit = true) : c.toNat ≤ 57 := by
  have hnine := (Bool.and_eq_true _ _ ▸ h).2
  exact UInt32.le_iff_toNat_le.1 (of_decide_eq_true hnine)

/-- What is not a digit stands in no number. -/
theorem notMem_toText {n : Nat} {c : Char} (h : c.isDigit = false) : c ∉ toText n := by
  intro hmem
  rw [isDigit_toText hmem] at h
  cases h

theorem isSpace_of_isDigit {c : Char} (h : c.isDigit = true) : isSpace c = false := by
  unfold isSpace
  rw [Bool.eq_false_iff]
  intro hspace
  simp only [Bool.or_eq_true, decide_eq_true_eq] at hspace
  rcases hspace with ((((rfl | rfl) | rfl) | rfl) | rfl) | rfl <;> exact absurd h (by decide)

theorem takeSign_of_isDigit {c : Char} (h : c.isDigit = true) (rest : Text) :
    takeSign (c :: rest) = (false, c :: rest) := by
  unfold takeSign
  split
  · rename_i heq
    cases heq
    exact absurd h (by decide)
  · rename_i heq
    cases heq
    exact absurd h (by decide)
  · rfl

/-- In front of a number there is neither space nor sign. -/
theorem takeSign_toText (n : Nat) : takeSign ((toText n).dropWhile isSpace) = (false, toText n) := by
  have hdigit : ∀ c ∈ toText n, c.isDigit = true := fun c => isDigit_toText
  cases htext : toText n with
  | nil => rfl
  | cons c rest =>
    rw [htext] at hdigit
    have hc := hdigit c List.mem_cons_self
    rw [List.dropWhile_cons_of_neg (by simp [isSpace_of_isDigit hc])]
    exact takeSign_of_isDigit hc rest

theorem toText_ne_nil (n : Nat) : toText n ≠ [] := Nat.toDigits_ne_nil

/-- `strtol` reads back what `to_string` wrote. -/
theorem strtol_toText {n : Nat} (h : (n : ℤ) ≤ longMax) : strtol (toText n) = ((n : ℤ), []) := by
  have htake : (toText n).takeWhile Char.isDigit = toText n :=
    List.takeWhile_eq_self_iff.2 fun c => isDigit_toText
  have hdrop : (toText n).dropWhile Char.isDigit = [] :=
    List.dropWhile_eq_nil_iff.2 fun c => isDigit_toText
  have hvalue : Nat.ofDigitChars 10 (toText n) 0 = n := Nat.ofDigitChars_ten_toDigits
  have hrange : max longMin (min longMax (n : ℤ)) = n := by
    unfold longMin
    omega
  unfold strtol
  simp only [takeSign_toText, htake, hdrop, hvalue, if_neg (toText_ne_nil n), Bool.false_eq_true, if_false, hrange]

theorem portOf_toText {port : UInt16} (h : port ≠ 0) : portOf (toText port.toNat) = some port := by
  have hlt : port.toNat < 65536 := port.toNat_lt
  have hpos : 0 < port.toNat := by
    rw [Nat.pos_iff_ne_zero]
    exact fun hzero => h (UInt16.toNat_inj.1 hzero)
  have htake : (toText port.toNat).takeWhile Char.isDigit = toText port.toNat :=
    List.takeWhile_eq_self_iff.2 fun c => isDigit_toText
  have hstoi : stoi (toText port.toNat) = some (port.toNat : ℤ) := by
    unfold stoi
    rw [strtol_toText (by unfold longMax; omega)]
    simp only [takeSign_toText, htake, if_neg (toText_ne_nil _)]
    rw [if_neg (by omega)]
  unfold portOf
  rw [hstoi]
  dsimp only
  rw [if_pos (by omega), Int.toNat_natCast, UInt16.ofNat_toNat]

theorem parseLongStrict_toText {n : Nat} (h : (n : ℤ) ≤ longMax) (name : String) :
    parseLongStrict (toText n) name = .ok n := by
  unfold parseLongStrict
  rw [if_neg (toText_ne_nil n), strtol_toText h]
  exact if_pos (Or.inl rfl)

/-! ### The advertised endpoint -/

theorem advertised_v6 {ip : Text} (h : ':' ∈ ip) (port : UInt16) :
    advertisedEndpoint ip port = '[' :: (ip ++ ']' :: ':' :: toText port.toNat) := by
  have hfound : (find ':' ip).isSome = true := by
    unfold find
    rw [List.isSome_idxOf?]
    simpa using h
  unfold advertisedEndpoint
  simp [hfound]

theorem advertised_v4 {ip : Text} (h : ':' ∉ ip) (port : UInt16) :
    advertisedEndpoint ip port = ip ++ ':' :: toText port.toNat := by
  unfold advertisedEndpoint
  simp [find_none h]

/-- An address in brackets. -/
theorem splitServerKey_v6 {ip : Text} (hv6 : ':' ∈ ip) (hclose : ']' ∉ ip) {port : UInt16} (hport : port ≠ 0)
    (defaultPort : UInt16) : splitServerKey (advertisedEndpoint ip port) defaultPort = (ip, port) := by
  rw [advertised_v6 hv6]
  have hfind : find ']' ('[' :: (ip ++ ']' :: ':' :: toText port.toNat)) = some (ip.length + 1) := by
    have hpre : ']' ∉ '[' :: ip := by simp [hclose]
    exact find_append hpre
  have hcolon : ('[' :: (ip ++ ']' :: ':' :: toText port.toNat))[ip.length + 1 + 1]? = some ':' := by
    simp
  have hdrop : ('[' :: (ip ++ ']' :: ':' :: toText port.toNat)).drop (ip.length + 1 + 2) = toText port.toNat := by
    simp [List.drop_append]
  unfold splitServerKey
  simp only [List.head?_cons, if_true, hfind, hcolon, hdrop, portOf_toText hport]
  rw [if_neg (by simp)]
  simp

/-- An address without a colon. -/
theorem splitServerKey_v4 {ip : Text} (hv4 : ':' ∉ ip) (hopen : '[' ∉ ip) {port : UInt16} (hport : port ≠ 0)
    (defaultPort : UInt16) : splitServerKey (advertisedEndpoint ip port) defaultPort = (ip, port) := by
  rw [advertised_v4 hv4]
  have hfirst : find ':' (ip ++ ':' :: toText port.toNat) = some ip.length := find_append hv4
  have hlast : rfind ':' (ip ++ ':' :: toText port.toNat) = some ip.length :=
    rfind_append (notMem_toText (by decide))
  have hhead : (ip ++ ':' :: toText port.toNat).head? ≠ some '[' := by
    cases ip with
    | nil => simp
    | cons c rest =>
      intro heq
      have hc : c = '[' := by simpa using heq
      exact hopen (hc ▸ List.mem_cons_self)
  have hdrop : (ip ++ ':' :: toText port.toNat).drop (ip.length + 1) = toText port.toNat := by
    simp [List.drop_append]
  unfold splitServerKey splitAtColon
  rw [if_neg hhead, hlast]
  dsimp only
  rw [if_neg (fun hne => hne hfirst), hdrop, portOf_toText hport]
  simp

/-- Behind `--server` the address of an IPv4 endpoint comes back. -/
theorem parseHostPort_v4 {ip : Text} (hv4 : ':' ∉ ip) (hne : ip ≠ []) {port : UInt16} (hport : port ≠ 0)
    (defaultPort : UInt16) : parseHostPort (advertisedEndpoint ip port) defaultPort = .ok (ip, port) := by
  rw [advertised_v4 hv4]
  have hfirst : find ':' (ip ++ ':' :: toText port.toNat) = some ip.length := find_append hv4
  have htake : (ip ++ ':' :: toText port.toNat).take ip.length = ip := by simp
  have hdrop : (ip ++ ':' :: toText port.toNat).drop (ip.length + 1) = toText port.toNat := by
    simp [List.drop_append]
  have hlt : port.toNat < 65536 := port.toNat_lt
  have hpos : port.toNat ≠ 0 := fun hzero => hport (UInt16.toNat_inj.1 hzero)
  unfold parseHostPort
  rw [hfirst]
  dsimp only
  rw [htake, hdrop, if_neg (not_or.2 ⟨hne, toText_ne_nil _⟩),
    parseLongStrict_toText (by unfold longMax; omega)]
  dsimp only
  rw [if_neg (by omega), Int.toNat_natCast, UInt16.ofNat_toNat]

/-- An accepted host is the part before the first colon. -/
theorem parseHostPort_host {input host : Text} {port defaultPort : UInt16}
    (h : parseHostPort input defaultPort = .ok (host, port)) : host <+: input := by
  unfold parseHostPort at h
  split at h
  · split at h
    · cases h
    · cases h
      exact List.prefix_rfl
  · dsimp only at h
    split at h
    · cases h
    · split at h
      · cases h
      · split at h
        · cases h
        · cases h
          exact List.take_prefix _ _

/-- A bracketed address does not come back: what is accepted begins with the bracket. -/
theorem parseHostPort_v6 {ip : Text} (hv6 : ':' ∈ ip) (hopen : '[' ∉ ip) (port defaultPort : UInt16) :
    parseHostPort (advertisedEndpoint ip port) defaultPort ≠ .ok (ip, port) := by
  intro h
  have hprefix := parseHostPort_host h
  rw [advertised_v6 hv6] at hprefix
  cases ip with
  | nil => cases hv6
  | cons c rest =>
    have hc : c = '[' := (List.cons_prefix_cons.1 hprefix).1
    exact hopen (hc ▸ List.mem_cons_self)

/-- One endpoint without a comma is a list of one. -/
theorem parseServerList_single {token : Text} (hcomma : ',' ∉ token) (hne : token ≠ []) (defaultPort : UInt16) :
    parseServerList token defaultPort = (parseHostPort token defaultPort).map fun ep => [ep] := by
  have hsplit : token.splitOn ',' = [token] := by
    refine List.splitOnP_eq_singleton fun c hc => ?_
    rw [beq_eq_false_iff_ne]
    exact fun heq => hcomma (heq ▸ hc)
  unfold parseServerList
  rw [hsplit]
  simp only [List.filter_cons, List.filter_nil, hne, ne_eq, not_false_eq_true, decide_true, if_true]
  rw [List.mapM_cons, List.mapM_nil]
  cases parseHostPort token defaultPort with
  | error e => rfl
  | ok ep => rfl

/-! ### The characters of a literal -/

/-- No comma and no bracket. -/
def Plain (s : Text) : Prop := ∀ c ∈ s, c ≠ ',' ∧ c ≠ '[' ∧ c ≠ ']'

theorem Plain.append {s t : Text} (hs : Plain s) (ht : Plain t) : Plain (s ++ t) := by
  intro c hc
  rcases List.mem_append.1 hc with h | h
  · exact hs c h
  · exact ht c h

/-- Pieces without brackets, joined by a character that is none. -/
theorem plain_intercalate {sep : Text} (hsep : Plain sep) {pieces : List Text} (h : ∀ p ∈ pieces, Plain p) :
    Plain (sep.intercalate pieces) := by
  induction pieces with
  | nil =>
    intro c hc
    cases hc
  | cons p rest ih =>
    have hp := h p List.mem_cons_self
    have hrest := ih fun q hq => h q (List.mem_cons_of_mem _ hq)
    cases rest with
    | nil =>
      rw [List.intercalate_singleton]
      exact hp
    | cons q rest =>
      rw [List.intercalate_cons_cons]
      exact (hp.append hsep).append hrest

theorem plain_toText (n : Nat) : Plain (toText n) := by
  intro c hc
  have hdigit := isDigit_toText hc
  refine ⟨?_, ?_, ?_⟩ <;> rintro rfl <;> exact absurd hdigit (by decide)

theorem plain_v4 {s : Text} (h : Ipv4Literal s) : Plain s := by
  obtain ⟨a, b, c, d, rfl⟩ := h
  refine plain_intercalate (List.forall_mem_singleton.2 (by decide)) ?_
  simp [plain_toText]

theorem colon_notMem_v4 {s : Text} (h : Ipv4Literal s) : ':' ∉ s := by
  obtain ⟨a, b, c, d, rfl⟩ := h
  have hnone : ∀ n, ':' ∉ toText n := fun n => notMem_toText (by decide)
  simp [List.intercalate, List.intersperse, hnone]

theorem ne_nil_v4 {s : Text} (h : Ipv4Literal s) : s ≠ [] := by
  obtain ⟨a, b, c, d, rfl⟩ := h
  simp [List.intercalate, List.intersperse]

theorem plain_group {g : Text} (h : HexGroup g) : Plain g := by
  intro c hc
  have hhex := h.2.2 c hc
  refine ⟨?_, ?_, ?_⟩ <;> rintro rfl <;> exact absurd hhex (by decide)

theorem plain_colon : Plain [':'] := List.forall_mem_singleton.2 (by decide)

theorem plain_groups {gs : List Text} (h : ∀ g ∈ gs, HexGroup g) : Plain (colons gs) :=
  plain_intercalate plain_colon fun g hg => plain_group (h g hg)

theorem plain_groupsV4 {gs : List Text} {v4 : Text} (h : ∀ g ∈ gs, HexGroup g) (hv4 : Ipv4Literal v4) :
    Plain (colons (gs ++ [v4])) := by
  refine plain_intercalate plain_colon fun g hg => ?_
  rcases List.mem_append.1 hg with hg | hg
  · exact plain_group (h g hg)
  · rw [List.mem_singleton.1 hg]
    exact plain_v4 hv4

theorem plain_address {s : Text} (h : Ipv6Address s) : Plain s := by
  cases h with
  | full gs hlen hgs => exact plain_groups hgs
  | fullV4 gs v4 hlen hgs hv4 => exact plain_groupsV4 hgs hv4
  | short ls rs hlen hgs =>
    rw [List.forall_mem_append] at hgs
    exact ((plain_groups hgs.1).append (plain_colon.append plain_colon)).append (plain_groups hgs.2)
  | shortV4 ls rs v4 hlen hgs hv4 =>
    rw [List.forall_mem_append] at hgs
    exact ((plain_groups hgs.1).append (plain_colon.append plain_colon)).append (plain_groupsV4 hgs.2 hv4)

/-- Two pieces have a separator between them. -/
theorem colon_mem_colons {gs : List Text} (h : 2 ≤ gs.length) : ':' ∈ colons gs := by
  obtain ⟨a, b, rest, rfl⟩ : ∃ a b rest, gs = a :: b :: rest := by
    match gs, h with
    | a :: b :: rest, _ => exact ⟨a, b, rest, rfl⟩
  simp [colons, List.intercalate, List.intersperse]

theorem colon_mem_address {s : Text} (h : Ipv6Address s) : ':' ∈ s := by
  cases h with
  | full gs hlen hgs => exact colon_mem_colons (by omega)
  | fullV4 gs v4 hlen hgs hv4 => exact colon_mem_colons (by simp; omega)
  | short ls rs hlen hgs => simp
  | shortV4 ls rs v4 hlen hgs hv4 => simp

theorem plain_v6 {s : Text} (h : Ipv6Literal s) : Plain s := by
  rcases h with h | ⟨address, zone, haddress, hzone, rfl⟩
  · exact plain_address h
  · refine (plain_address haddress).append fun c hc => ?_
    rcases List.mem_cons.1 hc with rfl | hc
    · decide
    · have hname := hzone.2 c hc
      refine ⟨?_, ?_, ?_⟩ <;> rintro rfl <;> exact absurd hname (by decide)

theorem colon_mem_v6 {s : Text} (h : Ipv6Literal s) : ':' ∈ s := by
  rcases h with h | ⟨address, zone, haddress, -, rfl⟩
  · exact colon_mem_address h
  · exact List.mem_append_left _ (colon_mem_address haddress)

/-! ### All three parsers -/

/-- `SplitServerKey` reads every advertised endpoint back. -/
theorem splitServerKey_advertised {ip : Text} (hip : Ipv4Literal ip ∨ Ipv6Literal ip) {port : UInt16}
    (hport : port ≠ 0) (defaultPort : UInt16) :
    splitServerKey (advertisedEndpoint ip port) defaultPort = (ip, port) := by
  rcases hip with hv4 | hv6
  · exact splitServerKey_v4 (colon_notMem_v4 hv4) (fun h => (plain_v4 hv4 _ h).2.1 rfl) hport defaultPort
  · exact splitServerKey_v6 (colon_mem_v6 hv6) (fun h => (plain_v6 hv6 _ h).2.2 rfl) hport defaultPort

/-- The endpoint comes back from every parser. -/
def ParsesBack (ip : Text) (port defaultPort : UInt16) : Prop :=
  splitServerKey (advertisedEndpoint ip port) defaultPort = (ip, port) ∧
    parseServerList (advertisedEndpoint ip port) defaultPort = .ok [(ip, port)] ∧
    checkParseHostPort (advertisedEndpoint ip port) defaultPort = .ok (ip, port)

/-- **An endpoint of the server's list on a command line.** It is understood exactly if its address is an
IPv4 literal. -/
theorem advertised_parsesBack_iff {ip : Text} (hip : Ipv4Literal ip ∨ Ipv6Literal ip) {port : UInt16}
    (hport : port ≠ 0) (defaultPort : UInt16) : ParsesBack ip port defaultPort ↔ Ipv4Literal ip := by
  constructor
  · rintro ⟨-, -, hcheck⟩
    rcases hip with hv4 | hv6
    · exact hv4
    · have hopen : '[' ∉ ip := fun h => (plain_v6 hv6 _ h).2.1 rfl
      exact absurd hcheck (parseHostPort_v6 (colon_mem_v6 hv6) hopen port defaultPort)
  · intro hv4
    have hcolon := colon_notMem_v4 hv4
    have hhost := parseHostPort_v4 hcolon (ne_nil_v4 hv4) hport defaultPort
    refine ⟨splitServerKey_advertised hip hport defaultPort, ?_, hhost⟩
    have hcomma : ',' ∉ advertisedEndpoint ip port := by
      rw [advertised_v4 hcolon]
      have hip : ',' ∉ ip := fun h => (plain_v4 hv4 _ h).1 rfl
      have hnumber : ',' ∉ toText port.toNat := notMem_toText (by decide)
      simp [hip, hnumber]
    have hne : advertisedEndpoint ip port ≠ [] := by
      rw [advertised_v4 hcolon]
      simp
    rw [parseServerList_single hcomma hne, hhost]
    rfl

/-- `10.0.0.5` and port 8080. -/
theorem lan4_parsesBack : ParsesBack ['1', '0', '.', '0', '.', '0', '.', '5'] 8080 7788 :=
  (advertised_parsesBack_iff (.inl ⟨10, 0, 0, 5, by decide⟩) (by decide) 7788).2 ⟨10, 0, 0, 5, by decide⟩

/-- `2001:db8::5` and port 8080: `--server [2001:db8::5]:8080` is refused by both programs. -/
theorem global6_refused : ¬ ∀ ip : Text, Ipv4Literal ip ∨ Ipv6Literal ip → ∀ port : UInt16, port ≠ 0 →
    ParsesBack ip port 7788 := by
  intro h
  have hip : Ipv6Literal ['2', '0', '0', '1', ':', 'd', 'b', '8', ':', ':', '5'] := by
    refine .inl (.short [['2', '0', '0', '1'], ['d', 'b', '8']] [['5']] (by decide) ?_)
    have hgroup : ∀ {g : Text}, g ≠ [] → g.length ≤ 4 → g.all isHexDigit = true → HexGroup g :=
      fun hne hlen hall => ⟨hne, hlen, List.all_eq_true.1 hall⟩
    exact List.forall_mem_cons.2 ⟨hgroup (by decide) (by decide) rfl, List.forall_mem_cons.2
      ⟨hgroup (by decide) (by decide) rfl, List.forall_mem_singleton.2 (hgroup (by decide) (by decide) rfl)⟩⟩
  obtain ⟨-, -, hcheck⟩ := h _ (.inr hip) 8080 (by decide)
  exact absurd hcheck (parseHostPort_v6 (by decide) (by decide) 8080 7788)

end FastClone.Endpoint
