import FastClone.Proof.Endpoint
import FastClone.Spec.Cli

/-!
# What an accepted command line gives

The endpoints never repeat and there is always one (`servers_nodup`). But the port belongs to two options. A
`--port` behind the last `--server` moves it away from the first endpoint, and an endpoint without a port gets what
was in force where it was read. `normalised_iff` says on which command lines neither happens.
-/

namespace FastClone.Cli

open FastClone.Endpoint

variable {D : Type}

/-! ### `--port` and `--server` -/

/-- An option that concerns ports. -/
inductive PortItem where
  | port (port : UInt16)
  | server (tokens : List Text)
  deriving DecidableEq, Repr

/-- The port that a text gives. -/
def portNumber (value : Text) : UInt16 :=
  match parseLongStrict value "--port" with
  | .ok port => UInt16.ofNat port.toNat
  | .error _ => 27842

def PortItem.ofValue (value : Text) : Valued → List PortItem
  | .port => [.port (portNumber value)]
  | .server => [.server (serverTokens value)]
  | _ => []

/-- The `--port` and `--server` of a command line, in order. -/
def portItems : List Text → List PortItem
  | [] => []
  | arg :: rest =>
    match Arg.ofText arg with
    | none => []
    | some (.flag _) => portItems rest
    | some (.valued v) =>
      match rest with
      | [] => []
      | value :: rest => PortItem.ofValue value v ++ portItems rest
    | some .largeFileBlock =>
      match rest with
      | [] => []
      | value :: rest => if isOption value then portItems (value :: rest) else portItems rest

def PortItem.port? : PortItem → Option UInt16
  | .port n => some n
  | .server _ => none

def PortItem.tokens : PortItem → List Text
  | .port _ => []
  | .server ts => ts

/-- The last `--port`, or the default. -/
def lastPort (items : List PortItem) : UInt16 := (items.filterMap PortItem.port?).getLastD 27842

/-- The port of the first endpoint: its own, or else the one that `--port` gives. -/
def firstPort (items : List PortItem) : UInt16 :=
  match (items.flatMap PortItem.tokens).head? with
  | none => lastPort items
  | some token =>
    match find ':' token with
    | none => lastPort items
    | some pos => portNumber (token.drop (pos + 1))

/-- The port in force behind `items`, when `first` is that of the first endpoint. -/
def portBehind (first : UInt16) (items : List PortItem) : UInt16 :=
  match items.getLast? with
  | none => 27842
  | some (.port n) => n
  | some (.server _) => first

/-! ### The property and its condition -/

/-- An endpoint keeps the port that it was written with, or else gets the one that `--port` gives. -/
def Kept (portGiven : UInt16) (token : Text) (ep : Address) : Prop :=
  match find ':' token with
  | none => ep = (token, portGiven)
  | some pos => ep.1 = token.take pos ∧ parseLongStrict (token.drop (pos + 1)) "--server" = .ok (ep.2.toNat : ℤ)

/-- The command line is normalised. -/
structure Normalised (st : Parse D) : Prop where
  nonempty : st.options.servers ≠ []
  nodup : st.options.servers.Nodup
  head : st.options.servers.head? = some (st.options.host, st.options.port)
  listed : ∀ w ∈ st.written, w.2 ∈ st.options.servers
  kept : ∀ w ∈ st.written, Kept st.portGiven w.1 w.2

/-- `--port` and `--server` agree: an endpoint without a port stands where the last `--port` is in force, and at the
end the port in force is that of the first endpoint. -/
structure PortsAgree (items : List PortItem) : Prop where
  bare : ∀ pre ts post, items = pre ++ .server ts :: post → (∃ t ∈ ts, ':' ∉ t) →
    portBehind (firstPort items) pre = lastPort items
  last : (∃ ts, .server ts ∈ items) → portBehind (firstPort items) items = firstPort items

/-! ### Endpoints without repeats -/

theorem addServers_cons (servers : List Address) (e : Address) (endpoints : List Address) :
    addServers servers (e :: endpoints) = addServers (if e ∈ servers then servers else servers ++ [e]) endpoints := rfl

theorem mem_addServers (ep : Address) (servers endpoints : List Address) :
    ep ∈ addServers servers endpoints ↔ ep ∈ servers ∨ ep ∈ endpoints := by
  induction endpoints generalizing servers with
  | nil => simp [addServers]
  | cons e endpoints ih =>
    rw [addServers_cons, ih, List.mem_cons]
    by_cases he : e ∈ servers
    · rw [if_pos he]
      constructor
      · rintro (h | h)
        · exact .inl h
        · exact .inr (.inr h)
      · rintro (h | rfl | h)
        · exact .inl h
        · exact .inl he
        · exact .inr h
    · rw [if_neg he, List.mem_append, List.mem_singleton, or_assoc]

theorem nodup_addServers {servers : List Address} (h : servers.Nodup) (endpoints : List Address) :
    (addServers servers endpoints).Nodup := by
  induction endpoints generalizing servers with
  | nil => exact h
  | cons e endpoints ih =>
    rw [addServers_cons]
    apply ih
    by_cases he : e ∈ servers
    · rw [if_pos he]
      exact h
    · rw [if_neg he]
      exact List.nodup_append.2 ⟨h, List.nodup_singleton e, fun a ha b hb heq =>
        he (List.mem_singleton.1 hb ▸ heq ▸ ha)⟩

/-- The first endpoint stays the first. -/
theorem head?_addServers (servers endpoints : List Address) :
    (addServers servers endpoints).head? = (servers ++ endpoints).head? := by
  induction endpoints generalizing servers with
  | nil => simp [addServers]
  | cons e endpoints ih =>
    rw [addServers_cons, ih]
    by_cases he : e ∈ servers
    · have hne : servers ≠ [] := List.ne_nil_of_mem he
      rw [if_pos he, List.head?_append_of_ne_nil _ hne, List.head?_append_of_ne_nil _ hne]
    · rw [if_neg he, List.append_assoc, List.singleton_append]

theorem addServers_ne_nil {endpoints : List Address} (h : endpoints ≠ []) (servers : List Address) :
    addServers servers endpoints ≠ [] := by
  obtain ⟨e, rest, rfl⟩ := List.exists_cons_of_ne_nil h
  have he : e ∈ addServers servers (e :: rest) := (mem_addServers e _ _).2 (.inr List.mem_cons_self)
  exact List.ne_nil_of_mem he

/-! ### Reading endpoints -/

/-- What comes out of two steps in a row comes out of the second. -/
theorem bind_inv {ε α β : Type} {x : Except ε α} {f : α → Except ε β} {r : β} (h : x >>= f = .ok r) :
    ∃ a, x = .ok a ∧ f a = .ok r := by
  cases x with
  | error e => nomatch h
  | ok a => exact ⟨a, rfl, h⟩

/-- Where all are read, each is read as what stands in its place. -/
theorem forall₂_of_mapM {α β ε : Type} {f : α → Except ε β} {as : List α} {bs : List β} (h : as.mapM f = .ok bs) :
    List.Forall₂ (fun a b => f a = .ok b) as bs := by
  induction as generalizing bs with
  | nil =>
    rw [List.mapM_nil] at h
    cases h
    exact .nil
  | cons x as ih =>
    rw [List.mapM_cons] at h
    obtain ⟨y, hx, h⟩ := bind_inv h
    obtain ⟨ys, hrest, h⟩ := bind_inv h
    cases h
    exact .cons hx (ih hrest)

/-- A token stands in the list with exactly what it is read as. -/
theorem mem_zip {α β ε : Type} {f : α → Except ε β} {as : List α} {bs : List β}
    (h : List.Forall₂ (fun a b => f a = .ok b) as bs) (a : α) (b : β) : (a, b) ∈ as.zip bs ↔ a ∈ as ∧ f a = .ok b := by
  constructor
  · intro hab
    exact ⟨(List.of_mem_zip hab).1, List.forall₂_zip h hab⟩
  · rintro ⟨ha, hb⟩
    induction h with
    | nil => cases ha
    | @cons x y as bs hx hrest ih =>
      rw [List.zip_cons_cons]
      rcases List.mem_cons.1 ha with rfl | ha
      · have hby : b = y := Except.ok.inj (hb.symm.trans hx)
        exact hby ▸ List.mem_cons_self
      · exact List.mem_cons_of_mem _ (ih ha)

/-- An accepted list: every token is read, and there is one. -/
theorem parseServerList_eq_ok {input : Text} {port : UInt16} {endpoints : List Address}
    (h : parseServerList input port = .ok endpoints) :
    List.Forall₂ (fun token ep => parseHostPort token port = .ok ep) (serverTokens input) endpoints ∧
      endpoints ≠ [] := by
  unfold parseServerList at h
  obtain ⟨eps, hmap, h⟩ := bind_inv h
  split at h
  · nomatch h
  · cases h
    exact ⟨forall₂_of_mapM hmap, ‹_›⟩

/-- An accepted endpoint keeps its port, or else has the one it is read with. -/
theorem kept_of_parseHostPort {token : Text} {port : UInt16} {ep : Address}
    (h : parseHostPort token port = .ok ep) : Kept port token ep := by
  unfold Kept
  unfold parseHostPort at h
  cases hfind : find ':' token with
  | none =>
    rw [hfind] at h
    dsimp only at h ⊢
    split at h
    · nomatch h
    · cases h
      rfl
  | some pos =>
    rw [hfind] at h
    dsimp only at h ⊢
    split at h
    · nomatch h
    · cases hlong : parseLongStrict (token.drop (pos + 1)) "--server" with
      | error e =>
        rw [hlong] at h
        nomatch h
      | ok parsed =>
        rw [hlong] at h
        dsimp only at h
        split at h
        · nomatch h
        · cases h
          refine ⟨rfl, ?_⟩
          -- within a port's range nothing is cut off
          have hnat : (UInt16.ofNat parsed.toNat).toNat = parsed.toNat := by
            rw [UInt16.toNat_ofNat']
            omega
          dsimp only
          rw [hnat, Int.toNat_of_nonneg (by omega)]

/-- With another default, an endpoint is the same exactly if it has a port or the default is the same. -/
theorem kept_iff {token : Text} {port : UInt16} {ep : Address} (h : Kept port token ep) (portGiven : UInt16) :
    Kept portGiven token ep ↔ (':' ∉ token → port = portGiven) := by
  unfold Kept at h ⊢
  cases hfind : find ':' token with
  | none =>
    have hbare : ':' ∉ token := List.idxOf?_eq_none_iff.1 hfind
    rw [hfind] at h
    dsimp only at h ⊢
    subst h
    constructor
    · intro heq _
      exact congrArg Prod.snd heq
    · intro hport
      rw [hport hbare]
  | some pos =>
    have hcolon : ':' ∈ token := by
      by_contra hbare
      rw [find_none hbare] at hfind
      nomatch hfind
    rw [hfind] at h
    exact ⟨fun _ hbare => absurd hcolon hbare, fun _ => h⟩

/-- The name only stands in the message. -/
theorem parseLongStrict_name {value : Text} {name : String} {n : ℤ} (h : parseLongStrict value name = .ok n)
    (name' : String) : parseLongStrict value name' = .ok n := by
  unfold parseLongStrict at h ⊢
  dsimp only at h ⊢
  split_ifs at h ⊢
  exact h

/-- The port that an endpoint is written with. -/
theorem portNumber_of_ok {value : Text} {name : String} {port : UInt16}
    (h : parseLongStrict value name = .ok (port.toNat : ℤ)) : portNumber value = port := by
  unfold portNumber
  rw [parseLongStrict_name h]
  dsimp only
  rw [Int.toNat_natCast, UInt16.ofNat_toNat]

theorem ne_nil_of_parseHostPort {token : Text} {port : UInt16} {ep : Address}
    (h : parseHostPort token port = .ok ep) : token ≠ [] := by
  rintro rfl
  nomatch h

theorem parseHostPort_bare {token : Text} (hne : token ≠ []) (hbare : ':' ∉ token) (port : UInt16) :
    parseHostPort token port = .ok (token, port) := by
  unfold parseHostPort
  rw [find_none hbare]
  exact if_neg hne

/-! ### The port in force -/

theorem lastPort_append_port (items : List PortItem) (n : UInt16) : lastPort (items ++ [.port n]) = n := by
  simp [lastPort, PortItem.port?, List.getLastD_eq_getLast?]

theorem lastPort_append_server (items : List PortItem) (ts : List Text) :
    lastPort (items ++ [.server ts]) = lastPort items := by
  simp [lastPort, PortItem.port?]

/-- Without a `--server` nothing depends on the first endpoint. -/
theorem portBehind_of_noServer {items : List PortItem} (h : ∀ ts, PortItem.server ts ∉ items) (a b : UInt16) :
    portBehind a items = portBehind b items := by
  unfold portBehind
  cases hlast : items.getLast? with
  | none => rfl
  | some item =>
    cases item with
    | port n => rfl
    | server ts => exact absurd (List.mem_of_getLast? hlast) (h ts)

/-- Without a `--server` the last `--port` is in force. -/
theorem portBehind_eq_lastPort {items : List PortItem} (h : ∀ ts, PortItem.server ts ∉ items) (a : UInt16) :
    portBehind a items = lastPort items := by
  rcases List.eq_nil_or_concat items with rfl | ⟨init, item, rfl⟩
  · rfl
  · rw [List.concat_eq_append] at h ⊢
    cases item with
    | port n =>
      rw [lastPort_append_port]
      simp [portBehind]
    | server ts => exact absurd (by simp) (h ts)

/-- An item in a list that is one longer: it is the last one, or it was there. -/
theorem append_singleton_split {α : Type} {xs pre post : List α} {x y : α} (h : xs ++ [x] = pre ++ y :: post) :
    (post = [] ∧ pre = xs ∧ y = x) ∨ ∃ post', post = post' ++ [x] ∧ xs = pre ++ y :: post' := by
  rcases List.eq_nil_or_concat post with rfl | ⟨post', z, rfl⟩
  · obtain ⟨hpre, hy⟩ := List.append_inj' h rfl
    exact .inl ⟨rfl, hpre.symm, (List.cons.inj hy).1.symm⟩
  · have hassoc : pre ++ y :: (post' ++ [z]) = (pre ++ y :: post') ++ [z] := by simp
    rw [List.concat_eq_append, hassoc] at h
    obtain ⟨hxs, hz⟩ := List.append_inj' h rfl
    refine .inr ⟨post', ?_, hxs⟩
    rw [List.concat_eq_append, (List.cons.inj hz).1]

/-! ### The loop -/

/-- The port of the first endpoint. -/
def headPort (servers : List Address) : UInt16 := (servers.headD ([], 27842)).2

theorem headD_eq {α : Type} {xs : List α} (h : xs ≠ []) (a b : α) : xs.headD a = xs.headD b := by
  obtain ⟨x, rest, rfl⟩ := List.exists_cons_of_ne_nil h
  rfl

/-- What concerns ports in the state of the loop. -/
structure PortView where
  host : Text
  port : UInt16
  servers : List Address
  portGiven : UInt16
  written : List (Text × Address)

def Parse.ports (st : Parse D) : PortView :=
  ⟨st.options.host, st.options.port, st.options.servers, st.portGiven, st.written⟩

/-- What the options read so far have left. -/
structure Ports (items : List PortItem) (v : PortView) : Prop where
  given : v.portGiven = lastPort items
  inForce : v.port = portBehind (headPort v.servers) items
  tokens : v.written.map Prod.fst = items.flatMap PortItem.tokens
  read : ∀ t ep, (t, ep) ∈ v.written ↔ ∃ pre ts post, items = pre ++ .server ts :: post ∧ t ∈ ts ∧
    parseHostPort t (portBehind (headPort v.servers) pre) = .ok ep
  listed : ∀ ep, ep ∈ v.servers ↔ ∃ t, (t, ep) ∈ v.written
  first : v.servers.head? = v.written.head?.map Prod.snd
  host : v.servers ≠ [] → (v.servers.headD ([], 27842)).1 = v.host
  nodup : v.servers.Nodup
  served : ∀ ts, PortItem.server ts ∈ items → v.servers ≠ []
  start : ∀ w, v.written.head? = some w → ∃ pre ts post, items = pre ++ .server ts :: post ∧
    (∀ ts, PortItem.server ts ∉ pre) ∧ w.1 ∈ ts ∧ parseHostPort w.1 (lastPort pre) = .ok w.2

/-- At the start nothing has been read. -/
theorem ports_initial (o : CliOptions D) (hport : o.port = 27842) (hservers : o.servers = []) :
    Ports [] ({ options := o } : Parse D).ports where
  given := rfl
  inForce := hport
  tokens := rfl
  read := by simp [Parse.ports]
  listed := by simp [Parse.ports, hservers]
  first := by simp [Parse.ports, hservers]
  host := fun hne => absurd hservers hne
  nodup := by simp [Parse.ports, hservers]
  served := fun ts hts => nomatch hts
  start := fun w hw => nomatch hw

/-- A `--port` sets the port. -/
theorem Ports.port {items : List PortItem} {v : PortView} (h : Ports items v) (n : UInt16) :
    Ports (items ++ [.port n]) { v with port := n, portGiven := n } where
  given := (lastPort_append_port items n).symm
  inForce := by simp [portBehind]
  tokens := by simp [h.tokens, PortItem.tokens]
  read := by
    intro t ep
    rw [h.read]
    constructor
    · rintro ⟨pre, ts, post, rfl, ht, hep⟩
      exact ⟨pre, ts, post ++ [.port n], by simp, ht, hep⟩
    · rintro ⟨pre, ts, post, heq, ht, hep⟩
      rcases append_singleton_split heq with ⟨-, -, hne⟩ | ⟨post', -, hitems⟩
      · nomatch hne
      · exact ⟨pre, ts, post', hitems, ht, hep⟩
  listed := h.listed
  first := h.first
  host := h.host
  nodup := h.nodup
  served := fun ts hts => h.served ts (by simpa using hts)
  start := by
    intro w hw
    obtain ⟨pre, ts, post, rfl, hpre, hmem, hread⟩ := h.start w hw
    exact ⟨pre, ts, post ++ [.port n], by simp, hpre, hmem, hread⟩

/-- More endpoints do not change where the earlier ones were read. -/
theorem Ports.headPort_eq {items pre : List PortItem} {v : PortView} (h : Ports items v) (hpre : pre <+: items)
    (endpoints : List Address) :
    portBehind (headPort (addServers v.servers endpoints)) pre = portBehind (headPort v.servers) pre := by
  by_cases hne : v.servers = []
  · -- no `--server` has been read
    apply portBehind_of_noServer
    intro ts hts
    exact h.served ts (hpre.subset hts) hne
  · have hhead : (addServers v.servers endpoints).head? = v.servers.head? := by
      rw [head?_addServers, List.head?_append_of_ne_nil _ hne]
    have hport : headPort (addServers v.servers endpoints) = headPort v.servers := by
      unfold headPort
      rw [List.headD_eq_head?_getD, List.headD_eq_head?_getD, hhead]
    rw [hport]

/-- A `--server` adds its endpoints, and the port becomes that of the first. -/
theorem Ports.server {items : List PortItem} {v : PortView} (h : Ports items v) {ts : List Text}
    {endpoints : List Address} (hread : List.Forall₂ (fun t ep => parseHostPort t v.port = .ok ep) ts endpoints)
    (hne : endpoints ≠ []) : Ports (items ++ [.server ts])
      { v with
        servers := addServers v.servers endpoints
        host := ((addServers v.servers endpoints).headD (v.host, v.port)).1
        port := ((addServers v.servers endpoints).headD (v.host, v.port)).2
        written := v.written ++ ts.zip endpoints } where
  given := (lastPort_append_server items ts).symm ▸ h.given
  inForce := by
    rw [headD_eq (addServers_ne_nil hne _) _ ([], 27842)]
    simp [portBehind, headPort]
  tokens := by
    have hfst : (ts.zip endpoints).map Prod.fst = ts := List.map_fst_zip (by rw [hread.length_eq])
    simp [h.tokens, hfst, PortItem.tokens]
  read := by
    intro t ep
    rw [List.mem_append, h.read, mem_zip hread]
    dsimp only
    constructor
    · rintro (⟨pre, ts', post, rfl, ht, hep⟩ | ⟨ht, hep⟩)
      · refine ⟨pre, ts', post ++ [.server ts], by simp, ht, ?_⟩
        rw [h.headPort_eq (List.prefix_append _ _)]
        exact hep
      · refine ⟨items, ts, [], rfl, ht, ?_⟩
        rw [h.headPort_eq List.prefix_rfl, ← h.inForce]
        exact hep
    · rintro ⟨pre, ts', post, heq, ht, hep⟩
      -- a token of this `--server`, or of an earlier one
      rcases append_singleton_split heq with ⟨-, rfl, hts⟩ | ⟨post', -, rfl⟩
      · rw [h.headPort_eq List.prefix_rfl, ← h.inForce] at hep
        cases hts
        exact .inr ⟨ht, hep⟩
      · rw [h.headPort_eq (List.prefix_append _ _)] at hep
        exact .inl ⟨pre, ts', post', rfl, ht, hep⟩
  listed := by
    intro ep
    rw [mem_addServers, h.listed]
    have hzip : ep ∈ endpoints ↔ ∃ t, (t, ep) ∈ ts.zip endpoints := by
      have hsnd : (ts.zip endpoints).map Prod.snd = endpoints := List.map_snd_zip (by rw [hread.length_eq])
      conv_lhs => rw [← hsnd]
      simp
    rw [hzip, ← exists_or]
    exact exists_congr fun t => List.mem_append.symm
  first := by
    have hsnd : (ts.zip endpoints).map Prod.snd = endpoints := List.map_snd_zip (by rw [hread.length_eq])
    rw [head?_addServers]
    dsimp only
    rw [← List.head?_map, List.map_append, hsnd, List.head?_append, List.head?_append, h.first, List.head?_map]
  host := fun _ => by rw [headD_eq (addServers_ne_nil hne _) _ (v.host, v.port)]
  nodup := nodup_addServers h.nodup endpoints
  served := fun _ _ => addServers_ne_nil hne _
  start := by
    intro w hw
    rw [List.head?_append] at hw
    cases hhead : v.written.head? with
    | some w' =>
      rw [hhead] at hw
      cases hw
      obtain ⟨pre, ts', post, rfl, hpre, hmem, hparse⟩ := h.start w hhead
      exact ⟨pre, ts', post ++ [.server ts], by simp, hpre, hmem, hparse⟩
    | none =>
      -- this is the first `--server`
      have hnone : ∀ ts, PortItem.server ts ∉ items := by
        intro ts' hts
        have hservers : v.servers.head? = none := by rw [h.first, hhead]; rfl
        exact h.served ts' hts (List.head?_eq_none_iff.1 hservers)
      rw [hhead] at hw
      obtain ⟨hmem, hparse⟩ := (mem_zip hread w.1 w.2).1 (List.mem_of_head? hw)
      rw [h.inForce, portBehind_eq_lastPort hnone] at hparse
      exact ⟨items, ts, [], rfl, hnone, hmem, hparse⟩

/-! ### The run -/

@[simp] theorem ports_setFlag (st : Parse D) (f : Flag) : (st.setFlag f).ports = st.ports := by
  cases f <;> rfl

theorem Ports.setPort {items : List PortItem} {st st' : Parse D} {value : Text} (h : Ports items st.ports)
    (hset : st.setPort value = .ok st') : Ports (items ++ [.port (portNumber value)]) st'.ports := by
  obtain ⟨n, hlong, hset⟩ := bind_inv hset
  have hnumber : portNumber value = UInt16.ofNat n.toNat := by
    unfold portNumber
    rw [hlong]
  split at hset
  · nomatch hset
  · cases hset
    rw [hnumber]
    exact h.port _

theorem Ports.setServer {items : List PortItem} {st st' : Parse D} {value : Text} (h : Ports items st.ports)
    (hset : st.setServer value = .ok st') : Ports (items ++ [.server (serverTokens value)]) st'.ports := by
  obtain ⟨endpoints, hlist, hset⟩ := bind_inv hset
  obtain ⟨hread, hne⟩ := parseServerList_eq_ok hlist
  cases hset
  exact h.server hread hne

/-- No other option touches the ports. -/
theorem ports_setValue {p : Platform D} {st st' : Parse D} {value : Text} {v : Valued} (hport : v ≠ .port)
    (hserver : v ≠ .server) (hset : st.setValue p value v = .ok st') : st'.ports = st.ports := by
  cases v with
  | port => exact absurd rfl hport
  | server => exact absurd rfl hserver
  | dir | target | password =>
    cases hset
    rfl
  | largeFileThreshold | streams | chunkKb | queuedFileSize | serverHashWorkers | reconnectRetries =>
    obtain ⟨n, -, hset⟩ := bind_inv hset
    obtain ⟨n, -, hset⟩ := bind_inv hset
    cases hset
    rfl
  | deltaMinSize | tcpSendBuffer | tcpRecvBuffer | auxWeight =>
    obtain ⟨n, -, hset⟩ := bind_inv hset
    split at hset
    · nomatch hset
    · cases hset
      rfl
  | link | onceIdleGrace | waitConnectTimeout =>
    obtain ⟨n, -, hset⟩ := bind_inv hset
    cases hset
    rfl
  | largeFileLane =>
    unfold Parse.setValue at hset
    dsimp only at hset
    split_ifs at hset <;> cases hset <;> rfl

theorem ports_setBlock {st st' : Parse D} {value : Option Text} (hset : st.setBlock value = .ok st') :
    st'.ports = st.ports := by
  unfold Parse.setBlock at hset
  cases value with
  | none =>
    cases hset
    rfl
  | some tok =>
    dsimp only at hset
    split_ifs at hset with hoff hauto hon
    · cases hset
      rfl
    · cases hset
      rfl
    · obtain ⟨v, -, hset⟩ := bind_inv hset
      split at hset
      · nomatch hset
      · cases hset
        rfl

theorem Ports.setValue {p : Platform D} {items : List PortItem} {st st' : Parse D} {value : Text} {v : Valued}
    (h : Ports items st.ports) (hset : st.setValue p value v = .ok st') :
    Ports (items ++ PortItem.ofValue value v) st'.ports := by
  by_cases hport : v = .port
  · subst hport
    exact h.setPort hset
  by_cases hserver : v = .server
  · subst hserver
    exact h.setServer hset
  have hnone : PortItem.ofValue value v = [] := by
    cases v <;> first | rfl | contradiction
  rw [hnone, List.append_nil, ports_setValue hport hserver hset]
  exact h

/-- **The run.** Behind the loop the ports are those of the options that were read. -/
theorem parseLoop_ports {p : Platform D} {args : List Text} {st st' : Parse D} {items : List PortItem}
    (h : Ports items st.ports) (hrun : parseLoop p args st = .ok st') :
    Ports (items ++ portItems args) st'.ports := by
  induction args, st using parseLoop.induct generalizing items with
  | case1 st =>
    cases hrun
    simpa [portItems] using h
  | case2 arg rest st harg =>
    unfold parseLoop at hrun
    rw [harg] at hrun
    nomatch hrun
  | case3 arg rest st f harg ih =>
    have hitems : portItems (arg :: rest) = portItems rest := by
      conv_lhs => unfold portItems
      rw [harg]
    unfold parseLoop at hrun
    rw [harg] at hrun
    rw [hitems]
    exact ih ((ports_setFlag st f).symm ▸ h) hrun
  | case4 arg st v harg =>
    rw [parseLoop, harg] at hrun
    nomatch hrun
  | case5 arg st v harg value rest ih =>
    have hitems : portItems (arg :: value :: rest) = PortItem.ofValue value v ++ portItems rest := by
      rw [portItems, harg]
    rw [parseLoop, harg] at hrun
    obtain ⟨st₁, hset, hrun⟩ := bind_inv hrun
    rw [hitems, ← List.append_assoc]
    exact ih st₁ (h.setValue hset) hrun
  | case6 arg st harg =>
    have hitems : portItems [arg] = [] := by rw [portItems, harg]
    rw [parseLoop, harg] at hrun
    rw [hitems, List.append_nil, ports_setBlock hrun]
    exact h
  | case7 arg st harg value rest hoption ih =>
    -- the next option stands where the value would
    have hitems : portItems (arg :: value :: rest) = portItems (value :: rest) := by
      rw [portItems, harg]
      exact if_pos hoption
    rw [parseLoop, harg] at hrun
    dsimp only at hrun
    rw [if_pos hoption] at hrun
    obtain ⟨st₁, hset, hrun⟩ := bind_inv hrun
    rw [hitems]
    exact ih st₁ ((ports_setBlock hset).symm ▸ h) hrun
  | case8 arg st harg value rest hoption ih =>
    have hitems : portItems (arg :: value :: rest) = portItems rest := by
      rw [portItems, harg]
      exact if_neg hoption
    rw [parseLoop, harg] at hrun
    dsimp only at hrun
    rw [if_neg hoption] at hrun
    obtain ⟨st₁, hset, hrun⟩ := bind_inv hrun
    rw [hitems]
    exact ih st₁ ((ports_setBlock hset).symm ▸ h) hrun

/-! ### The result -/

theorem mapError_inv {ε ε' α : Type} {f : ε → ε'} {x : Except ε α} {r : α} (h : Except.mapError f x = .ok r) :
    x = .ok r := by
  cases x with
  | error e => nomatch h
  | ok a =>
    cases h
    rfl

/-- An accepted command line: the options are read, and then the list is filled if it is empty. -/
theorem parseArgs_eq_ok {p : Platform D} {args : List Text} {st : Parse D} (h : parseArgs p args = .ok st) :
    ∃ v, Ports (portItems args.tail) v ∧ st.ports = { v with
      servers := if v.servers = [] then [(v.host, v.port)] else v.servers } := by
  cases args with
  | nil => nomatch h
  | cons mode args =>
    unfold parseArgs at h
    dsimp only at h
    split at h
    · nomatch h
    · cases hinit : initialOptions p mode with
      | none =>
        rw [hinit] at h
        nomatch h
      | some o =>
        have hfields : o.port = 27842 ∧ o.servers = [] := by
          unfold initialOptions at hinit
          split_ifs at hinit <;> cases hinit <;> exact ⟨rfl, rfl⟩
        rw [hinit] at h
        obtain ⟨st₀, hloop, h⟩ := bind_inv (mapError_inv h)
        obtain ⟨-, -, h⟩ := bind_inv h
        obtain ⟨rootDir, -, h⟩ := bind_inv h
        cases h
        refine ⟨st₀.ports, ?_, rfl⟩
        simpa using parseLoop_ports (ports_initial o hfields.1 hfields.2) hloop

/-- The port of the first endpoint is its own, or else what was in force where it was read. -/
theorem Ports.firstPort_eq {items : List PortItem} {v : PortView} (h : Ports items v) {t : Text} {ep : Address}
    (hhead : v.written.head? = some (t, ep)) :
    (':' ∈ t → headPort v.servers = firstPort items) ∧ (':' ∉ t → firstPort items = lastPort items) := by
  have hservers : v.servers.head? = some ep := by rw [h.first, hhead]; rfl
  have hport : headPort v.servers = ep.2 := by
    unfold headPort
    rw [List.headD_eq_head?_getD, hservers, Option.getD_some]
  have htoken : (items.flatMap PortItem.tokens).head? = some t := by rw [← h.tokens, List.head?_map, hhead]; rfl
  obtain ⟨_, _, _, -, -, -, hparse⟩ := h.start _ hhead
  have hkept := kept_of_parseHostPort hparse
  unfold Kept at hkept
  unfold firstPort
  rw [htoken, hport]
  dsimp only at hkept ⊢
  cases hfind : find ':' t with
  | none =>
    have hbare : ':' ∉ t := List.idxOf?_eq_none_iff.1 hfind
    exact ⟨fun hcolon => absurd hcolon hbare, fun _ => rfl⟩
  | some pos =>
    rw [hfind] at hkept
    refine ⟨fun _ => (portNumber_of_ok hkept.2).symm, fun hbare => ?_⟩
    rw [find_none hbare] at hfind
    nomatch hfind

/-- An endpoint without a port is in the list with the port that was in force. -/
theorem Ports.bare_mem {items pre post : List PortItem} {v : PortView} (h : Ports items v) {ts : List Text} {t : Text}
    (hitems : items = pre ++ .server ts :: post) (ht : t ∈ ts) (hbare : ':' ∉ t) :
    (t, (t, portBehind (headPort v.servers) pre)) ∈ v.written := by
  have hmem : t ∈ items.flatMap PortItem.tokens := by
    rw [hitems]
    simp [PortItem.tokens, ht]
  rw [← h.tokens] at hmem
  obtain ⟨w, hw, rfl⟩ := List.mem_map.1 hmem
  obtain ⟨_, _, _, -, -, hparse⟩ := (h.read w.1 w.2).1 hw
  exact (h.read _ _).2 ⟨pre, ts, post, hitems, ht, parseHostPort_bare (ne_nil_of_parseHostPort hparse) hbare _⟩

/-- The endpoint in front is the first that was written. -/
theorem Ports.front {items : List PortItem} {v : PortView} (h : Ports items v) (hne : v.servers ≠ []) :
    ∃ t ep, v.written.head? = some (t, ep) ∧ v.servers.head? = some ep ∧ v.servers.headD ([], 27842) = ep := by
  obtain ⟨ep, rest, heq⟩ := List.exists_cons_of_ne_nil hne
  have hservers : v.servers.head? = some ep := by rw [heq, List.head?_cons]
  have hheadD : v.servers.headD ([], 27842) = ep := by rw [heq, List.headD_cons]
  obtain ⟨w, hw, hsnd⟩ := Option.map_eq_some_iff.1 (h.first.symm.trans hservers)
  exact ⟨w.1, ep, by rw [hw, ← hsnd], hservers, hheadD⟩

/-- Where the command line is normalised or the ports agree, the first endpoint has the port that the condition
names. -/
theorem Ports.headPort_eq_firstPort {items : List PortItem} {st : Parse D} (h : Ports items st.ports)
    (hne : st.ports.servers ≠ []) (hor : Normalised st ∨ PortsAgree items) :
    headPort st.ports.servers = firstPort items := by
  obtain ⟨t, ep, hhead, hservers, hheadD⟩ := h.front hne
  obtain ⟨pre, ts, post, hitems, hpre, ht, hparse⟩ := h.start _ hhead
  obtain ⟨hown, hgiven⟩ := h.firstPort_eq hhead
  by_cases hcolon : ':' ∈ t
  · exact hown hcolon
  · have hport : headPort st.ports.servers = lastPort pre := by
      have hbare := parseHostPort_bare (ne_nil_of_parseHostPort hparse) hcolon (lastPort pre)
      have hep : ep = (t, lastPort pre) := Except.ok.inj (hparse.symm.trans hbare)
      unfold headPort
      rw [hheadD, hep]
    rw [hgiven hcolon, hport]
    -- the first endpoint was read with the last `--port` before it, whichever of the two is known
    rcases hor with hn | ha
    · have hkept := hn.kept (t, ep) (List.mem_of_head? hhead)
      have hport := (kept_iff (kept_of_parseHostPort hparse) _).1 hkept hcolon
      exact hport.trans h.given
    · have hagree := ha.bare pre ts post hitems ⟨t, ht, hcolon⟩
      rw [portBehind_eq_lastPort hpre] at hagree
      exact hagree

/-- With endpoints given, the command line is normalised exactly if the ports agree. -/
theorem Ports.normalised_iff_of_ne_nil {items : List PortItem} {v : PortView} (h : Ports items v)
    (hne : v.servers ≠ []) {st : Parse D} (hst : st.ports = v) : Normalised st ↔ PortsAgree items := by
  subst hst
  obtain ⟨t, ep, hhead, hservers, hheadD⟩ := h.front hne
  constructor
  · intro hn
    have heq := h.headPort_eq_firstPort hne (.inl hn)
    constructor
    · rintro pre ts post hitems ⟨t, ht, hbare⟩
      have hkept := hn.kept _ (h.bare_mem hitems ht hbare)
      unfold Kept at hkept
      rw [find_none hbare] at hkept
      rw [← heq, ← h.given]
      exact congrArg Prod.snd hkept
    · intro _
      have hep : ep = (st.options.host, st.options.port) := Option.some.inj (hservers.symm.trans hn.head)
      have hport : headPort st.ports.servers = st.ports.port := by
        unfold headPort
        rw [hheadD, hep]
        rfl
      rw [← heq, ← h.inForce]
      exact hport.symm
  · intro ha
    have heq := h.headPort_eq_firstPort hne (.inr ha)
    have hserver : ∃ ts, PortItem.server ts ∈ items := by
      obtain ⟨pre, ts, post, hitems, -, -, -⟩ := h.start _ hhead
      exact ⟨ts, by rw [hitems]; simp⟩
    refine ⟨hne, h.nodup, ?_, ?_, ?_⟩
    · have hhost : ep.1 = st.options.host := by
        have := h.host hne
        rwa [hheadD] at this
      have hport : ep.2 = st.options.port := by
        have hlast := ha.last hserver
        rw [← heq, ← h.inForce] at hlast
        unfold headPort at hlast
        rw [hheadD] at hlast
        exact hlast.symm
      rw [← hhost, ← hport]
      exact hservers
    · intro w hw
      exact (h.listed w.2).2 ⟨w.1, hw⟩
    · intro w hw
      obtain ⟨pre, ts, post, hitems, ht, hparse⟩ := (h.read w.1 w.2).1 hw
      have hgiven : st.portGiven = lastPort items := h.given
      refine (kept_iff (kept_of_parseHostPort hparse) _).2 fun hbare => ?_
      rw [heq, hgiven]
      exact ha.bare pre ts post hitems ⟨w.1, ht, hbare⟩

/-- Without a `--server` nothing can go wrong. -/
theorem Ports.normalised_of_nil {items : List PortItem} {v : PortView} (h : Ports items v)
    (hnil : v.servers = []) {st : Parse D} (hst : st.ports = { v with servers := [(v.host, v.port)] }) :
    Normalised st ∧ PortsAgree items := by
  have hwritten : st.written = [] := by
    have hv : st.written = v.written := congrArg PortView.written hst
    rw [hv]
    refine List.eq_nil_iff_forall_not_mem.2 fun w hw => ?_
    have hmem : w.2 ∈ v.servers := (h.listed w.2).2 ⟨w.1, hw⟩
    rw [hnil] at hmem
    nomatch hmem
  have hservers : st.options.servers = [(st.options.host, st.options.port)] := by
    have h1 : st.options.servers = [(v.host, v.port)] := congrArg PortView.servers hst
    have h2 : st.options.host = v.host := congrArg PortView.host hst
    have h3 : st.options.port = v.port := congrArg PortView.port hst
    rw [h1, h2, h3]
  refine ⟨⟨?_, ?_, ?_, ?_, ?_⟩, ⟨?_, ?_⟩⟩
  · simp [hservers]
  · simp [hservers]
  · simp [hservers]
  · simp [hwritten]
  · simp [hwritten]
  · rintro pre ts post rfl -
    exact absurd hnil (h.served ts (by simp))
  · rintro ⟨ts, hts⟩
    exact absurd hnil (h.served ts hts)

/-- There is always an endpoint, and none twice. -/
theorem servers_nodup {p : Platform D} {args : List Text} {st : Parse D} (h : parseArgs p args = .ok st) :
    st.options.servers ≠ [] ∧ st.options.servers.Nodup := by
  obtain ⟨v, hports, hst⟩ := parseArgs_eq_ok h
  have hservers : st.options.servers = if v.servers = [] then [(v.host, v.port)] else v.servers :=
    congrArg PortView.servers hst
  rw [hservers]
  split
  · exact ⟨List.cons_ne_nil _ _, List.nodup_singleton _⟩
  · exact ⟨‹_›, hports.nodup⟩

/-- **What an accepted command line gives.** It is normalised exactly if its `--port` and `--server` agree. -/
theorem normalised_iff (p : Platform D) (args : List Text) (st : Parse D) (h : parseArgs p args = .ok st) :
    Normalised st ↔ PortsAgree (portItems args.tail) := by
  obtain ⟨v, hports, hst⟩ := parseArgs_eq_ok h
  by_cases hnil : v.servers = []
  · rw [if_pos hnil] at hst
    obtain ⟨hn, ha⟩ := hports.normalised_of_nil hnil hst
    exact ⟨fun _ => ha, fun _ => hn⟩
  · rw [if_neg hnil] at hst
    exact hports.normalised_iff_of_ne_nil hnil hst

/-- A platform on which an absolute path is canonical. -/
def plain : Platform Unit where
  currentPath := ['/']
  weaklyCanonical := .ok
  strtod := fun t => ((), t)
  isFinite := fun _ => true
  le := fun _ _ => true
  zero := ()
  one := ()
  sixteen := ()

/-- A client with a directory and a password, and `ports` in front of them. -/
def clientArgs (ports : List Text) : List Text :=
  "client".toList :: ports ++ ["--target".toList, "/t".toList, "--password".toList, "x".toList]

/-- What is seen of the ports. -/
def endpointsOf (args : List Text) : Option (List Address × Address) :=
  (parseArgs plain args).toOption.map fun st => (st.options.servers, (st.options.host, st.options.port))

theorem parseArgs_of_endpointsOf {args : List Text} {seen : List Address × Address}
    (h : endpointsOf args = some seen) : ∃ st, parseArgs plain args = .ok st ∧ st.options.servers = seen.1 ∧
      (st.options.host, st.options.port) = seen.2 := by
  unfold endpointsOf at h
  cases hparse : parseArgs plain args with
  | error e =>
    rw [hparse] at h
    nomatch h
  | ok st =>
    rw [hparse] at h
    cases h
    exact ⟨st, rfl, rfl, rfl⟩

/-- A `--port` in front of the `--server` is that of its endpoint. -/
theorem normalised_portFirst : ∃ st, parseArgs plain
    (clientArgs ["--port".toList, "5000".toList, "--server".toList, "a".toList]) = .ok st ∧ Normalised st := by
  have hseen : endpointsOf (clientArgs ["--port".toList, "5000".toList, "--server".toList, "a".toList]) =
      some ([(['a'], 5000)], (['a'], 5000)) := by decide +kernel
  have hitems : portItems (clientArgs ["--port".toList, "5000".toList, "--server".toList, "a".toList]).tail =
      [.port 5000] ++ [.server [['a']]] := by decide +kernel
  obtain ⟨st, hst, -, -⟩ := parseArgs_of_endpointsOf hseen
  refine ⟨st, hst, (normalised_iff plain _ st hst).2 ?_⟩
  rw [hitems]
  constructor
  · intro pre ts post heq _
    rcases append_singleton_split heq with ⟨-, rfl, -⟩ | ⟨post', -, hport⟩
    · decide +kernel
    · rcases pre with _ | ⟨_, _ | _⟩ <;> simp at hport
  · intro _
    decide +kernel

/-- A `--port` behind the `--server` is not: the engine does not see its own port in front. -/
theorem normalised_portLast_fails : ¬ ∀ (p : Platform Unit) (args : List Text) (st : Parse Unit),
    parseArgs p args = .ok st → Normalised st := by
  intro h
  have hseen : endpointsOf (clientArgs ["--server".toList, "a".toList, "--port".toList, "5000".toList]) =
      some ([(['a'], 27842)], (['a'], 5000)) := by decide +kernel
  obtain ⟨st, hst, hservers, hfront⟩ := parseArgs_of_endpointsOf hseen
  have hhead := (h plain _ st hst).head
  rw [hservers, hfront] at hhead
  exact absurd hhead (by decide)

end FastClone.Cli
